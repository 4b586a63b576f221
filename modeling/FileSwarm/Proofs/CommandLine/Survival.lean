import FileSwarm.CommandLine.Sync
import FileSwarm.Proofs.Transfer.Endings

/-!
# The file of a completed transfer survives

Nothing that happens to a transfer once it is complete changes its temp file, but for one call: to abort and take the
temp file away does just that, whatever the transfer came to. The command that waits for a transfer makes this call
only when it gives up; so a file that was complete before is there to take the place of the target.

* `Sound.survives` : a completed transfer keeps its file, as long as nobody takes it away;
* `Orderly.completion` : a transfer that is complete became so at some event;
* `Vigil`, `Tick` : a transfer and the command that waits for it, one step of either after another;
  `Vigil.heeded_run` : what the command reads is what the transfer came to;
* `completed_file_survives` : the file of every completed transfer, also under the eyes of the command;
* `completed_file_lost` : it is taken away by those who ask for that, and by a command that gives up too late.
-/

namespace FileSwarm

open CommandLine (Watch)

namespace Course

variable {n : Nat} {c : Course}

/-- The temp file of a completed transfer stays as it is. -/
theorem Sound.survives (h : Sound n c) (hc : c.transfer.phase = .completed) {more : List Event}
    (hmore : .cleanUp ∉ more) :
    (c.run more).transfer.phase = .completed ∧ (c.run more).assembled = .ok (c.content n) := by
  have hafter : Sound n (c.run more) := sound_run h hmore
  rcases Nat.eq_zero_or_pos c.transfer.target.size with hzero | hpos
  · -- a file without bytes stays empty, whatever jobs still do to it
    have hphase : ∀ {k : List Event} {d : Course}, Sound n d → d.transfer.phase = .completed → .cleanUp ∉ k →
        (d.run k).transfer.phase = .completed := by
      intro k
      induction k with
      | nil => exact fun _ hd _ => hd
      | cons e k ih =>
        intro d hs hd hk
        rw [List.mem_cons, not_or] at hk
        have heffect := step_effect hs (Ne.symm hk.1)
        exact ih (sound_effect hs heffect) (effect_completed hs heffect hd).1 hk.2
    have hempty : (c.run more).content n = c.content n := by
      have hbefore := h.small
      have hnow := hafter.small
      rw [run_target h hmore, hzero] at hnow
      rw [hzero] at hbefore
      rw [ByteArray.size_eq_zero_iff.1 (Nat.le_zero.1 hnow), ByteArray.size_eq_zero_iff.1 (Nat.le_zero.1 hbefore)]
    exact ⟨hphase h hc hmore, by rw [hafter.assembled, hempty]⟩
  · obtain ⟨hphase, hcontent⟩ := run_completed h hmore hc hpos
    exact ⟨hphase, by rw [hafter.assembled, hcontent]⟩

theorem not_completed_cleanUp (hopen : c.transfer.phase.isFinal = false) :
    (c.step .cleanUp).transfer.phase ≠ .completed := by
  show c.transfer.abort.phase ≠ _
  rcases Transfer.abort_cases c.transfer with hsame | ⟨-, hphase⟩
  · rw [hsame]
    intro hp
    rw [hp] at hopen
    exact nomatch hopen
  · rw [hphase hopen]
    exact nofun

/-- A transfer that is over came to its end at some event. -/
theorem exists_end {events : List Event} (hopen : c.transfer.phase.isFinal = false)
    (hfinal : (c.run events).transfer.phase.isFinal) :
    ∃ before e after, events = before ++ e :: after ∧ (c.run before).transfer.phase.isFinal = false ∧
      (c.run (before ++ [e])).transfer.phase = (c.run events).transfer.phase := by
  induction events using List.reverseRecOn with
  | nil => exact nomatch hopen.symm.trans hfinal
  | append_singleton events e ih =>
    cases hf : (c.run events).transfer.phase.isFinal with
    | false => exact ⟨events, e, [], rfl, hf, rfl⟩
    | true =>
      obtain ⟨before, x, after, rfl, hbefore, hx⟩ := ih hf
      refine ⟨before, x, after ++ [e], by simp, hbefore, ?_⟩
      rw [hx, run_snoc]
      exact (step_final hf e).1.symm

theorem assembled_cleanUp (c : Course) : (c.step .cleanUp).assembled =
    ((c.transfer.abort.disk.remove c.transfer.abort.target.temp).toOption.getD c.transfer.abort.disk).read
      c.transfer.abort.target.temp := rfl

/-! ## The command that waits -/

/-- What can happen next: something to the transfer, or a step of the command, to which the time may be over. -/
inductive Tick where
  | event (e : Event)
  | turn (late : Bool)

/-- What happened to a transfer so far, and where the command is that waits for it. -/
structure Vigil where
  events : List Event
  watch : Watch

namespace Vigil

variable {v : Vigil}

/-- One tick more of a transfer that began as `c`. A command that gives up takes the temp file away. -/
def step (c : Course) (v : Vigil) : Tick → Vigil
  | .event e => { v with events := v.events ++ [e] }
  | .turn late =>
    let events := if v.watch.givesUp then v.events ++ [.cleanUp] else v.events
    ⟨events, v.watch.next (c.run events).transfer.phase late⟩

def run (c : Course) (ticks : List Tick) : Vigil := ticks.foldl (step c) ⟨[], .looking⟩

theorem run_snoc (c : Course) (ticks : List Tick) (k : Tick) : run c (ticks ++ [k]) = (run c ticks).step c k := by
  rw [run, List.foldl_append]
  rfl

/-- A command reads what the transfer came to when that is settled. -/
structure Heeded (c : Course) (v : Vigil) : Prop where
  settled : v.watch = .reading → (c.run v.events).transfer.phase.isFinal
  read : ∀ p, v.watch = .done p → p.isFinal ∧ (c.run v.events).transfer.phase = p

theorem heeded_event (h : Heeded c v) (e : Event) : Heeded c (v.step c (.event e)) := by
  have hrun : c.run (v.step c (.event e)).events = (c.run v.events).step e := Course.run_snoc c v.events e
  refine ⟨fun hw => ?_, fun p hw => ?_⟩
  · rw [hrun, (step_final (h.settled hw) e).1]
    exact h.settled hw
  · obtain ⟨hfinal, hp⟩ := h.read p hw
    rw [hrun, (step_final (by rwa [hp]) e).1]
    exact ⟨hfinal, hp⟩

theorem heeded_turn (ho : Orderly c) (h : Heeded c v) (late : Bool) : Heeded c (v.step c (.turn late)) := by
  rcases v with ⟨events, watch⟩
  cases watch with
  | looking =>
    show Heeded c ⟨events, if (c.run events).transfer.phase.isFinal then .reading else .undecided⟩
    split
    · next hfinal => exact ⟨fun _ => hfinal, nofun⟩
    · exact ⟨nofun, nofun⟩
  | undecided =>
    show Heeded c ⟨events, if late then .leaving else .looking⟩
    split <;> exact ⟨nofun, nofun⟩
  | leaving =>
    refine ⟨fun _ => ?_, nofun⟩
    show (c.run (events ++ [.cleanUp])).transfer.phase.isFinal
    rw [Course.run_snoc]
    exact (ho.run events).final_cleanUp
  | reading =>
    refine ⟨nofun, fun p hp => ?_⟩
    obtain rfl : (c.run events).transfer.phase = p := Watch.done.inj hp
    exact ⟨h.settled rfl, rfl⟩
  | done result => exact h

theorem heeded_run (ho : Orderly c) (ticks : List Tick) : Heeded c (run c ticks) := by
  induction ticks using List.reverseRecOn with
  | nil => exact ⟨nofun, nofun⟩
  | append_singleton ticks k ih =>
    rw [run_snoc]
    cases k with
    | event e => exact heeded_event ih e
    | turn late => exact heeded_turn ho ih late

end Vigil

/-- From the event on at which a transfer becomes complete, its temp file can be read and has the bytes it had then,
whatever happens, as long as nobody takes it away. And whatever happens while a command waits for a transfer, in
whatever order: if the command takes the transfer for complete and did not give it up, the temp file is there, with
the bytes it had when the transfer became complete. -/
theorem completed_file_survives {target : Target} {tuning : Tuning} {admission : Admission} {disk made : Disk}
    {t : Transfer} (h : Transfer.create target tuning admission disk = (.ok t, made)) :
    let c := start t
    (∀ before e more, (c.run before).transfer.phase.isFinal = false →
      (c.run (before ++ [e])).transfer.phase = .completed → .cleanUp ∉ more →
      ∃ b, (c.run (before ++ [e])).assembled = .ok b ∧
        (c.run (before ++ [e] ++ more)).transfer.phase = .completed ∧
        (c.run (before ++ [e] ++ more)).assembled = .ok b) ∧
    ∀ ticks, (Vigil.run c ticks).watch = .done .completed → .cleanUp ∉ (Vigil.run c ticks).events →
      ∃ before e after b, (Vigil.run c ticks).events = before ++ e :: after ∧
        (c.run before).transfer.phase.isFinal = false ∧ (c.run (before ++ [e])).transfer.phase = .completed ∧
        (c.run (before ++ [e])).assembled = .ok b ∧ (c.run (Vigil.run c ticks).events).assembled = .ok b := by
  intro c
  have hstart : Orderly c := orderly_start (Transfer.create_untouched h)
  obtain ⟨n, hsound, -⟩ := sound_start h
  have hsurvives : ∀ before e more, (c.run before).transfer.phase.isFinal = false →
      (c.run (before ++ [e])).transfer.phase = .completed → .cleanUp ∉ more →
      ∃ b, (c.run (before ++ [e])).assembled = .ok b ∧
        (c.run (before ++ [e] ++ more)).transfer.phase = .completed ∧
        (c.run (before ++ [e] ++ more)).assembled = .ok b := by
    intro before e more hopen hdone hmore
    have hkept : .cleanUp ∉ before ++ [e] := by
      rw [List.mem_append, not_or, List.mem_singleton]
      refine ⟨hstart.uncleaned hopen, ?_⟩
      rintro rfl
      rw [run_snoc] at hdone
      exact not_completed_cleanUp hopen hdone
    have hnow : Sound n (c.run (before ++ [e])) := sound_run hsound hkept
    rw [run_append c (before ++ [e]) more]
    exact ⟨_, hnow.assembled, hnow.survives hdone hmore⟩
  refine ⟨hsurvives, fun ticks hread hkept => ?_⟩
  obtain ⟨-, hcompleted⟩ := (Vigil.heeded_run hstart ticks).read _ hread
  have hopen : c.transfer.phase.isFinal = false := by
    show t.phase.isFinal = false
    rw [(Transfer.create_untouched h).phase]
    rfl
  obtain ⟨before, e, after, hevents, hbefore, hend⟩ := exists_end hopen (by rw [hcompleted]; rfl)
  rw [hcompleted] at hend
  have hafter : .cleanUp ∉ after := fun hm => hkept (by rw [hevents]; simp [hm])
  obtain ⟨b, hb, -, hlast⟩ := hsurvives before e after hbefore hend hafter
  refine ⟨before, e, after, b, hevents, hbefore, hend, hb, ?_⟩
  rw [hevents, List.append_cons]
  exact hlast

/-! ## The transfer of one byte -/

/-- The byte came, was hashed and found right. -/
def oneCompleted : List Event := oneEvents ++ [.work 0]

/-- A transfer of one byte to an empty disk. -/
def oneStart : Course := start (plainTransfer 1 .standard .swarming)

theorem run_oneCompleted :
    oneStart.run oneCompleted = (settle oneArrived.transfer [.hashed 0 (.ok true)]).step (.work 0) := by
  rw [oneCompleted, run_snoc, oneStart, run_oneEvents]

theorem phase_oneCompleted : (oneStart.run oneCompleted).transfer.phase = .completed := by
  rw [run_oneCompleted]
  rfl

theorem assembled_oneCompleted : (oneStart.run oneCompleted).assembled = .ok ⟨#[1]⟩ := by
  have hbefore : Sound 1 (settle oneArrived.transfer [.hashed 0 (.ok true)]) := by
    rw [← run_oneEvents]
    exact sound_run (sound_plain 1 _ _) (by simp [oneEvents])
  have heffect := step_effect hbefore (e := .work 0) (by simp)
  have hidle : ∀ task ∈ [Task.hashed 0 (.ok true)], task.isDelta = false := by simp [Task.isDelta]
  have hcontent := effect_content heffect (by simp [Event.isChunk]) hidle
  rw [run_oneCompleted, (sound_effect hbefore heffect).assembled, hcontent]
  rfl

namespace Vigil

theorem run_map (c : Course) (events : List Event) : run c (events.map .event) = ⟨events, .looking⟩ := by
  induction events using List.reverseRecOn with
  | nil => rfl
  | append_singleton events e ih =>
    rw [List.map_append, List.map_singleton, run_snoc, ih]
    rfl

end Vigil

/-- The command looks when the byte was found right; then the caller aborts what is over. -/
def oneTicks : List Tick := oneCompleted.map .event ++ [.turn false] ++ [.event .abort] ++ [.turn true]

theorem run_oneTicks : Vigil.run oneStart oneTicks = ⟨oneCompleted ++ [.abort], .done .completed⟩ := by
  have hlook : Vigil.step oneStart ⟨oneCompleted, .looking⟩ (.turn false) = ⟨oneCompleted, .reading⟩ := by
    simp [Vigil.step, Watch.givesUp, Watch.next, phase_oneCompleted, Phase.isFinal]
  have habort : (oneStart.run (oneCompleted ++ [.abort])).transfer.phase = .completed := by
    rw [run_snoc, (step_final (by rw [phase_oneCompleted]; rfl) _).1]
    exact phase_oneCompleted
  rw [oneTicks, Vigil.run_snoc, Vigil.run_snoc, Vigil.run_snoc, Vigil.run_map, hlook]
  simp [Vigil.step, Watch.givesUp, Watch.next, habort]

theorem one_completed_file_survives :
    (oneStart.run oneEvents).transfer.phase.isFinal = false ∧
    (oneStart.run (oneEvents ++ [.work 0])).transfer.phase = .completed ∧
    (oneStart.run (oneEvents ++ [.work 0] ++ [.abort, .chunk "a" 0 ⟨#[2]⟩])).assembled = .ok ⟨#[1]⟩ ∧
    (Vigil.run oneStart oneTicks).watch = .done .completed ∧ .cleanUp ∉ (Vigil.run oneStart oneTicks).events ∧
    ∃ b, (oneStart.run (Vigil.run oneStart oneTicks).events).assembled = .ok b := by
  obtain ⟨hcalls, hwatch⟩ := completed_file_survives (create_plain 1 .standard .swarming)
  have hopen : (oneStart.run oneEvents).transfer.phase.isFinal = false := by
    rw [oneStart, run_oneEvents]
    rfl
  have hkept : .cleanUp ∉ (Vigil.run oneStart oneTicks).events := by
    rw [run_oneTicks]
    simp [oneCompleted, oneEvents]
  have hread : (Vigil.run oneStart oneTicks).watch = .done .completed := by rw [run_oneTicks]
  obtain ⟨b, hb, -, hlater⟩ :=
    hcalls oneEvents (.work 0) [.abort, .chunk "a" 0 ⟨#[2]⟩] hopen phase_oneCompleted (by simp)
  obtain ⟨-, -, -, d, -, -, -, -, hd⟩ := hwatch oneTicks hread hkept
  have hone : b = ⟨#[1]⟩ := Except.ok.inj (hb.symm.trans assembled_oneCompleted)
  exact ⟨hopen, phase_oneCompleted, hone ▸ hlater, hread, hkept, d, hd⟩

/-! ## Files that are taken away -/

/-- The temp file of `f` has a place in the root directory, whether or not it is there. -/
theorem place_incomplete {d : Disk} {stamp : Option Stamp} (hroot : d.nodeAt? [] = some (.directory stamp))
    (hhere : d.here = []) : d.place "(incomplete) f" = .ok ["(incomplete) f"] := by
  refine place_plain ?_
  simp only [Disk.step, hhere, hroot]
  decide +kernel

theorem remove_plain {d : Disk} (h : Disk.Alike 1 plainDisk d) :
    ((d.remove "(incomplete) f").toOption.getD d).read "(incomplete) f" = .error .notFound := by
  have hnames : d.names = [([], 0), (["(incomplete) f"], 1)] := h.names
  have hhere : d.here = [] := h.here
  obtain ⟨root, hroot, hdirectory⟩ := Option.map_eq_some_iff.1 (h.directories 0 : (d.nodes[0]?).map _ = some true)
  obtain ⟨node, hnode, hfile⟩ := Option.map_eq_some_iff.1 (h.directories 1 : (d.nodes[1]?).map _ = some false)
  obtain ⟨stamp, rfl⟩ : ∃ stamp, root = .directory stamp := by
    cases root with
    | directory stamp => exact ⟨stamp, rfl⟩
    | _ => cases hdirectory
  have hslash : Path.endsInSlash "(incomplete) f" = false := by decide +kernel
  have habove : d.nodeAt? [] = some (.directory stamp) := by simp [Disk.nodeAt?, Disk.numberAt?, hnames, hroot]
  have hplace : d.place "(incomplete) f" = .ok ["(incomplete) f"] := place_incomplete habove hhere
  have hthere : d.nodeAt? ["(incomplete) f"] = some node := by simp [Disk.nodeAt?, Disk.numberAt?, hnames, hnode]
  have hremove : d.remove "(incomplete) f" =
      .ok { d with names := [([], 0)], nodes := d.nodes.modify 0 (·.withStamp none) } := by
    simp only [Disk.remove, hplace, bind, Except.bind, hthere]
    cases node with
    | directory => cases hfile
    | _ => simp [hslash, Disk.putNames, Disk.numberAt?, Disk.stampNode, hnames, pure, Except.pure]
  have hafter : Disk.nodeAt? { d with names := [([], 0)], nodes := d.nodes.modify 0 (·.withStamp none) } [] =
      some (.directory none) := by
    simp [Disk.nodeAt?, Disk.numberAt?, Array.getElem?_modify, hroot, Node.withStamp]
  have hgone := place_incomplete hafter hhere
  rw [hremove]
  simp [Except.toOption, Disk.read, Disk.node, Disk.number, hgone, bind, Except.bind, Disk.numberAt?, throw, throwThe,
    MonadExceptOf.throw]

/-- The command looks before the byte is found right, and gives up after that. -/
def lateTicks : List Tick :=
  oneEvents.map .event ++ [.turn false] ++ [.turn true] ++ [.event (.work 0)] ++ [.turn false] ++ [.turn false]

/-- The temp file of a completed transfer is taken away by those who ask for that. And a command that looked at the
transfer just before it became complete gives it up, takes it for complete, and has no file to put in the place of
the target. -/
theorem completed_file_lost :
    (oneStart.run oneCompleted).transfer.phase = .completed ∧
    (oneStart.run oneCompleted).assembled = .ok ⟨#[1]⟩ ∧
    (oneStart.run (oneCompleted ++ [.cleanUp])).transfer.phase = .completed ∧
    (oneStart.run (oneCompleted ++ [.cleanUp])).assembled = .error .notFound ∧
    Vigil.run oneStart lateTicks = ⟨oneCompleted ++ [.cleanUp], .done .completed⟩ := by
  have hfinal : (oneStart.run oneCompleted).transfer.phase.isFinal := by
    rw [phase_oneCompleted]
    rfl
  have hphase : (oneStart.run (oneCompleted ++ [.cleanUp])).transfer.phase = .completed := by
    rw [run_snoc, (step_final hfinal _).1]
    exact phase_oneCompleted
  have harrived : Disk.Alike 1 plainDisk oneArrived.transfer.disk := (Disk.alike_putFile (n := 1) rfl _ _).1
  have hdone : Disk.Alike 1 plainDisk (oneStart.run oneCompleted).transfer.disk := by
    rw [run_oneCompleted]
    rcases Transfer.acceptVerdict_cases (settle oneArrived.transfer []).transfer 0 (.ok true) with
      hsame | ⟨-, hbroken⟩ | ⟨-, -, hends, -⟩ | ⟨-, hwrong, -⟩
    · have hverifying := congrArg Transfer.phase hsame
      exact nomatch hverifying
    · exact nomatch hbroken
    · exact harrived.trans (hends.alike 1)
    · exact nomatch hwrong
  have hlost : (oneStart.run (oneCompleted ++ [.cleanUp])).assembled = .error .notFound := by
    have habort : Disk.Alike 1 plainDisk (oneStart.run oneCompleted).transfer.abort.disk ∧
        (oneStart.run oneCompleted).transfer.abort.target.temp = "(incomplete) f" := by
      have htarget : (oneStart.run oneCompleted).transfer.target = plainTarget 1 :=
        run_target (sound_plain 1 _ _) (by simp [oneCompleted, oneEvents])
      rcases Transfer.abort_cases (oneStart.run oneCompleted).transfer with hsame | ⟨hends, -⟩
      · rw [hsame, htarget]
        exact ⟨hdone, temp_plain 1⟩
      · rw [hends.target, htarget]
        exact ⟨hdone.trans (hends.alike 1), temp_plain 1⟩
    rw [run_snoc, assembled_cleanUp, habort.2]
    exact remove_plain habort.1
  have hverifying : (oneStart.run oneEvents).transfer.phase = .verifying := by
    rw [oneStart, run_oneEvents]
    rfl
  refine ⟨phase_oneCompleted, assembled_oneCompleted, hphase, hlost, ?_⟩
  rw [lateTicks, Vigil.run_snoc, Vigil.run_snoc, Vigil.run_snoc, Vigil.run_snoc, Vigil.run_snoc, Vigil.run_map]
  have hlook : Vigil.step oneStart ⟨oneEvents, .looking⟩ (.turn false) = ⟨oneEvents, .undecided⟩ := by
    simp [Vigil.step, Watch.givesUp, Watch.next, hverifying, Phase.isFinal]
  rw [hlook]
  show (⟨oneCompleted ++ [.cleanUp], .done (oneStart.run (oneCompleted ++ [.cleanUp])).transfer.phase⟩ : Vigil) = _
  rw [hphase]

end Course

end FileSwarm
