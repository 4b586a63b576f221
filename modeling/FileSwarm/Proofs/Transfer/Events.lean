import FileSwarm.Proofs.Transfer.Moves
import FileSwarm.Proofs.Transfer.Sound

/-!
# What an event comes to while a transfer goes on

Events come to a few kinds of change, told apart by what they do to the books and to the jobs under way.

* `Books c e v l` : the books `v` and the jobs `l` once bytes are there;
* `Happens n c e d` : the event `e` takes the course `c` to `d`, case by case;
* `step_happens` : every event comes to one of these cases;
* `Ongoing n c` : a transfer that goes on; `Ongoing.step`.
-/

namespace FileSwarm

/-- Peers that join owe nothing. -/
def Event.Fresh : Event → Prop
  | .join share _ => share.pending = []
  | _ => True

namespace Course

/-- The books and the jobs once bytes are there: a chunk was put into the temp file, or the local copy was
looked at. -/
inductive Books (c : Course) : Event → Transfer → List Task → Prop
  | chunk {id : String} {offset : Nat} {bytes : ByteArray} {m : PartMap} {d : Disk}
    (parts : c.transfer.parts = some m) :
    Books c (.chunk id offset bytes) (Transfer.credited { c.transfer with disk := d } id ⟨offset, bytes.size⟩ m) c.tasks
  | copied {i : Nat} {m : PartMap} (unmapped : c.transfer.parts = none) (clean : ∀ o, m.state? o ≠ some .pending)
    (busy : ∃ task ∈ c.tasks, task.isDelta) : Books c (.work i) (c.transfer.installed m) []

/-- All that can happen in a transfer that goes on, its temp file being node `n`. -/
inductive Happens (n : Nat) (c : Course) : Event → Course → Prop
  | same {e : Event} : Happens n c e c
  | ended {e : Event} {u : Transfer} {l : List Task} (ends : c.transfer.Over u) : Happens n c e (settle u l)
  | talk {e : Event} {u : Transfer} {l : List Task} (talk : c.transfer.Talk u) (goes : Goes c.tasks l) :
    Happens n c e (settle u l)
  /-- Blocks were copied into the temp file. -/
  | copying {i : Nat} {d : Disk} {l : List Task} (busy : ∃ task ∈ c.tasks, task.isDelta) (goes : Goes c.tasks l) :
    Happens n c (.work i) (settle { c.transfer with disk := d } l)
  /-- Another program changed other files. -/
  | edited {d : Disk} (content : d.content n = c.content n) :
    Happens n c (.edit d) { c with transfer := { c.transfer with disk := d } }
  /-- Bytes are there, and others are not. -/
  | more {e : Event} {u v : Transfer} {l : List Task} (books : Books c e v l)
    (talk : v.Talk u ∨ (v.setPhase .downloading).Talk u) : Happens n c e (settle u l)
  /-- The last bytes are there, and the temp file is to be hashed. -/
  | assembled {e : Event} {v : Transfer} {l : List Task} {m : PartMap} {s : Signature} (books : Books c e v l)
    (parts : v.parts = some m) (complete : m.isComplete) (signed : v.signature = some s) :
    Happens n c e (settle ((v.setPhase .verifying).queueJob (.verify v.epoch s.digest)) l)
  /-- The temp file was hashed. -/
  | hashed {i epoch : Nat} {d : Digest} {r : Except Failure Bool} (task : c.tasks[i]? = some (.hash epoch d))
    (result : ∀ b, r = .ok b → b = (Sha256.digest (c.content n) == d)) :
    Happens n c (.work i) (settle c.transfer (c.tasks.take i ++ [.hashed epoch r] ++ c.tasks.drop (i + 1)))
  /-- The hash was wrong, and everything is asked for again. -/
  | retried {i epoch : Nat} {u : Transfer} (task : c.tasks[i]? = some (.hashed epoch (.ok false)))
    (talk : (c.transfer.afresh.setPhase .downloading).Talk u) :
    Happens n c (.work i) (settle u (c.tasks.take i ++ [] ++ c.tasks.drop (i + 1)))
  /-- The hash was wrong once too often. -/
  | refused {i epoch : Nat} {u : Transfer} {l : List Task} (task : c.tasks[i]? = some (.hashed epoch (.ok false)))
    (enough : c.transfer.tuning.maxMismatches ≤ c.transfer.mismatches + 1) (phase : u.phase = .broken)
    (mismatches : u.mismatches = c.transfer.mismatches + 1) : Happens n c (.work i) (settle u l)

section Kinds

variable {n : Nat} {c : Course}

theorem happens_chunk (id : String) (offset : Nat) (bytes : ByteArray) :
    Happens n c (.chunk id offset bytes) (c.step (.chunk id offset bytes)) := by
  cases hc : c.transfer.receiveChunk id offset bytes with
  | error _ => rw [step_chunk_error hc]; exact .same
  | ok u =>
    rw [step_chunk_ok hc]
    rcases Transfer.receiveChunk_eq hc with rfl | ⟨-, ⟨why, rfl⟩ | ⟨-, -, -, m, temp, d, hm, -, -, rfl⟩⟩
    · exact .talk (.refl _) (.refl _)
    · exact .ended (Transfer.over_breakDown c.transfer why)
    · have hbooks : Books c (.chunk id offset bytes)
          (Transfer.credited { c.transfer with disk := d } id ⟨offset, bytes.size⟩ m) c.tasks := .chunk hm
      rcases Transfer.creditChunk_cases { c.transfer with disk := d } id ⟨offset, bytes.size⟩ m with
        ⟨hcomplete, heq⟩ | htalk
      · rw [heq]
        rcases Transfer.checkComplete_eq
          (Transfer.credited { c.transfer with disk := d } id ⟨offset, bytes.size⟩ m) with
          ⟨-, hover⟩ | ⟨s, hs, heq'⟩
        · exact .ended ⟨hover.final, hover.mismatches⟩
        · rw [heq']
          exact .assembled hbooks rfl hcomplete hs
      · exact .more hbooks (.inl htalk)

theorem Sound.unmapped_of_delta (h : Sound n c) (hopen : c.transfer.phase.isFinal = false) {task : Task}
    (hm : task ∈ c.tasks) (hd : task.isDelta) : c.transfer.parts = none := by
  by_contra hp
  have := h.mapped hopen (Option.isSome_iff_ne_none.2 hp) task hm
  rw [hd] at this
  exact nomatch this

theorem happens_copied (h : Sound n c) (hopen : c.transfer.phase.isFinal = false) {i epoch : Nat}
    {r : Except Failure PartMap} (hi : c.tasks[i]? = some (.copied epoch r)) :
    Happens n c (.work i) (c.step (.work i)) := by
  have hmem := List.mem_of_getElem? hi
  have hunmapped := h.unmapped_of_delta hopen hmem rfl
  rw [step_work hi]
  show Happens n c _ (settle (c.transfer.acceptCopy epoch r) (c.tasks.take i ++ [] ++ c.tasks.drop (i + 1)))
  unfold Transfer.acceptCopy Transfer.accept
  split
  · cases r with
    | error f => exact .ended (Transfer.over_breakDown c.transfer _)
    | ok m =>
      rw [replaced_alone hi (h.unmapped hopen hunmapped).1]
      dsimp only
      have hbooks : Books c (.work i) (c.transfer.installed m) [] :=
        .copied hunmapped (h.fits _ hmem) ⟨_, hmem, rfl⟩
      rcases Transfer.finishDelta_cases c.transfer m with ⟨hcomplete, heq⟩ | heq
      · rw [heq]
        rcases Transfer.checkComplete_eq (c.transfer.installed m) with ⟨-, hover⟩ | ⟨s, hs, heq'⟩
        · exact .ended ⟨hover.final, hover.mismatches⟩
        · rw [heq']
          exact .assembled hbooks rfl hcomplete hs
      · rw [heq]
        exact .more hbooks (.inr (Transfer.talk_sendRequests _))
  · exact .talk (.refl _) (goes_replaced (r := none) hi nofun)

theorem happens_hashed (hopen : c.transfer.phase.isFinal = false) {i epoch : Nat}
    {r : Except Failure Bool} (hi : c.tasks[i]? = some (.hashed epoch r)) :
    Happens n c (.work i) (c.step (.work i)) := by
  rw [step_work hi]
  show Happens n c _ (settle (c.transfer.acceptVerdict epoch r) (c.tasks.take i ++ [] ++ c.tasks.drop (i + 1)))
  unfold Transfer.acceptVerdict Transfer.accept
  split
  · by_cases hr : r = .ok false
    · subst hr
      dsimp only
      rcases Transfer.finishVerify_wrong hopen with ⟨henough, hphase, hcount⟩ | ⟨-, heq⟩
      · exact .refused hi henough hphase hcount
      · rw [heq]
        exact .retried hi (Transfer.talk_sendRequests _)
    · exact .ended (Transfer.over_finishVerify c.transfer hr)
  · exact .talk (.refl _) (goes_replaced (r := none) hi nofun)

theorem happens_work (h : Sound n c) (hopen : c.transfer.phase.isFinal = false) (i : Nat) :
    Happens n c (.work i) (c.step (.work i)) := by
  cases hi : c.tasks[i]? with
  | none => rw [step_work_none hi]; exact .same
  | some task =>
    have hmem : task ∈ c.tasks := List.mem_of_getElem? hi
    cases task with
    | search epoch s candidate temp =>
      rw [step_work hi, step_search]
      refine .talk (.refl _) (goes_replaced (r := some _) hi ?_)
      rintro _ ⟨⟩
      exact ⟨rfl, rfl, fun _ _ => id⟩
    | searched epoch s candidate temp found =>
      have hunmapped := h.unmapped_of_delta hopen hmem rfl
      rw [step_work hi]
      show Happens n c _ (settle (c.transfer.acceptMatches epoch found) _)
      cases found with
      | error f =>
        unfold Transfer.acceptMatches Transfer.accept
        dsimp only
        split
        · exact .ended (Transfer.over_breakDown c.transfer _)
        · exact .talk (.refl _) (goes_replaced (r := none) hi nofun)
      | ok found =>
        unfold Transfer.acceptMatches Transfer.accept
        have hgoes := goes_replaced hi
          (r := (Task.step c.transfer (.searched epoch s candidate temp (.ok found))).2) (by
          intro next hnext
          dsimp only [Task.step] at hnext
          split at hnext
          · cases hnext
            exact ⟨rfl, rfl, fun _ _ => id⟩
          · exact nomatch hnext)
        dsimp only
        split
        · exact .talk (Transfer.Move.enter (p := .copying) hopen (.inr hunmapped) rfl nofun).single hgoes
        · exact .talk (.refl _) hgoes
    | copy epoch s candidate temp found =>
      obtain ⟨hn, hlen⟩ : temp.node = n ∧ s.fileLength.toNat = c.transfer.target.size := h.fits _ hmem
      obtain ⟨d, r, hd, hclean, -⟩ := step_copy hn hlen h.small h.limited epoch candidate found
      rw [step_work hi, hd]
      refine .copying ⟨_, hmem, rfl⟩ (goes_replaced (r := some _) hi ?_)
      rintro _ ⟨⟩
      refine ⟨rfl, rfl, fun n size _ => ?_⟩
      cases r with
      | error _ => trivial
      | ok m => exact hclean m rfl
    | copied epoch result => exact happens_copied h hopen hi
    | hash epoch d =>
      obtain ⟨r, hr, hok, -⟩ := step_hash h.leads h.limited epoch d
      rw [step_work hi, hr]
      exact .hashed hi hok
    | hashed epoch result => exact happens_hashed hopen hi

/-- Whatever happens while a transfer goes on is one of these. -/
theorem step_happens (h : Sound n c) (hopen : c.transfer.phase.isFinal = false) (ha : c.transfer.aborted = false)
    {e : Event} (hfresh : e.Fresh) : Happens n c e (c.step e) := by
  have hall : Goes c.tasks c.tasks := .refl _
  cases e with
  | join share answers =>
    have hconnect := Transfer.talk_connect c.transfer ⟨share.id, answers, 0⟩
    rcases Transfer.talk_addPeer (c.transfer.connect ⟨share.id, answers, 0⟩).1
      (s := { share with link := c.transfer.links.size }) hfresh with htalk | hover
    · exact .talk (hconnect.trans htalk) hall
    · exact .ended ⟨hover.final, hover.mismatches⟩
  | ready id => exact .talk (Transfer.talk_peerReady c.transfer id) hall
  | leave id => exact .talk (Transfer.talk_removePeer hopen id) hall
  | chunk id offset bytes => exact happens_chunk id offset bytes
  | signature s =>
    rcases Transfer.talk_receiveSignature c.transfer s with htalk | hover
    · exact .talk htalk hall
    · exact .ended hover
  | send => exact .talk (Transfer.talk_sendRequests c.transfer) hall
  | breakByCaller => exact .ended (Transfer.over_breakDown c.transfer _)
  | abort => exact .ended (Transfer.over_abort ha)
  | cleanUp =>
    have hover := Transfer.over_abort ha
    exact .ended ⟨hover.final, hover.mismatches⟩
  | work i => exact happens_work h hopen i
  | crash i message =>
    cases hi : c.tasks[i]? with
    | none => rw [step_crash_none hi]; exact .same
    | some task =>
      rw [step_crash hi]
      have hgone := goes_replaced (r := none) hi nofun
      rw [Option.toList_none, List.append_nil, ← List.eraseIdx_eq_take_drop_succ] at hgone
      unfold Transfer.acceptCrash Transfer.accept
      split
      · exact .ended (Transfer.over_breakDown c.transfer _)
      · exact .talk (.refl _) hgone
  | edit d =>
    rw [step_edit]
    split
    · next hd =>
      simp only [Disk.agree, h.leads.number, Bool.and_eq_true, decide_eq_true_eq] at hd
      obtain ⟨⟨-, hbytes⟩, -⟩ := hd
      exact .edited (by rw [Disk.content, hbytes]; rfl)
    · exact .same

/-- A transfer that goes on: nobody aborted it or took its temp file away. -/
structure Ongoing (n : Nat) (c : Course) : Prop where
  sound : Sound n c
  isOpen : c.transfer.phase.isFinal = false
  unaborted : c.transfer.aborted = false

theorem Ongoing.happens (h : Ongoing n c) {e : Event} (he : e.Fresh) : Happens n c e (c.step e) :=
  step_happens h.sound h.isOpen h.unaborted he

/-- The books once bytes are there differ from those before in what concerns bytes. -/
theorem Books.frame {e : Event} {v : Transfer} {l : List Task} (h : Books c e v l) :
    v.tuning = c.transfer.tuning ∧ v.aborted = c.transfer.aborted ∧ v.mismatches = c.transfer.mismatches := by
  cases h <;> exact ⟨rfl, rfl, rfl⟩

theorem Happens.unaborted {e : Event} {d : Course} (h : Happens n c e d) (hnext : d.transfer.phase.isFinal = false)
    (ha : c.transfer.aborted = false) : d.transfer.aborted = false := by
  cases h with
  | same => exact ha
  | ended hover => exact nomatch hover.final.symm.trans hnext
  | talk htalk _ => exact htalk.frame.2.1.trans ha
  | copying _ _ => exact ha
  | edited _ => exact ha
  | more hbooks htalk =>
    rcases htalk with htalk | htalk
    · exact htalk.frame.2.1.trans (hbooks.frame.2.1.trans ha)
    · exact htalk.frame.2.1.trans ((by simp : _ = _).trans (hbooks.frame.2.1.trans ha))
  | assembled hbooks _ _ _ =>
    exact (by simp [settle, Transfer.takeOutbox, Transfer.queueJob] : _ = _).trans (hbooks.frame.2.1.trans ha)
  | hashed _ _ => exact ha
  | retried _ htalk => exact htalk.frame.2.1.trans ((by simp [Transfer.afresh] : _ = _).trans ha)
  | refused _ _ hphase _ => exact absurd hnext (by rw [show (settle _ _).transfer.phase = _ from hphase]; decide)

/-- A transfer that goes on after an event is still one that nobody aborted. -/
theorem Ongoing.step (h : Ongoing n c) {e : Event} (he : e.Fresh) (hnext : (c.step e).transfer.phase.isFinal = false) :
    Ongoing n (c.step e) := by
  refine ⟨sound_step h.sound ?_, hnext, (h.happens he).unaborted hnext h.unaborted⟩
  rintro rfl
  exact nomatch (Transfer.over_abort h.unaborted).final.symm.trans hnext

end Kinds

theorem ongoing_start {target : Target} {tuning : Tuning} {admission : Admission} {d e : Disk} {t : Transfer}
    (h : Transfer.create target tuning admission d = (.ok t, e)) : ∃ n, Ongoing n (start t) := by
  obtain ⟨n, hsound, -, -⟩ := sound_start h
  have hblank := create_blank h
  refine ⟨n, hsound, ?_, hblank.aborted⟩
  show t.phase.isFinal = false
  rw [hblank.phase]
  rfl

end Course

end FileSwarm
