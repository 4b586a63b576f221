import FileSwarm.Proofs.Transfer.Deliveries
import FileSwarm.Proofs.Transfer.Staged

/-!
# The phases a transfer goes through

Listeners hear of every change of phase, and each begins where the one before it ended. They are steps of one diagram,
but for three: a signature that comes before one was asked for has the local copy searched at once; the second of two
verdicts on one copy completes a transfer that is fetching again; and a peer that joins completes a transfer of no
bytes whose local copy is looked at nevertheless.

* `Phase.leadsTo` : the diagram; `legs`, `Linked` : the changes that were heard of, one after another;
* `Walks R t u` : between `t` and `u` all changes are steps of `R`; one rule for each operation (`walks_setPhase`,
  `walks_complete`, ...);
* `Opens.walks`, `Outcome.walks` : the changes an event comes to;
* `Unasked` : a signature comes too early; `Deserted` : a transfer of no bytes; `Travels`, `travels_run` : what is known
  of a course that goes on;
* `Leads`, `phases_follow_diagram` : all that is heard in a course; `leaves_diagram` : steps that are not in the
  diagram.
-/

namespace FileSwarm

namespace Phase

/-- The diagram of a transfer of so many bytes: which phase may follow which. -/
def leadsTo (size : Nat) : Phase → Phase → Bool
  | initial, requestingSignature | initial, downloading | requestingSignature, downloading
  | requestingSignature, matching | matching, copying | copying, downloading | copying, verifying
  | downloading, verifying | verifying, downloading | verifying, completed => true
  | initial, completed => size == 0
  | p, broken | p, aborted => !p.isFinal
  | _, _ => false

theorem leadsTo_broken (size : Nat) {p : Phase} (h : p.isFinal = false) : p.leadsTo size broken := by
  cases p <;> first | rfl | exact nomatch h

theorem leadsTo_aborted (size : Nat) {p : Phase} (h : p.isFinal = false) : p.leadsTo size aborted := by
  cases p <;> first | rfl | exact nomatch h

end Phase

/-! ## Changes of phase -/

def Notice.leg? : Notice → Option (Phase × Phase)
  | phaseChanged old new => some (old, new)
  | _ => none

/-- The changes of phase among some notices. -/
def legs (l : List Notice) : List (Phase × Phase) := l.filterMap Notice.leg?

/-- Each change begins where the one before it ended, the first one at `p`, and the last one ends at `q`. -/
def Linked : Phase → List (Phase × Phase) → Phase → Prop
  | p, [], q => p = q
  | p, leg :: rest, q => leg.1 = p ∧ Linked leg.2 rest q

theorem Linked.append {p q r : Phase} {k l : List (Phase × Phase)} (h : Linked p k q) (h' : Linked q l r) :
    Linked p (k ++ l) r := by
  induction k generalizing p with
  | nil => exact h ▸ h'
  | cons leg k ih => exact ⟨h.1, ih h.2⟩

theorem legs_append (k l : List Notice) : legs (k ++ l) = legs k ++ legs l := List.filterMap_append

namespace Transfer

variable {R : Phase → Phase → Prop} {t u v : Transfer}

/-- Listeners hear of all changes of phase between `t` and `u`, which are steps of `R`. -/
def Walks (R : Phase → Phase → Prop) (t u : Transfer) : Prop :=
  ∃ more, u.outbox.notices = t.outbox.notices ++ more ∧ Linked t.phase (legs more) u.phase ∧
    ∀ leg ∈ legs more, R leg.1 leg.2

theorem Walks.trans (h : Walks R t u) (k : Walks R u v) : Walks R t v := by
  obtain ⟨l, hl, hlink, hall⟩ := h
  obtain ⟨l', hl', hlink', hall'⟩ := k
  refine ⟨l ++ l', by rw [hl', hl, List.append_assoc], ?_, fun leg hleg => ?_⟩
  · rw [legs_append]
    exact hlink.append hlink'
  · rw [legs_append] at hleg
    exact (List.mem_append.1 hleg).elim (hall leg) (hall' leg)

theorem walks_notices {l : List Notice} (hphase : u.phase = t.phase)
    (hout : u.outbox.notices = t.outbox.notices ++ l) (hmore : legs l = []) : Walks R t u := by
  refine ⟨l, hout, ?_, ?_⟩
  · rw [hmore]
    exact hphase.symm
  · rw [hmore]
    exact nofun

theorem walks_same (hphase : u.phase = t.phase) (hout : u.outbox.notices = t.outbox.notices) : Walks R t u :=
  walks_notices (l := []) hphase (by rw [hout, List.append_nil]) rfl

theorem walks_setPhase {p : Phase} (h : t.phase ≠ p → R t.phase p) : Walks R t (t.setPhase p) := by
  unfold setPhase
  split
  · exact walks_same rfl rfl
  · next hne =>
    refine ⟨[.phaseChanged t.phase p], rfl, ⟨rfl, rfl⟩, fun leg hleg => ?_⟩
    rw [List.mem_singleton.1 hleg]
    exact h hne

theorem walks_sendRequests (t : Transfer) : Walks R t t.sendRequests := walks_same (by simp) (by simp)

theorem walks_fetchAll (h : t.phase ≠ .downloading → R t.phase .downloading) : Walks R t t.fetchAll := by
  have hanew : Walks R t { t with
      parts := some (PartMap.blank t.target.size)
      tally := Tally.start 0 t.target.size } := walks_same rfl rfl
  exact hanew.trans (walks_setPhase h)

theorem walks_ensureSignature (h : t.Wanting → (t.phase ≠ .requestingSignature → R t.phase .requestingSignature) ∧
    (t.phase ≠ .downloading → R t.phase .downloading)) : Walks R t t.ensureSignature := by
  rcases ensureSignature_cases t with e | ⟨hw, owing, e⟩
  · rw [e]
    exact walks_same rfl rfl
  · obtain ⟨hrequest, hfetch⟩ := h hw
    rw [e]
    rcases askSignature_cases { t with owing } with ⟨s, -, -, -, -, e⟩ | e | ⟨-, e⟩
    · rw [e]
      have hasked : Walks R t { t with
          sent := t.sent.push (s.link, .signature)
          metrics := t.metrics.askSignature
          owing := some s.id } := walks_same rfl rfl
      exact hasked.trans (walks_setPhase hrequest)
    · rw [e]
      exact walks_same rfl rfl
    · rw [e]
      have howing : Walks R t { t with owing } := walks_same rfl rfl
      exact howing.trans (walks_fetchAll hfetch)

theorem walks_complete (hopen : t.phase.isFinal = false) (h : R t.phase .completed) : Walks R t t.complete := by
  unfold complete
  rw [if_neg (by simp [hopen])]
  refine Walks.trans (u := t.setPhase .completed) (walks_setPhase fun _ => h) ?_
  exact walks_notices (l := [.completed]) (by simp [notify]) (by simp [notify]) rfl

theorem walks_breakDown (hopen : t.phase.isFinal = false) (h : R t.phase .broken) (why : Breakage) :
    Walks R t (t.breakDown why) := by
  unfold breakDown
  rw [if_neg (by simp [hopen])]
  dsimp only
  rw [tellAll_eq]
  refine Walks.trans (u := t.setPhase .broken) (walks_setPhase fun _ => h) ?_
  exact walks_notices (l := [.broken why]) (by simp [notify]) (by simp [notify]) rfl

theorem walks_abort (hopen : t.phase.isFinal = false) (h : R t.phase .aborted) : Walks R t t.abort := by
  unfold abort
  split
  · exact walks_same rfl rfl
  · dsimp only
    rw [tellAll_eq]
    dsimp only
    rw [if_neg (by simp [hopen])]
    have htold : Walks R t { t with
        aborted := true
        sent := t.sent ++ (t.shares.map fun s => (s.link, Call.abort)).toArray } := walks_same rfl rfl
    refine (htold.trans (walks_setPhase fun _ => h)).trans ?_
    exact walks_same (by simp) (by simp)

end Transfer

namespace Course

variable {n : Nat} {c : Course} {e : Event} {R : Phase → Phase → Prop}

section Walks

variable {u v : Transfer} {l : List Task} {m : PartMap}

theorem walks_ensure {t : Transfer} {size : Nat} (h : t.Staged l) (hR : ∀ {p q : Phase}, p.leadsTo size q → R p q) :
    Transfer.Walks R t t.ensureSignature := by
  refine Transfer.walks_ensureSignature fun ⟨_, hparts, hsignature, _⟩ => ?_
  rcases h.waiting hparts hsignature with hp | hp <;> rw [hp]
  · exact ⟨fun _ => hR rfl, fun _ => hR rfl⟩
  · exact ⟨fun hne => absurd rfl hne, fun _ => hR rfl⟩

theorem Fills.outbox (hf : Fills c e v m l) : v.outbox = c.transfer.outbox := by
  cases hf <;> rfl

/-- Bytes are put into the temp file, and the transfer fetches or verifies what is there. -/
theorem Fills.walks {size : Nat} (hf : Fills c e v m l) (h : Keeps n c) (hR : ∀ {p q : Phase}, p.leadsTo size q → R p q)
    {p : Phase} (hp : p = .downloading ∨ p = .verifying) : Transfer.Walks R c.transfer (v.setPhase p) := by
  have hphase := (hf.tacit h.isOpen).2.1
  have hsame : Transfer.Walks R c.transfer v := Transfer.walks_same hphase (by rw [hf.outbox])
  have hleads : c.transfer.phase ≠ p → c.transfer.phase.leadsTo size p := by
    rcases (hf.phase h).1 with hw | hw | ⟨hw, -⟩ <;> rcases hp with rfl | rfl <;> rw [hw] <;> simp [Phase.leadsTo]
  refine hsame.trans (Transfer.walks_setPhase fun hne => ?_)
  rw [hphase] at hne ⊢
  exact hR (hleads hne)

theorem Opens.walks {size : Nat} (ho : Opens c e u l) (h : Keeps n c) (hR : ∀ {p q : Phase}, p.leadsTo size q → R p q) :
    Transfer.Walks R c.transfer u := by
  cases ho with
  | @join share answers =>
    have hseat : Transfer.Walks R c.transfer (c.transfer.seat share answers) := Transfer.walks_same rfl rfl
    have henter : Transfer.Walks R (c.transfer.seat share answers) (c.transfer.seat share answers).enter := by
      unfold Transfer.enter
      split
      · next hearly =>
        rw [Bool.and_eq_true, decide_eq_true_eq] at hearly
        refine Transfer.walks_setPhase fun _ => ?_
        rw [hearly.1]
        exact hR rfl
      · exact Transfer.walks_same rfl rfl
    exact (hseat.trans henter).trans (walks_ensure (h.seat share answers).enter.1 hR)
  | @ready id =>
    have hready : Transfer.Walks R c.transfer (c.transfer.updateShare id Share.start) := Transfer.walks_same rfl rfl
    exact hready.trans (walks_ensure (h.start id) hR)
  | @leave id s =>
    have hleave : Transfer.Walks R c.transfer (c.transfer.detach s) := Transfer.walks_same rfl rfl
    exact hleave.trans (walks_ensure (h.detach s) hR)
  | chunk fills => exact Transfer.walks_same (fills.tacit h.isOpen).2.1 (by rw [fills.outbox])
  | @fetch s _ unsigned unmapped =>
    have hlearned : Transfer.Walks R c.transfer { c.transfer with signature := some s, owing := none } :=
      Transfer.walks_same rfl rfl
    refine hlearned.trans (Transfer.walks_fetchAll fun _ => ?_)
    show R c.transfer.phase .downloading
    rcases h.staged.waiting unmapped unsigned with hp | hp <;> (rw [hp]; exact hR rfl)
  | send => exact Transfer.walks_same rfl rfl
  | copied fills => exact fills.walks h hR (.inl rfl)
  | failed here =>
    have hafresh : Transfer.Walks R c.transfer c.transfer.afresh := Transfer.walks_same rfl rfl
    refine hafresh.trans (Transfer.walks_setPhase fun hne => ?_)
    show R c.transfer.phase .downloading
    rcases h.staged.suits _ (List.mem_of_getElem? here) with hp | hp
    · rw [hp]
      exact hR rfl
    · exact absurd hp hne

/-- The three that are not in the diagram are told apart. -/
theorem Outcome.walks (ho : Outcome c e u l) (size : Nat) (h : Keeps n c)
    (hR : ∀ {p q : Phase}, p.leadsTo size q → R p q)
    (hunasked : c.transfer.phase = .initial → c.transfer.parts = none → (∃ s, e = .signature s) → R .initial .matching)
    (hstale : c.transfer.phase = .downloading → (∃ epoch, Task.hashed epoch (.ok true) ∈ c.tasks) →
      R .downloading .completed)
    (hempty : c.transfer.target.size = 0 → R c.transfer.phase .completed) : Transfer.Walks R c.transfer u := by
  cases ho with
  | same => exact Transfer.walks_same rfl rfl
  | connected => exact Transfer.walks_same rfl rfl
  | round opens => exact (opens.walks h hR).trans (Transfer.walks_sendRequests _)
  | assembled fills => exact (fills.walks h hR (.inr rfl)).trans (Transfer.walks_same rfl rfl)
  | closed _ _ finish =>
    cases finish with
    | @empty share answers size =>
      have hseat : Transfer.Walks R c.transfer (c.transfer.seat share answers) := Transfer.walks_same rfl rfl
      exact hseat.trans (Transfer.walks_complete h.isOpen (hempty size))
    | unsigned fills =>
      exact (fills.walks h hR (.inr rfl)).trans (Transfer.walks_complete (by simp; rfl) (by simpa using hR rfl))
    | right here =>
      have hmem := List.mem_of_getElem? here
      have hreset : Transfer.Walks R c.transfer { c.transfer with mismatches := 0 } := Transfer.walks_same rfl rfl
      refine hreset.trans (Transfer.walks_complete h.isOpen ?_)
      show R c.transfer.phase .completed
      rcases h.staged.suits _ hmem with hp | hp
      · rw [hp]
        exact hR rfl
      · rw [hp]
        exact hstale hp ⟨_, hmem⟩
    | broken why phase outbox =>
      have hbefore : Transfer.Walks R c.transfer _ := Transfer.walks_same phase (by rw [outbox])
      refine hbefore.trans (Transfer.walks_breakDown (phase ▸ h.isOpen) ?_ why)
      rw [phase]
      exact hR (Phase.leadsTo_broken size h.isOpen)
    | aborted disk =>
      exact (Transfer.walks_abort h.isOpen (hR (Phase.leadsTo_aborted size h.isOpen))).trans
        (Transfer.walks_same rfl rfl)
  | learned => exact Transfer.walks_same rfl rfl
  | @searching s candidate temp _ unsigned unmapped =>
    have hlearned : Transfer.Walks R c.transfer { c.transfer with signature := some s, owing := none } :=
      Transfer.walks_same rfl rfl
    refine (hlearned.trans (Transfer.walks_setPhase fun _ => ?_)).trans (Transfer.walks_same rfl rfl)
    show R c.transfer.phase .matching
    rcases h.staged.waiting unmapped unsigned with hp | hp
    · rw [hp]
      exact hunasked hp unmapped ⟨s, rfl⟩
    · rw [hp]
      exact hR rfl
  | worked => exact Transfer.walks_same rfl rfl
  | matched here =>
    have hmatching : c.transfer.phase = .matching := h.staged.suits _ (List.mem_of_getElem? here)
    refine Transfer.walks_setPhase fun _ => ?_
    rw [hmatching]
    exact hR rfl
  | dropped => exact Transfer.walks_same rfl rfl
  | edited => exact Transfer.walks_same rfl rfl

end Walks

/-! ## What is known of a course -/

/-- A signature came while it was not known what is needed, and nobody had been asked for one. -/
def Unasked (c : Course) (events : List Event) : Prop :=
  ∃ before s, before ++ [.signature s] <+: events ∧ (c.run before).transfer.parts = none ∧
    ∀ k, (k, Call.signature) ∉ (c.run before).transfer.sent

theorem Unasked.snoc {events : List Event} (h : c.Unasked events) (e : Event) : c.Unasked (events ++ [e]) :=
  let ⟨before, s, hp, hbefore⟩ := h
  ⟨before, s, hp.trans (List.prefix_append _ _), hbefore⟩

theorem Undisturbed.of_snoc {events : List Event} (h : c.Undisturbed (events ++ [e])) : c.Undisturbed events :=
  fun before x hp => h before x (hp.trans (List.prefix_append _ _))

/-- A transfer of no bytes has nobody attached as long as it goes on, and stays in the first phase unless a signature
comes that nobody was asked for. -/
structure Deserted (c : Course) (events : List Event) : Prop where
  nobody : (c.run events).transfer.shares = []
  unasked : (c.run events).transfer.phase = .initial ∨ c.Unasked events

theorem Fills.nobody {u : Transfer} {m : PartMap} {l : List Task} (hf : Fills c e u m l) (h : c.transfer.shares = []) :
    u.shares = [] := by
  cases hf with
  | chunk attached => exact absurd h (not_nil_of_attached attached)
  | copied => exact h

theorem Outcome.nobody {u : Transfer} {l : List Task} (ho : Outcome c e u l) (hnext : u.phase.isFinal = false)
    (hzero : c.transfer.target.size = 0) (h : c.transfer.shares = []) : u.shares = [] := by
  cases ho with
  | round opens =>
    apply (Transfer.idle_sendRequests _).2
    cases opens with
    | join pos => exact absurd hzero pos
    | ready attached => exact absurd h (not_nil_of_attached attached)
    | leave share => simp [Transfer.share?, h] at share
    | chunk fills => exact fills.nobody h
    | fetch => simpa using h
    | send => exact h
    | copied fills => simpa using fills.nobody h
    | failed => simp [Transfer.afresh, h]
  | assembled fills => simpa [Transfer.queueJob] using fills.nobody h
  | closed closes => exact absurd hnext closes.not_open
  | searching => simpa [Transfer.queueJob] using h
  | matched => simpa using h
  | _ => exact h

/-- The first phase is left when a peer joins or a signature comes. -/
theorem Outcome.initial {u : Transfer} {l : List Task} (ho : Outcome c e u l) (h : Keeps n c)
    (hnext : u.phase.isFinal = false) (hzero : c.transfer.target.size = 0) (hnobody : c.transfer.shares = [])
    (hp : c.transfer.phase = .initial) : u.phase = .initial ∨ (∃ s, e = .signature s) ∧ c.transfer.parts = none := by
  have hidle : ∀ {i : Nat} {task : Task}, c.tasks[i]? ≠ some task := by
    rw [h.staged.idle (.inl hp)]
    exact nofun
  have hfills : ∀ {v : Transfer} {m : PartMap} {k : List Task}, ¬ Fills c e v m k := fun hf => by
    cases hf with
    | chunk attached => exact not_nil_of_attached attached hnobody
    | copied here => exact hidle here
  cases ho with
  | round opens =>
    cases opens with
    | join pos => exact absurd hzero pos
    | ready attached => exact absurd hnobody (not_nil_of_attached attached)
    | leave share => simp [Transfer.share?, hnobody] at share
    | chunk fills => exact absurd fills hfills
    | fetch _ _ unmapped => exact .inr ⟨⟨_, rfl⟩, unmapped⟩
    | send => exact .inl (by simpa using hp)
    | copied fills => exact absurd fills hfills
    | failed here => exact absurd here hidle
  | assembled fills => exact absurd fills hfills
  | closed closes => exact absurd hnext closes.not_open
  | searching _ _ unmapped => exact .inr ⟨⟨_, rfl⟩, unmapped⟩
  | matched here => exact absurd here hidle
  | _ => exact .inl hp

theorem Deserted.step {events : List Event} {u : Transfer} {l : List Task} (hd : c.Deserted events)
    (h : Keeps n (c.run events)) (ho : Outcome (c.run events) e u l) (hnext : u.phase.isFinal = false)
    (hzero : (c.run events).transfer.target.size = 0) (hsettle : (c.run events).step e = settle u l) :
    c.Deserted (events ++ [e]) := by
  refine ⟨?_, ?_⟩
  · rw [run_snoc, hsettle]
    exact ho.nobody hnext hzero hd.nobody
  · rw [run_snoc, hsettle]
    rcases hd.unasked with hp | hunasked
    · rcases ho.initial h hnext hzero hd.nobody hp with hp' | ⟨⟨s, rfl⟩, hparts⟩
      · exact .inl hp'
      · exact .inr ⟨events, s, List.prefix_refl _, hparts, h.staged.unasked hp⟩
    · exact .inr (hunasked.snoc e)

/-- What is known of a course that goes on. -/
structure Travels (n size : Nat) (c : Course) (events : List Event) : Prop where
  keeps : Keeps n (c.run events)
  sized : (c.run events).transfer.target.size = size
  tidy : c.Undisturbed events → Tidy (c.run events)
  deserted : size = 0 → c.Deserted events

theorem travels_start {target : Target} {tuning : Tuning} {admission : Admission} {disk made : Disk} {t : Transfer}
    (h : Transfer.create target tuning admission disk = (.ok t, made)) (hs : Sound n (start t)) :
    Travels n target.size (start t) [] := by
  have huntouched := Transfer.create_untouched h
  have htasks : (start t).tasks = [] := start_tasks huntouched
  have hphase : (start t).transfer.phase = .initial := huntouched.phase
  have hsent : (start t).transfer.sent = #[] := huntouched.sent
  refine ⟨⟨?_, hs, ?_, fun _ _ => huntouched.shares⟩, congrArg Target.size huntouched.target, fun _ => ?_,
    fun _ => ⟨huntouched.shares, .inl hphase⟩⟩
  · rw [run_nil, hphase]
    rfl
  · rw [run_nil, htasks]
    refine ⟨nofun, fun _ => .inl hphase, fun _ => .inl hphase, fun hdelta => ?_, fun _ k => ?_⟩
    · rcases hdelta with hdelta | hdelta <;> cases hphase.symm.trans hdelta
    · rw [hsent]
      exact Array.not_mem_empty _
  · rw [Tidy, run_nil, htasks]
    exact nofun

/-- All that is known of a course is known as long as it goes on. -/
theorem travels_run {target : Target} {tuning : Tuning} {admission : Admission} {disk made : Disk} {t : Transfer}
    (h : Transfer.create target tuning admission disk = (.ok t, made)) (hs : Sound n (start t)) {events : List Event}
    (hopen : ((start t).run events).transfer.phase.isFinal = false) : Travels n target.size (start t) events := by
  have hstart := orderly_start (Transfer.create_untouched h)
  refine hstart.open_history (P := Travels n target.size (start t)) (fun _ => travels_start h hs) ?_ hopen
  intro before e hdone hnow hbefore ⟨hkeeps, hsized, htidy, hdeserted⟩ u l ho hnext hsettle
  have he : e ≠ .cleanUp := fun he => hstart.uncleaned hopen (hdone.subset (by simp [he]))
  have hnow' : ((start t).run (before ++ [e])) = settle u l := by rw [run_snoc, hsettle]
  have hsound : Sound n (settle u l) := hsettle ▸ sound_step hkeeps.sound he
  obtain ⟨hstaged, halone⟩ := ho.staged hkeeps hnext
  refine ⟨?_, ?_, fun hquiet => ?_, fun hzero => ?_⟩
  · rw [hnow']
    exact ⟨hnext, hsound, hstaged, halone⟩
  · rw [hnow', (ho.made hbefore hnext).target]
    exact hsized
  · rw [hnow']
    exact ho.tidy hkeeps hnext (htidy hquiet.of_snoc) (hquiet before e (List.prefix_refl _))
  · exact (hdeserted hzero).step hkeeps ho hnext (hsized.trans hzero) hsettle

/-! ## All that is heard -/

theorem notices_append (c : Course) (k l : List Event) : c.notices (k ++ l) = c.notices k ++ (c.run k).notices l := by
  induction k generalizing c with
  | nil => rfl
  | cons e k ih => rw [List.cons_append, notices, notices, ih, List.append_assoc]; rfl

theorem notices_snoc (c : Course) (events : List Event) (e : Event) :
    c.notices (events ++ [e]) = c.notices events ++ ((c.run events).delivered e).notices := by
  rw [notices_append, notices, notices, List.append_nil]

/-- The changes of phase that a course of events can bring: those of the diagram, and three more. -/
def Leads (size : Nat) (c : Course) (events : List Event) (p q : Phase) : Prop :=
  p.leadsTo size q ∨
    (p = .initial ∧ q = .matching ∧ c.Unasked events) ∨
    (p = .downloading ∧ q = .completed ∧ ¬ c.Undisturbed events) ∨
    size = 0 ∧ p.isFinal = false ∧ q = .completed ∧ c.Unasked events

theorem Leads.snoc {size : Nat} {events : List Event} {p q : Phase} (h : Leads size c events p q) (e : Event) :
    Leads size c (events ++ [e]) p q := by
  rcases h with h | ⟨hp, hq, h⟩ | ⟨hp, hq, h⟩ | ⟨hsize, hp, hq, h⟩
  · exact .inl h
  · exact .inr (.inl ⟨hp, hq, h.snoc e⟩)
  · exact .inr (.inr (.inl ⟨hp, hq, fun hquiet => h hquiet.of_snoc⟩))
  · exact .inr (.inr (.inr ⟨hsize, hp, hq, h.snoc e⟩))

theorem Travels.walks {size : Nat} {events : List Event} (h : Travels n size c events) {u : Transfer} {l : List Task}
    (ho : Outcome (c.run events) e u l) :
    Transfer.Walks (Leads size c (events ++ [e])) (c.run events).transfer u := by
  refine ho.walks size h.keeps .inl (fun hp hparts ⟨s, he⟩ => ?_) (fun hp ⟨epoch, hm⟩ => ?_) fun hzero => ?_
  · exact .inr (.inl ⟨rfl, rfl, events, s, by rw [he], hparts, h.keeps.staged.unasked hp⟩)
  · refine .inr (.inr (.inl ⟨rfl, rfl, fun hquiet => ?_⟩))
    exact nomatch hp.symm.trans (h.tidy hquiet.of_snoc _ hm rfl).1
  · have hsize : size = 0 := h.sized.symm.trans hzero
    rcases (h.deserted hsize).unasked with hp | hunasked
    · rw [hp]
      exact .inl (by simp [Phase.leadsTo, hsize])
    · exact .inr (.inr (.inr ⟨hsize, h.keeps.isOpen, rfl, hunasked.snoc e⟩))

/-- Whatever happens, listeners hear of changes of phase that begin in the first one, each where the one before it
ended, up to the phase the transfer is in. They are steps of the diagram, but for three: a signature that nobody was
asked for has the local copy searched from the first phase; a verdict completes a transfer that is fetching again, if
bytes came while the file was hashed; and a peer that joins completes a transfer of no bytes wherever it is, if a
signature came that nobody was asked for. -/
theorem phases_follow_diagram {target : Target} {tuning : Tuning} {admission : Admission} {disk made : Disk}
    {t : Transfer} (h : Transfer.create target tuning admission disk = (.ok t, made)) (events : List Event) :
    Linked .initial (legs ((start t).notices events)) ((start t).run events).transfer.phase ∧
      ∀ leg ∈ legs ((start t).notices events), Leads target.size (start t) events leg.1 leg.2 := by
  have hstart := orderly_start (Transfer.create_untouched h)
  obtain ⟨n, hsound, -, -⟩ := sound_start h
  induction events using List.reverseRecOn with
  | nil => exact ⟨(Transfer.create_untouched h).phase.symm, nofun⟩
  | append_singleton events e ih =>
    obtain ⟨hlinked, hlegs⟩ := ih
    have hnow := hstart.run events
    rw [notices_snoc, legs_append, run_snoc]
    cases hf : ((start t).run events).transfer.phase.isFinal with
    | true =>
      rw [hnow.delivered_final hf e, (hnow.rests_step hf e).phase]
      refine ⟨hlinked.append rfl, fun leg hleg => ?_⟩
      exact (hlegs leg (by simpa [legs, Outbox.empty] using hleg)).snoc e
    | false =>
      have ho := outcome_operate hf (hnow.released.trans hf) (hnow.aborted hf) e
      obtain ⟨more, hmore, hnext, hall⟩ := (travels_run h hsound hf).walks ho
      rw [hnow.emptied] at hmore
      rw [delivered, show _ = more from hmore, step_eq hnow.emptied]
      refine ⟨hlinked.append hnext, fun leg hleg => ?_⟩
      rcases List.mem_append.1 hleg with hleg | hleg
      · exact (hlegs leg hleg).snoc e
      · exact hall leg hleg

/-- A peer sends the signature of a file, and the file. -/
theorem one_follows_diagram :
    legs ((start (plainTransfer 1 .standard .swarming)).notices (oneEvents.take 3)) =
        [(.initial, .downloading), (.downloading, .verifying)] ∧
      Leads 1 (start (plainTransfer 1 .standard .swarming)) (oneEvents.take 3) .downloading .verifying := by
  have hlegs : legs ((start (plainTransfer 1 .standard .swarming)).notices (oneEvents.take 3)) =
      [(.initial, .downloading), (.downloading, .verifying)] := rfl
  refine ⟨hlegs, (phases_follow_diagram (create_plain 1 .standard .swarming) (oneEvents.take 3)).2
    (.downloading, .verifying) ?_⟩
  rw [hlegs]
  simp

/-! ## Steps that are not in the diagram -/

/-- The plain reading of it: all changes are steps of the diagram. -/
def FollowsDiagram (target : Target) (tuning : Tuning) (admission : Admission) (disk : Disk) : Prop :=
  ∀ t made events, Transfer.create target tuning admission disk = (.ok t, made) →
    ∀ leg ∈ legs ((start t).notices events), leg.1.leadsTo target.size leg.2

/-- While a wrong byte is hashed the right one comes; the wrong hash is handed in, and the other job hashes the file. -/
def staleEvents : List Event := wrongEvents ++ [.work 0, .chunk "a" 0 ⟨#[1]⟩, .work 0, .work 0]

def refetching : Course :=
  (settle ((tries 2).run wrongEvents).transfer [.hashed 0 (.ok false)]).run [.chunk "a" 0 ⟨#[1]⟩, .work 0]

theorem run_staleEvents : (tries 2).run staleEvents = settle refetching.transfer [.hashed 0 (.ok true)] := by
  have hwrong : (tries 2).run (wrongEvents ++ [.work 0]) =
      settle ((tries 2).run wrongEvents).transfer [.hashed 0 (.ok false)] := by
    rw [run_snoc]
    exact step_hash_wrong (sound_run (sound_tries 2) (by simp [wrongEvents])) rfl rfl rfl
  have hrefetching : (tries 2).run (wrongEvents ++ [.work 0] ++ [.chunk "a" 0 ⟨#[1]⟩, .work 0]) = refetching := by
    rw [run_append, hwrong, refetching]
  have hsound : Sound 1 refetching := hrefetching ▸ sound_run (sound_tries 2) (by simp [wrongEvents])
  have hright : (Sha256.digest (refetching.content 1) == oneSignature.digest) = true := beq_self_eq_true _
  rw [show staleEvents = wrongEvents ++ [.work 0] ++ [.chunk "a" 0 ⟨#[1]⟩, .work 0] ++ [.work 0] by simp [staleEvents],
    run_snoc, hrefetching, step_hash_verdict hsound (i := 0) (d := oneSignature.digest) rfl rfl, hright]
  rfl

/-- A signature that nobody was asked for has the local copy searched, and a verdict that waited completes a transfer
that is fetching again. -/
theorem leaves_diagram : ¬ FollowsDiagram copyTarget copyTuning .swarming copyDisk ∧
    ¬ FollowsDiagram (plainTarget 1) { Tuning.standard with maxMismatches := 2 } .swarming (Disk.empty []) := by
  constructor
  · intro h
    have hlegs : legs ((start copyTransfer).notices [.signature oneSignature]) = [(.initial, .matching)] := rfl
    exact absurd (h _ _ [.signature oneSignature] create_copy (.initial, .matching) (by rw [hlegs]; simp)) (by decide)
  · intro h
    have hheard : legs ((settle refetching.transfer [.hashed 0 (.ok true)]).notices [.work 0]) =
        [(.downloading, .completed)] := rfl
    have hlegs : (.downloading, .completed) ∈ legs ((tries 2).notices (staleEvents ++ [.work 0])) := by
      rw [notices_append, legs_append, run_staleEvents, hheard]
      simp
    exact absurd (h _ _ (staleEvents ++ [.work 0]) (create_plain 1 _ _) _ hlegs) (by decide)

end Course

end FileSwarm
