import FileSwarm.Proofs.Transfer.Requesting

/-!
# Who is attached

Of all that happens to a transfer only two things change who is attached: a peer that is accepted joins, and a peer
leaves. What the rule of admission looks at when a peer joins therefore decides what can be said of all that are
attached, in every order of joins and leaves.

* `roster`, `roll` : the attached peers apart from what they owe, and what they offer; `receiveChunk_roll`,
  `breakDown_roll`, ... : operations that leave the roll as it is;
* `Course.Enrols c e d` : what an event makes of the roll; `enrols_step` : nothing else can happen to it;
* `Willing l` : of two peers or more all work by range requests, and all but the first share;
* `addPeer_refused_iff` : who is turned down, which leaves everything as it was;
* `swarm_willing` : all of it, of every course under the rule `Admission.swarming`;
* `first_unwilling` : the first peer need not share.
-/

namespace FileSwarm

namespace Transfer

/-- The attached peers apart from what they owe. -/
def roster (t : Transfer) : List Share := t.shares.map Share.takePending

/-- Who is attached, and what each offers. -/
def roll (t : Transfer) : List (String × Capabilities) := t.shares.map fun s => (s.id, s.caps)

section Roll

variable {t u : Transfer}

theorem roll_of_shares (h : u.shares = t.shares) : u.roll = t.roll := by rw [roll, h, roll]

theorem roll_of_roster (h : u.roster = t.roster) : u.roll = t.roll := by
  have hroll : ∀ v : Transfer, v.roll = v.roster.map fun s => (s.id, s.caps) := fun v => by
    rw [roster, List.map_map]
    rfl
  rw [hroll, hroll, h]

theorem roll_of_map (f : Share → Share) (hf : ∀ s, (f s).id = s.id ∧ (f s).caps = s.caps)
    (h : u.shares = t.shares.map f) : u.roll = t.roll := by
  rw [roll, h, List.map_map, roll]
  refine List.map_congr_left fun s _ => ?_
  rw [Function.comp_apply, (hf s).1, (hf s).2]

theorem updateShare_roll (t : Transfer) (id : String) {f : Share → Share}
    (hf : ∀ s, (f s).id = s.id ∧ (f s).caps = s.caps) : (t.updateShare id f).roll = t.roll := by
  refine roll_of_map (fun s => if s.id == id then f s else s) (fun s => ?_) rfl
  split
  · exact hf s
  · exact ⟨rfl, rfl⟩

/-! ### Operations that leave the roll as it is -/

@[simp] theorem sendRequests_roster (t : Transfer) : t.sendRequests.roster = t.roster := by
  refine sendRequests_induction (P := fun u => u.roster = t.roster) (fun _ _ _ h => h) ?_ rfl
  rintro u m r i s v ⟨-, -, hs, -, links, sent, rfl⟩ h
  exact (map_set_eq (b := s.owe r) hs rfl).trans h

@[simp] theorem sendRequests_roll (t : Transfer) : t.sendRequests.roll = t.roll :=
  roll_of_roster (sendRequests_roster t)

@[simp] theorem setPhase_roll (t : Transfer) (p : Phase) : (t.setPhase p).roll = t.roll := roll_of_shares (by simp)

@[simp] theorem ensureSignature_roll (t : Transfer) : t.ensureSignature.roll = t.roll :=
  roll_of_shares (ensureSignature_peers t).1

@[simp] theorem fetchAll_roll (t : Transfer) : t.fetchAll.roll = t.roll := roll_of_shares (by simp)

@[simp] theorem complete_roll (t : Transfer) : t.complete.roll = t.roll := by
  unfold complete
  split
  · rfl
  · exact roll_of_shares (by simp [notify])

@[simp] theorem breakDown_roll (t : Transfer) (why : Breakage) : (t.breakDown why).roll = t.roll := by
  unfold breakDown
  split
  · rfl
  · dsimp only
    rw [tellAll_eq]
    exact roll_of_map Share.markBroken (fun _ => ⟨rfl, rfl⟩) (by simp [notify])

@[simp] theorem abort_roll (t : Transfer) : t.abort.roll = t.roll := by
  unfold abort
  split
  · rfl
  · dsimp only
    rw [tellAll_eq]
    dsimp only
    split <;> exact roll_of_shares (by simp)

@[simp] theorem checkComplete_roll (t : Transfer) : t.checkComplete.roll = t.roll := by
  unfold checkComplete
  dsimp only
  split
  · exact roll_of_shares (by simp [queueJob])
  · rw [complete_roll, setPhase_roll]

@[simp] theorem receiveSignature_roll (t : Transfer) (s : Signature) : (t.receiveSignature s).roll = t.roll := by
  unfold receiveSignature
  split
  · rfl
  · split
    · exact breakDown_roll t _
    · split
      · exact breakDown_roll t _
      · dsimp only
        split
        · rfl
        · split
          · rw [sendRequests_roll, fetchAll_roll]
            rfl
          · rfl
          · exact roll_of_shares (by simp [queueJob])

@[simp] theorem finishDelta_roll (t : Transfer) (r : Except Failure PartMap) : (t.finishDelta r).roll = t.roll := by
  cases r with
  | error f => exact breakDown_roll t _
  | ok m =>
    rw [finishDelta]
    split
    · rw [checkComplete_roll]
      rfl
    · rw [sendRequests_roll, setPhase_roll]
      rfl

@[simp] theorem finishVerify_roll (t : Transfer) (r : Except Failure Bool) : (t.finishVerify r).roll = t.roll := by
  match r with
  | .error f => exact breakDown_roll t _
  | .ok true => exact complete_roll _
  | .ok false =>
    rw [finishVerify]
    dsimp only
    split
    · rw [breakDown_roll]
      rfl
    · rw [sendRequests_roll, setPhase_roll]
      exact roll_of_map Share.takePending (fun _ => ⟨rfl, rfl⟩) rfl

theorem accept_roll (t : Transfer) (epoch : Nat) {f : Transfer → Transfer} (hf : (f t).roll = t.roll) :
    (t.accept epoch f).roll = t.roll := by
  unfold accept
  split
  · exact hf
  · rfl

theorem peerReady_roll (t : Transfer) (id : String) : (t.peerReady id).1.roll = t.roll := by
  unfold peerReady
  split
  · rfl
  · split
    · rfl
    · rw [sendRequests_roll, ensureSignature_roll]
      exact updateShare_roll t id fun _ => ⟨rfl, rfl⟩

theorem creditChunk_roll (t : Transfer) (id : String) (r : ByteRange) (m : PartMap) :
    (t.creditChunk id r m).roll = t.roll := by
  unfold creditChunk
  dsimp only
  split
  · rw [checkComplete_roll]
    exact updateShare_roll t id fun _ => ⟨rfl, rfl⟩
  · rw [sendRequests_roll]
    exact updateShare_roll t id fun _ => ⟨rfl, rfl⟩

theorem receiveChunk_roll {id : String} {offset : Nat} {bytes : ByteArray}
    (h : t.receiveChunk id offset bytes = .ok u) : u.roll = t.roll := by
  rcases receiveChunk_eq h with rfl | ⟨-, ⟨why, rfl⟩ | ⟨-, -, -, m, temp, disk, -, -, -, rfl⟩⟩
  · rfl
  · exact breakDown_roll t why
  · exact creditChunk_roll _ id _ m

theorem removePeer_roll (t : Transfer) (id : String) :
    (t.removePeer id).1.roll = t.roll.eraseP (·.1 == id) := by
  have herase : ∀ {u : Transfer}, u.shares = t.shares.eraseP (·.id == id) → u.roll = t.roll.eraseP (·.1 == id) := by
    intro u hu
    rw [roll, hu, roll, List.eraseP_map]
    rfl
  cases h : t.share? id with
  | none =>
    have hid : ∀ s ∈ t.shares, ¬ (s.id == id) = true := List.find?_eq_none.1 h
    rw [removePeer, h]
    exact herase (List.eraseP_of_forall_not hid).symm
  | some s =>
    rw [removePeer, h]
    dsimp only
    split
    · exact herase rfl
    · rw [sendRequests_roll, ensureSignature_roll]
      exact herase rfl

end Roll

end Transfer

namespace Course

open Transfer

variable {c : Course} {e : Event}

theorem work_roll (t : Transfer) (task : Task) : (task.step t).1.roll = t.roll := by
  cases hwork : task.isWork with
  | true =>
    obtain ⟨disk, next, hstep, -⟩ := work_follows t hwork
    rw [hstep]
    rfl
  | false =>
    cases task with
    | searched epoch s candidate temp found =>
      cases found with
      | ok l => exact accept_roll t epoch (setPhase_roll t _)
      | error f => exact accept_roll t epoch (finishDelta_roll t _)
    | copied epoch r => exact accept_roll t epoch (finishDelta_roll t r)
    | hashed epoch r => exact accept_roll t epoch (finishVerify_roll t r)
    | _ => cases hwork

/-- What an event makes of the roll: nothing, or a peer was accepted, or one left. -/
inductive Enrols (c : Course) : Event → List (String × Capabilities) → Prop
  | same {e : Event} : Enrols c e c.transfer.roll
  | join {share : Share} {answers : Nat → Bool} (isOpen : c.transfer.phase.isFinal = false)
    (unknown : c.transfer.isAttached share.id = false)
    (accepted : c.transfer.admission.refusal? c.transfer.shares.length c.transfer.byParts share.caps = none) :
    Enrols c (.join share answers) (c.transfer.roll ++ [(share.id, share.caps)])
  | leave {id : String} : Enrols c (.leave id) (c.transfer.roll.eraseP (·.1 == id))

theorem Enrols.of_eq {l : List (String × Capabilities)} (h : l = c.transfer.roll) : Enrols c e l := h ▸ .same

theorem enrols_join (c : Course) (share : Share) (answers : Nat → Bool) :
    Enrols c (.join share answers) (c.operate (.join share answers)).1.roll := by
  cases hfinal : c.transfer.phase.isFinal with
  | true =>
    refine .of_eq ?_
    rw [operate, addPeer, if_pos (show (c.transfer.connect _).1.phase.isFinal from hfinal)]
    rfl
  | false =>
    by_cases hrefused : c.transfer.isAttached share.id ∨
        ∃ why, c.transfer.admission.refusal? c.transfer.shares.length c.transfer.byParts share.caps = some why
    · refine .of_eq ?_
      rw [operate, addPeer_refused hfinal hrefused]
      rfl
    · rw [not_or, Bool.not_eq_true, not_exists] at hrefused
      have haccept := Option.eq_none_iff_forall_ne_some.2 hrefused.2
      have hseat : (c.transfer.seat share answers).roll = c.transfer.roll ++ [(share.id, share.caps)] :=
        List.map_append
      have henter : (c.transfer.seat share answers).enter.roll = (c.transfer.seat share answers).roll :=
        roll_of_shares (enter_frame _).2.2.1
      rw [operate, addPeer_eq hfinal hrefused.1 haccept]
      have hroll : (if c.transfer.target.size = 0 then (c.transfer.seat share answers).complete
          else (c.transfer.seat share answers).enter.ensureSignature.sendRequests).roll =
            c.transfer.roll ++ [(share.id, share.caps)] := by
        split
        · rw [complete_roll, hseat]
        · rw [sendRequests_roll, ensureSignature_roll, henter, hseat]
      rw [hroll]
      exact .join hfinal hrefused.1 haccept

/-- What an event does to the roll is one of these. -/
theorem enrols_step (h : c.transfer.outbox = .empty) (e : Event) : Enrols c e (c.step e).transfer.roll := by
  rw [step_eq h]
  show Enrols c e (c.operate e).1.roll
  cases e with
  | join share answers => exact enrols_join c share answers
  | leave id =>
    rw [show (c.operate (.leave id)).1.roll = _ from removePeer_roll c.transfer id]
    exact .leave
  | ready id => exact .of_eq (peerReady_roll c.transfer id)
  | chunk id offset bytes =>
    refine .of_eq ?_
    rw [operate]
    cases hc : c.transfer.receiveChunk id offset bytes with
    | ok u => exact receiveChunk_roll hc
    | error f => rfl
  | signature s => exact .of_eq (receiveSignature_roll c.transfer s)
  | send => exact .of_eq (sendRequests_roll c.transfer)
  | breakByCaller => exact .of_eq (breakDown_roll c.transfer _)
  | abort => exact .of_eq (abort_roll c.transfer)
  | cleanUp => exact .of_eq (abort_roll c.transfer)
  | work i =>
    refine .of_eq ?_
    rw [operate]
    cases c.tasks[i]? with
    | none => rfl
    | some task => exact work_roll c.transfer task
  | crash i message =>
    refine .of_eq ?_
    rw [operate]
    cases c.tasks[i]? with
    | none => rfl
    | some task => exact accept_roll c.transfer _ (breakDown_roll c.transfer _)
  | edit disk =>
    refine .of_eq ?_
    rw [operate]
    split <;> rfl

/-! ## Swarms -/

/-- Of two peers or more all work by range requests, and all but the first share. -/
def Willing (l : List (String × Capabilities)) : Prop :=
  2 ≤ l.length → (∀ p ∈ l, p.2.partRequests) ∧ ∀ p ∈ l.tail, p.2.swarming

theorem tail_eraseP_sublist {α : Type} (f : α → Bool) (l : List α) : (l.eraseP f).tail.Sublist l.tail := by
  cases l with
  | nil => exact .slnil
  | cons a l =>
    rw [List.eraseP_cons, cond_eq_ite]
    split
    · exact List.tail_sublist l
    · exact List.eraseP_sublist

theorem Willing.leave {l : List (String × Capabilities)} (h : Willing l) (f : String × Capabilities → Bool) :
    Willing (l.eraseP f) := by
  intro htwo
  obtain ⟨hparts, hshare⟩ := h (Nat.le_trans htwo List.eraseP_sublist.length_le)
  exact ⟨fun p hp => hparts p (List.mem_of_mem_eraseP hp),
    fun p hp => hshare p ((tail_eraseP_sublist f l).subset hp)⟩

theorem Willing.join {t : Transfer} (h : Willing t.roll) {id : String} {caps : Capabilities}
    (haccept : Admission.swarming.refusal? t.shares.length t.byParts caps = none) :
    Willing (t.roll ++ [(id, caps)]) := by
  intro htwo
  cases hshares : t.shares with
  | nil =>
    rw [roll, hshares] at htwo
    exact absurd htwo (by simp)
  | cons s l =>
    obtain ⟨hby, hparts, hshare⟩ := (refusal_swarming.1 haccept).resolve_left (by simp [hshares])
    have hfirst : s.caps.partRequests := by rwa [byParts, hshares] at hby
    have hroll : t.roll = (s.id, s.caps) :: l.map fun q => (q.id, q.caps) := by rw [roll, hshares, List.map_cons]
    -- the flag the rule looks at is the first peer's; what it says of the others is known from when they joined
    have hothers : ∀ p ∈ l.map (fun q => (q.id, q.caps)), p.2.partRequests ∧ p.2.swarming := by
      intro p hp
      rw [hroll] at h
      obtain ⟨hall, htail⟩ := h (Nat.succ_le_succ (List.length_pos_of_mem hp))
      exact ⟨hall p (List.mem_cons_of_mem _ hp), htail p hp⟩
    rw [hroll, List.cons_append, List.tail_cons]
    refine ⟨fun p hp => ?_, fun p hp => ?_⟩
    · rcases List.mem_cons.1 hp with rfl | hp
      · exact hfirst
      · rcases List.mem_append.1 hp with hp | hp
        · exact (hothers p hp).1
        · rwa [List.mem_singleton.1 hp]
    · rcases List.mem_append.1 hp with hp | hp
      · exact (hothers p hp).2
      · rwa [List.mem_singleton.1 hp]

theorem Willing.enrols {l : List (String × Capabilities)} (h : Willing c.transfer.roll)
    (hrule : c.transfer.phase.isFinal = false → c.transfer.admission = .swarming) (he : Enrols c e l) : Willing l := by
  cases he with
  | same => exact h
  | join isOpen _ accepted =>
    rw [hrule isOpen] at accepted
    exact h.join accepted
  | leave => exact h.leave _

theorem Orderly.willing_run (hc : Orderly c) (hrule : c.transfer.admission = .swarming) (h : Willing c.transfer.roll)
    (events : List Event) : Willing (c.run events).transfer.roll := by
  induction events using List.reverseRecOn with
  | nil => exact h
  | append_singleton events e ih =>
    rw [run_snoc]
    exact ih.enrols (fun hopen => (hc.made_run events hopen).admission.trans hrule)
      (enrols_step (hc.run events).emptied e)

theorem addPeer_refused_iff {t : Transfer} {s : Share} {why : Refusal} :
    (t.addPeer s).2 = some (.refused s.id why) ↔ t.phase.isFinal = false ∧ t.isAttached s.id = false ∧
      t.admission.refusal? t.shares.length t.byParts s.caps = some why := by
  unfold addPeer
  cases t.phase.isFinal <;> cases t.isAttached s.id <;>
    cases t.admission.refusal? t.shares.length t.byParts s.caps <;> simp
  split <;> simp

theorem addPeer_of_refused {t : Transfer} {s : Share} {why : Refusal}
    (h : (t.addPeer s).2 = some (.refused s.id why)) : (t.addPeer s).1 = t := by
  obtain ⟨hopen, hnew, hwhy⟩ := addPeer_refused_iff.1 h
  rw [addPeer, if_neg (by simp [hopen]), if_neg (by simp [hnew]), hwhy]

/-- Under the rule of swarms, of two attached peers or more all work by range requests and all but the first to join
share, in every order of joins and leaves. A newcomer is turned down exactly if somebody is attached, and then the first
peer does not work by range requests or the newcomer does not, or the newcomer does not share. It is told nothing, and
nothing changes. -/
theorem swarm_willing {target : Target} {tuning : Tuning} {disk made : Disk} {t : Transfer}
    (h : Transfer.create target tuning .swarming disk = (.ok t, made)) (events : List Event) :
    let c := (start t).run events
    (2 ≤ c.transfer.shares.length → (∀ s ∈ c.transfer.shares, s.caps.partRequests) ∧
      ∀ s ∈ c.transfer.shares.tail, s.caps.swarming) ∧
    ∀ s, (∀ why, (c.transfer.addPeer s).2 = some (.refused s.id why) → (c.transfer.addPeer s).1 = c.transfer) ∧
      (c.transfer.phase.isFinal = false → c.transfer.isAttached s.id = false →
        ((∃ why, (c.transfer.addPeer s).2 = some (.refused s.id why)) ↔
          c.transfer.shares ≠ [] ∧ ¬ (c.transfer.byParts ∧ s.caps.partRequests ∧ s.caps.swarming))) := by
  have huntouched := create_untouched h
  have hstart : Orderly (start t) := orderly_start huntouched
  intro c
  have hroll : Willing c.transfer.roll := by
    refine hstart.willing_run huntouched.admission (fun htwo => ?_) events
    have hnone : (start t).transfer.roll = [] := by
      show t.shares.map _ = []
      rw [huntouched.shares]
      rfl
    rw [hnone] at htwo
    exact absurd htwo (by simp)
  refine ⟨fun htwo => ?_, fun s => ⟨fun why => addPeer_of_refused, fun hopen hnew => ?_⟩⟩
  · obtain ⟨hparts, hshare⟩ := hroll (by rwa [roll, List.length_map])
    refine ⟨fun s hs => hparts _ (List.mem_map_of_mem hs), fun s hs => hshare (s.id, s.caps) ?_⟩
    rw [roll, ← List.map_tail]
    exact List.mem_map_of_mem hs
  · have hrule : c.transfer.admission = .swarming := (hstart.made_run events hopen).admission.trans huntouched.admission
    have hrefused : (∃ why, (c.transfer.addPeer s).2 = some (.refused s.id why)) ↔
        Admission.swarming.refusal? c.transfer.shares.length c.transfer.byParts s.caps ≠ none := by
      rw [Option.ne_none_iff_exists', ← hrule]
      exact exists_congr fun why => addPeer_refused_iff.trans ⟨fun h => h.2.2, fun h => ⟨hopen, hnew, h⟩⟩
    rw [hrefused, Ne, refusal_swarming, not_or, List.length_eq_zero_iff]

/-- Two peers join that do, and one that does not. -/
theorem pair_willing :
    let c := (start (plainTransfer 2 .standard .swarming)).run
      [.join (.fresh "a" .full 0) fun _ => true, .join (.fresh "b" .full 0) fun _ => true]
    let lone := Share.fresh "lone" ⟨true, true, false⟩ 7
    2 ≤ c.transfer.shares.length ∧ (∀ s ∈ c.transfer.shares, s.caps.partRequests) ∧
      (c.transfer.addPeer lone).2 = some (.refused "lone" .notSwarming) ∧ (c.transfer.addPeer lone).1 = c.transfer := by
  intro c lone
  obtain ⟨hswarm, hrefused⟩ := swarm_willing (create_plain 2 .standard .swarming)
    [.join (.fresh "a" .full 0) fun _ => true, .join (.fresh "b" .full 0) fun _ => true]
  have htwo : 2 ≤ c.transfer.shares.length := by decide +kernel
  have hlone : (c.transfer.addPeer lone).2 = some (.refused "lone" .notSwarming) := by decide +kernel
  exact ⟨htwo, (hswarm htwo).1, hlone, (hrefused lone).1 .notSwarming hlone⟩

/-- The first peer need not share: one that does not is joined by another. -/
theorem first_unwilling :
    ¬ ∀ (target : Target) (tuning : Tuning) (disk made : Disk) (t : Transfer),
      Transfer.create target tuning .swarming disk = (.ok t, made) → ∀ events : List Event,
        let c := (start t).run events
        2 ≤ c.transfer.shares.length → ∀ s ∈ c.transfer.shares, s.caps.partRequests ∧ s.caps.swarming := by
  intro h
  have hall := h (plainTarget 2) .standard _ _ _ (create_plain 2 .standard .swarming)
    [.join (.fresh "a" ⟨true, true, false⟩ 0) fun _ => true, .join (.fresh "b" .full 0) fun _ => true]
    (by decide +kernel)
  exact absurd hall (by decide +kernel)

end Course

end FileSwarm
