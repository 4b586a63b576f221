import FileSwarm.Proofs.Transfer.Endings
import FileSwarm.Proofs.Transfer.Scheduling

/-!
# Whom a transfer asks for what, all along a course

Every range a peer is asked for was needed at that moment, and after every event either nothing is needed or nobody can
be asked.

* `Measured t` : the part map is one of the file; `Sized c` : and so is what jobs make; `sized_run`;
* `Course.Passes c e v` : a moment of the round of calls that an event came to; `range_of_call` : every range a peer was
  asked for has such a moment;
* `Busy c` : peers take everything, and nothing is left undone; `busy_run`;
* `scheduling_sound` : all of it, and that asking for what is needed comes to an end in every state.
-/

namespace FileSwarm

namespace Transfer

variable {t u : Transfer}

/-- The part map is one of the file. -/
def Measured (t : Transfer) : Prop := ∀ m, t.parts = some m → m.length = t.target.size

theorem Measured.quiet (h : t.Measured) (hq : Quiet t u) : u.Measured := by
  intro k hk
  rw [hq.target]
  rcases hq.parts k hk with ⟨m, hm, hsheds⟩ | ⟨-, -, -, hsheds⟩
  · exact hsheds.length.trans (h m hm)
  · exact hsheds.length

theorem ensureSignature_peers (t : Transfer) :
    t.ensureSignature.shares = t.shares ∧ t.ensureSignature.links = t.links := by
  rcases ensureSignature_cases t with e | ⟨-, owing, e⟩
  · rw [e]
    exact ⟨rfl, rfl⟩
  · rw [e]
    rcases askSignature_cases { t with owing } with ⟨s, -, -, -, -, e⟩ | e | ⟨-, e⟩ <;> rw [e] <;> simp

theorem enter_frame (t : Transfer) : t.enter.target = t.target ∧ t.enter.parts = t.parts ∧
    t.enter.shares = t.shares ∧ t.enter.links = t.links := by
  unfold enter
  split <;> simp

theorem refusal_swarming {attached : Nat} {byParts : Bool} {caps : Capabilities} :
    Admission.swarming.refusal? attached byParts caps = none ↔
      attached = 0 ∨ byParts ∧ caps.partRequests ∧ caps.swarming := by
  rw [Admission.refusal?]
  by_cases hnone : attached = 0
  · simp [hnone]
  · cases byParts <;> cases hp : caps.partRequests <;> cases hs : caps.swarming <;> simp [hnone]

/-- Whom a shipped rule lets in: the first peer, or one that works by range requests as the others do. -/
theorem uniform_of_accepted {rule : Admission} (hrule : rule = .single ∨ rule = .swarming) {s : Share}
    (haccept : rule.refusal? t.shares.length t.byParts s.caps = none) :
    t.shares = [] ∨ t.byParts ∧ s.caps.partRequests := by
  rcases hrule with rfl | rfl
  · refine .inl (List.length_eq_zero_iff.1 ?_)
    by_contra hsome
    rw [Admission.refusal?, if_neg hsome] at haccept
    cases haccept
  · rcases refusal_swarming.1 haccept with hnone | ⟨hby, hparts, -⟩
    · exact .inl (List.length_eq_zero_iff.1 hnone)
    · exact .inr ⟨hby, hparts⟩

theorem Tended.same (h : t.Tended) (hlinks : u.links = t.links) (hshares : u.shares = t.shares) : u.Tended :=
  h.of hlinks fun s hs => ⟨s, hshares ▸ hs, rfl, rfl⟩

theorem Tended.map (h : t.Tended) {f : Share → Share} (hf : ∀ s, (f s).link = s.link ∧ (f s).caps = s.caps)
    (hlinks : u.links = t.links) (hshares : u.shares = t.shares.map f) : u.Tended := by
  refine h.of hlinks fun s hs => ?_
  rw [hshares] at hs
  obtain ⟨q, hq, rfl⟩ := List.mem_map.1 hs
  exact ⟨q, hq, (hf q).1, (hf q).2⟩

theorem Tended.connect (h : t.Tended) {l : Link} (hl : ∀ k, l.answers k) : (t.connect l).1.Tended := by
  refine ⟨h.accepting.push hl rfl, fun s hs => ?_, h.uniform⟩
  show s.link < (t.links.push l).size
  rw [Array.size_push]
  exact Nat.lt_succ_of_lt (h.linked s hs)

theorem Tended.seat (h : t.Tended) {s : Share} {answers : Nat → Bool} (hanswers : ∀ k, answers k)
    (hkind : t.shares = [] ∨ t.byParts ∧ s.caps.partRequests) : (t.seat s answers).Tended := by
  have hsize : (t.seat s answers).links.size = t.links.size + 1 := Array.size_push _
  have hmem : ∀ q ∈ (t.seat s answers).shares, q ∈ t.shares ∨ q.link = t.links.size ∧ q.caps = s.caps := by
    intro q hq
    rcases List.mem_append.1 hq with hq | hq
    · exact .inl hq
    · rw [List.mem_singleton.1 hq]
      exact .inr ⟨rfl, rfl⟩
  refine ⟨h.accepting.push (l := ⟨s.id, answers, 0⟩) hanswers rfl, fun q hq => ?_, fun q hq p hp => ?_⟩
  · rw [hsize]
    rcases hmem q hq with hq | ⟨hq, -⟩
    · exact Nat.lt_succ_of_lt (h.linked q hq)
    · rw [hq]
      exact Nat.lt_succ_self _
  · have hall : ∀ q ∈ t.shares, q.caps.partRequests = s.caps.partRequests := by
      intro q hq
      rcases hkind with hnil | ⟨hby, hparts⟩
      · rw [hnil] at hq
        exact absurd hq List.not_mem_nil
      · cases hl : t.shares with
        | nil =>
          rw [hl] at hq
          exact absurd hq List.not_mem_nil
        | cons x l =>
          rw [byParts, hl] at hby
          have hx : x.caps.partRequests = true := hby
          rw [h.uniform q hq x (by rw [hl]; exact List.mem_cons_self), hx, hparts]
    rcases hmem q hq with hq | ⟨-, hq⟩ <;> rcases hmem p hp with hp | ⟨-, hp⟩
    · exact h.uniform q hq p hp
    · rw [hp, hall q hq]
    · rw [hq, hall p hp]
    · rw [hq, hp]

end Transfer

/-- A peer that joins takes every request. -/
def Event.Obliging : Event → Prop
  | .join _ answers => ∀ k, answers k
  | _ => True

namespace Course

variable {c : Course} {e : Event}

/-! ## Part maps of the file -/

/-- The part map is one of the file, and so is what jobs make. -/
structure Sized (c : Course) : Prop where
  measured : c.transfer.Measured
  tasks : ∀ task ∈ c.tasks, task.Sized c.transfer.target.size

theorem Sized.fills (h : Sized c) {v : Transfer} {m : PartMap} {l : List Task} (hf : Fills c e v m l) :
    v.Measured ∧ v.target = c.transfer.target ∧ ∀ task ∈ l, task ∈ c.tasks := by
  cases hf with
  | @chunk id offset bytes m temp disk attached pos inside parts =>
    refine ⟨fun k hk => ?_, rfl, fun _ h => h⟩
    obtain rfl := Option.some.inj hk
    exact (PartMap.length_set _ _ _).trans (h.measured m parts)
  | copied here =>
    refine ⟨fun k hk => ?_, rfl, mem_of_mem_erased⟩
    obtain rfl := Option.some.inj hk
    exact (h.tasks _ (List.mem_of_getElem? here)).1

theorem Sized.opens (h : Sized c) {u : Transfer} {l : List Task} (ho : Opens c e u l)
    (hopen : c.transfer.phase.isFinal = false) : u.Measured ∧ ∀ task ∈ l, task ∈ c.tasks := by
  cases ho with
  | @join share answers =>
    have hseat : (c.transfer.seat share answers).Measured := h.measured
    have henter : (c.transfer.seat share answers).enter.Measured := by
      obtain ⟨htarget, hparts, -⟩ := Transfer.enter_frame (c.transfer.seat share answers)
      unfold Transfer.Measured
      rw [htarget, hparts]
      exact hseat
    exact ⟨henter.quiet (Transfer.Quiet.refl _).ensureSignature, fun _ h => h⟩
  | @ready id =>
    have hready : (c.transfer.updateShare id Share.start).Measured := h.measured
    exact ⟨hready.quiet (Transfer.Quiet.refl _).ensureSignature, fun _ h => h⟩
  | @leave id s =>
    have hleave : (c.transfer.detach s).Measured := by
      intro k hk
      obtain ⟨m, hm, rfl⟩ := Option.map_eq_some_iff.1 hk
      exact (Transfer.sheds_revertAll s.pending m).length.trans (h.measured m hm)
    exact ⟨hleave.quiet (Transfer.Quiet.refl _).ensureSignature, fun _ h => h⟩
  | chunk fills => exact ⟨(h.fills fills).1, (h.fills fills).2.2⟩
  | fetch =>
    refine ⟨fun k hk => ?_, fun _ h => h⟩
    rw [Transfer.fetchAll_parts] at hk
    obtain rfl := Option.some.inj hk
    simp
  | send => exact ⟨h.measured, fun _ h => h⟩
  | copied fills =>
    obtain ⟨hmeasured, -, hrest⟩ := h.fills fills
    exact ⟨hmeasured.quiet ((Transfer.Quiet.refl _).setPhase (fills.tacit hopen).1.isOpen rfl), hrest⟩
  | failed =>
    refine ⟨fun k hk => ?_, mem_of_mem_erased⟩
    have hblank : PartMap.blank c.transfer.target.size = k := by simpa [Transfer.afresh] using hk
    rw [← hblank]
    simp [Transfer.afresh]

theorem Sized.outcome (h : Sized c) (hc : Orderly c) (hopen : c.transfer.phase.isFinal = false) {u : Transfer}
    {l : List Task} (ho : Outcome c e u l) (hnext : u.phase.isFinal = false) : Sized (settle u l) := by
  have hidle : ∀ {v : Transfer} {k : List Task}, v.outbox.jobs = c.transfer.outbox.jobs → v.Measured →
      v.target = c.transfer.target → (∀ task ∈ k, task.Sized c.transfer.target.size) → Sized (settle v k) := by
    intro v k hjobs hmeasured htarget hk
    rw [settle_idle (hjobs.trans hc.idle)]
    refine ⟨hmeasured, ?_⟩
    show ∀ task ∈ k, task.Sized v.target.size
    rwa [htarget]
  have hold : ∀ {k : List Task}, (∀ task ∈ k, task ∈ c.tasks) → ∀ task ∈ k, task.Sized c.transfer.target.size :=
    fun hk task ht => h.tasks task (hk task ht)
  have hjob : ∀ {v : Transfer} {k : List Task} {j : Job}, v.outbox.jobs = [j] → v.Measured →
      v.target = c.transfer.target → (∀ task ∈ k, task ∈ c.tasks) →
      (Task.ofJob j).Sized c.transfer.target.size → Sized (settle v k) := by
    intro v k j hjobs hmeasured htarget hk hj
    rw [settle_job hjobs]
    refine ⟨hmeasured, ?_⟩
    show ∀ task ∈ k ++ [Task.ofJob j], task.Sized v.target.size
    rw [htarget]
    intro task ht
    rcases List.mem_append.1 ht with ht | ht
    · exact hold hk task ht
    · rw [List.mem_singleton.1 ht]
      exact hj
  cases ho with
  | same => exact hidle rfl h.measured rfl h.tasks
  | connected => exact hidle rfl h.measured rfl h.tasks
  | round opens =>
    obtain ⟨hmeasured, hrest⟩ := h.opens opens hopen
    have htacit := opens.tacit hopen
    have honward := Transfer.onward_sendRequests htacit.isOpen
    exact hidle (honward.jobs.trans htacit.jobs) (hmeasured.quiet (Transfer.Quiet.refl _).sendRequests)
      (honward.target.trans htacit.target) (hold hrest)
  | @assembled _ v m l s fills complete signed =>
    obtain ⟨hmeasured, htarget, hrest⟩ := h.fills fills
    have htacit := (fills.tacit hopen).1
    have hverifying := hmeasured.quiet ((Transfer.Quiet.refl v).setPhase (p := .verifying) htacit.isOpen rfl)
    refine hjob (j := .verify c.transfer.epoch s.digest) ?_ hverifying ?_ hrest trivial
    · simp [Transfer.queueJob, htacit.jobs, hc.idle]
    · simp [Transfer.queueJob, htarget]
  | closed closes => exact absurd hnext closes.not_open
  | learned => exact hidle rfl h.measured rfl h.tasks
  | @searching s candidate temp fits unsigned unmapped =>
    refine hjob (j := .matchAndCopy c.transfer.epoch s candidate temp) ?_ (fun k hk => ?_) ?_ (fun _ h => h) fits
    · simp [Transfer.queueJob, hc.idle]
    · simp [Transfer.queueJob, unmapped] at hk
    · simp [Transfer.queueJob]
  | @worked i task next disk here step follows =>
    refine hidle rfl h.measured rfl fun a ha => ?_
    rcases mem_replaced (r := some next) ha with ha | ha
    · exact h.tasks a ha
    · rw [← Option.some.inj ha]
      exact follows.sized _ (h.tasks task (List.mem_of_getElem? here))
  | @matched i s candidate temp found here =>
    have hcopying := h.measured.quiet ((Transfer.Quiet.refl c.transfer).setPhase (p := .copying) hopen rfl)
    refine hidle (by simp) hcopying (by simp) fun a ha => ?_
    rcases mem_replaced (r := some _) ha with ha | ha
    · exact h.tasks a ha
    · rw [← Option.some.inj ha]
      have hsearched := h.tasks _ (List.mem_of_getElem? here)
      exact hsearched
  | dropped => exact hidle rfl h.measured rfl (hold mem_of_mem_erased)
  | edited => exact hidle rfl h.measured rfl h.tasks

theorem sized_start {file : Target} {limits : Tuning} {rule : Admission} {t : Transfer}
    (h : t.Untouched file limits rule) : Sized (start t) := by
  refine ⟨fun m hm => ?_, ?_⟩
  · have hparts : t.parts = some m := hm
    show m.length = t.target.size
    rw [h.parts] at hparts
    split at hparts
    · exact nomatch hparts
    · rw [← Option.some.inj hparts, h.target]
      rfl
  · rw [start_tasks h]
    exact nofun

theorem Orderly.sized_run (h : Orderly c) (hs : Sized c) (events : List Event)
    (hopen : (c.run events).transfer.phase.isFinal = false) : Sized (c.run events) :=
  h.open_run (P := Sized) (fun _ => hs) (fun _ hd hopen hs _ _ ho hnext => hs.outcome hd hopen ho hnext) hopen

/-! ## Moments -/

/-- The transfer passes through `v` while it asks for what is needed, which the event `e` came to. -/
def Passes (c : Course) (e : Event) (v : Transfer) : Prop :=
  ∃ u l, Opens c e u l ∧ u.Round v ∧ v.Round u.sendRequests ∧
    (c.step e).transfer = { u.sendRequests with outbox := .empty }

/-- Nobody is asked for a range, or whatever is needed is asked for. -/
theorem Outcome.calls {u : Transfer} {l : List Task} (h : Outcome c e u l) (hopen : c.transfer.phase.isFinal = false) :
    (∃ more, u.sent = c.transfer.sent ++ more ∧ ∀ call ∈ more, call.2.isRange = false) ∨
      ∃ v, Opens c e v l ∧ u = v.sendRequests := by
  have hsame : ∀ {v : Transfer}, v.sent = c.transfer.sent →
      ∃ more, v.sent = c.transfer.sent ++ more ∧ ∀ call ∈ more, call.2.isRange = false := fun hv =>
    ⟨#[], by simpa using hv, nofun⟩
  cases h with
  | round opens => exact .inr ⟨_, opens, rfl⟩
  | closed closes => exact .inl closes.calls
  | @assembled _ v m l s fills =>
    exact .inl ((fills.tacit hopen).1.setPhase (p := .verifying) rfl).calls
  | searching => exact .inl (hsame (by simp [Transfer.queueJob]))
  | matched => exact .inl (hsame (by simp))
  | _ => exact .inl (hsame rfl)

theorem getElem?_append_cases {α : Type} {a b : Array α} {k : Nat} {x : α} (h : (a ++ b)[k]? = some x) :
    a[k]? = some x ∨ x ∈ b := by
  rw [Array.getElem?_append] at h
  split at h
  · exact .inl h
  · exact .inr (Array.mem_of_getElem? h)

/-- Every range that a peer was asked for was asked for at some moment of a round. -/
theorem Orderly.range_of_call (h : Orderly c) {events : List Event} {k link : Nat} {r : ByteRange} {a : Bool}
    (hcall : (c.run events).transfer.sent[k]? = some (link, .range r a)) (hlate : c.transfer.sent.size ≤ k) :
    ∃ before e v w, before ++ [e] <+: events ∧ (c.run before).transfer.phase.isFinal = false ∧
      (c.run before).Passes e v ∧ v.Tells w ∧ v.sent.size = k ∧ w.sent[k]? = some (link, .range r a) := by
  induction events using List.reverseRecOn with
  | nil =>
    have hlt := (Array.getElem?_eq_some_iff.1 hcall).1
    exact absurd hlt (Nat.not_lt.2 hlate)
  | append_singleton events e ih =>
    have hnow := h.run events
    rw [run_snoc] at hcall
    -- a call before the last event
    have hbefore : (c.run events).transfer.sent[k]? = some (link, .range r a) →
        ∃ before e' v w, before ++ [e'] <+: events ++ [e] ∧ (c.run before).transfer.phase.isFinal = false ∧
          (c.run before).Passes e' v ∧ v.Tells w ∧ v.sent.size = k ∧ w.sent[k]? = some (link, .range r a) := by
      intro hk
      obtain ⟨before, e', v, w, hprefix, hrest⟩ := ih hk
      exact ⟨before, e', v, w, hprefix.trans (List.prefix_append _ _), hrest⟩
    have hquiet : ∀ {more : Array (Nat × Call)}, (∀ call ∈ more, call.2.isRange = false) →
        ((c.run events).transfer.sent ++ more)[k]? = some (link, .range r a) →
        (c.run events).transfer.sent[k]? = some (link, .range r a) := fun hmore hk =>
      (getElem?_append_cases hk).resolve_right fun hin => nomatch hmore _ hin
    cases hf : (c.run events).transfer.phase.isFinal with
    | true =>
      obtain ⟨more, hsent, habort⟩ := (hnow.rests_step hf e).calls
      rw [hsent] at hcall
      refine hbefore (hquiet (fun call hin => ?_) hcall)
      rw [habort call hin]
      rfl
    | false =>
      have ho := outcome_operate hf (hnow.released.trans hf) (hnow.aborted hf) e
      have hstep : ((c.run events).step e).transfer = { ((c.run events).operate e).1 with outbox := .empty } := by
        rw [step_eq hnow.emptied]
        rfl
      rw [hstep] at hcall
      rcases ho.calls hf with ⟨more, hsent, hmore⟩ | ⟨u, hopens, hu⟩
      · change ((c.run events).operate e).1.sent[k]? = _ at hcall
        rw [hsent] at hcall
        exact hbefore (hquiet hmore hcall)
      · rw [hu] at hcall hstep
        change u.sendRequests.sent[k]? = _ at hcall
        have hround := Transfer.round_sendRequests u
        obtain ⟨told, htold, hmore⟩ := (hopens.tacit hf).calls
        rcases Nat.lt_or_ge k u.sent.size with hlt | hge
        · obtain ⟨later, hlater⟩ := hround.sent
          rw [hlater, Array.getElem?_append_left hlt, htold] at hcall
          exact hbefore (hquiet hmore hcall)
        · have hhi : k < u.sendRequests.sent.size := (Array.getElem?_eq_some_iff.1 hcall).1
          obtain ⟨v, w, huv, hvw, hwu, hsize, hsame⟩ := hround.call hge hhi
          refine ⟨events, e, v, w, List.prefix_refl _, hf, ⟨u, _, hopens, huv, ?_, hstep⟩, hvw, hsize, ?_⟩
          · exact hvw.round hwu
          · rw [← hsame, hcall]

/-- What holds at such a moment as it did before the event. -/
theorem Passes.frame {v : Transfer} (h : c.Passes e v) (hopen : c.transfer.phase.isFinal = false) (hc : Sized c) :
    v.target = c.transfer.target ∧ v.tuning = c.transfer.tuning ∧ v.Measured := by
  obtain ⟨u, l, hopens, hround, -, -⟩ := h
  have htacit := hopens.tacit hopen
  obtain ⟨htarget, htuning, hmeasured⟩ := hround.frame
  refine ⟨htarget.trans htacit.target, htuning.trans htacit.tuning, fun k hk => ?_⟩
  obtain ⟨m, hm, hlength⟩ := hmeasured k hk
  rw [hlength, (hc.opens hopens hopen).1 m hm, htarget]

/-! ## Nothing is left undone -/

/-- Peers take everything, and nothing is needed or nobody can be asked. -/
structure Busy (t : Transfer) : Prop where
  tended : t.Tended
  conserving : ∀ m, t.parts = some m → t.Conserving m

theorem Fills.tended {v : Transfer} {m : PartMap} {l : List Task} (hf : Fills c e v m l) (h : c.transfer.Tended) :
    v.Tended := by
  cases hf with
  | chunk => exact h.map (fun s => by split <;> exact ⟨rfl, rfl⟩) rfl rfl
  | copied => exact h.same rfl rfl

theorem Opens.tended {u : Transfer} {l : List Task} (ho : Opens c e u l) (h : c.transfer.Tended) (he : e.Obliging)
    (hrule : c.transfer.admission = .single ∨ c.transfer.admission = .swarming) : u.Tended := by
  have hensure : ∀ {v : Transfer}, v.Tended → v.ensureSignature.Tended := fun {v} hv =>
    hv.same (Transfer.ensureSignature_peers v).2 (Transfer.ensureSignature_peers v).1
  cases ho with
  | join pos unknown accepted =>
    have hseat := h.seat he (Transfer.uniform_of_accepted hrule accepted)
    obtain ⟨-, -, hshares, hlinks⟩ := Transfer.enter_frame (c.transfer.seat _ _)
    exact hensure (hseat.same hlinks hshares)
  | ready => exact hensure (h.map (fun s => by split <;> exact ⟨rfl, rfl⟩) rfl rfl)
  | @leave id s =>
    refine hensure (h.of rfl fun q hq => ⟨q, List.mem_of_mem_eraseP hq, rfl, rfl⟩)
  | chunk fills => exact fills.tended h
  | fetch => exact h.same (by simp) (by simp)
  | send => exact h
  | copied fills => exact (fills.tended h).same (by simp) (by simp)
  | failed =>
    refine Transfer.Tended.same (t := c.transfer.afresh) ?_ (by simp) (by simp)
    exact h.map (f := Share.takePending) (fun s => ⟨rfl, rfl⟩) rfl rfl

theorem Outcome.busy {u : Transfer} {l : List Task} (ho : Outcome c e u l) (h : Busy c.transfer) (he : e.Obliging)
    (hopen : c.transfer.phase.isFinal = false)
    (hrule : c.transfer.admission = .single ∨ c.transfer.admission = .swarming)
    (hchunk : 1 ≤ c.transfer.tuning.maxChunk) (hnext : u.phase.isFinal = false) : Busy u := by
  cases ho with
  | same => exact h
  | @connected share answers => exact ⟨h.tended.connect he, h.conserving⟩
  | round opens =>
    have htacit := opens.tacit hopen
    obtain ⟨htended, hconserving⟩ :=
      (opens.tended h.tended he hrule).sendRequests (htacit.tuning ▸ hchunk) htacit.isOpen
    exact ⟨htended, hconserving⟩
  | @assembled _ v m l s fills complete =>
    have htended := (fills.tended h.tended).same
      (u := (v.setPhase .verifying).queueJob (.verify c.transfer.epoch s.digest))
      (by simp [Transfer.queueJob]) (by simp [Transfer.queueJob])
    refine ⟨htended, fun k hk => .inl fun o ho => ?_⟩
    obtain ⟨-, -, hparts, -⟩ := fills.tacit hopen
    obtain rfl : m = k := by simpa [Transfer.queueJob, hparts] using hk
    rw [PartMap.isComplete_iff.1 complete o (PartMap.lt_length ho)] at ho
    cases ho
  | closed closes => exact absurd hnext closes.not_open
  | learned => exact ⟨h.tended.same rfl rfl, h.conserving⟩
  | searching fits unsigned unmapped =>
    refine ⟨h.tended.same (by simp [Transfer.queueJob]) (by simp [Transfer.queueJob]), fun k hk => ?_⟩
    simp [Transfer.queueJob, unmapped] at hk
  | worked => exact ⟨h.tended.same rfl rfl, h.conserving⟩
  | matched =>
    refine ⟨h.tended.same (by simp) (by simp), fun k hk => ?_⟩
    have hold := h.conserving k (by simpa using hk)
    unfold Transfer.Conserving at hold ⊢
    simpa using hold
  | dropped => exact h
  | edited => exact ⟨h.tended.same rfl rfl, h.conserving⟩

theorem busy_start {file : Target} {limits : Tuning} {rule : Admission} {t : Transfer}
    (h : t.Untouched file limits rule) : Busy (start t).transfer := by
  have hshares : (start t).transfer.shares = [] := h.shares
  have hlinks : (start t).transfer.links = #[] := h.links
  refine ⟨⟨fun link hlink => ?_, ?_, ?_⟩, fun m _ => .inr ?_⟩
  · rw [hlinks] at hlink
    exact absurd hlink (Nat.not_lt_zero _)
  all_goals
    rw [hshares]
    exact nofun

theorem Orderly.busy_run (h : Orderly c) (hb : Busy c.transfer) {events : List Event} (hall : ∀ e ∈ events, e.Obliging)
    (hopen : (c.run events).transfer.phase.isFinal = false)
    (hrule : c.transfer.admission = .single ∨ c.transfer.admission = .swarming)
    (hchunk : 1 ≤ c.transfer.tuning.maxChunk) : Busy (c.run events).transfer := by
  refine (h.open_run (P := fun d => c.transfer.Made d.transfer ∧ Busy d.transfer)
    (fun _ => ⟨⟨rfl, rfl, rfl, rfl, rfl⟩, hb⟩) ?_ hopen).2
  intro before e hbound hd hdopen ⟨hmade, hbusy⟩ u l ho hnext
  refine ⟨hmade.trans (ho.made hdopen hnext), ?_⟩
  have hobliging : e.Obliging := hall e (List.IsPrefix.subset hbound (by simp))
  have hnow := ho.busy hbusy hobliging hdopen (hmade.admission ▸ hrule) (hmade.tuning ▸ hchunk) hnext
  exact ⟨hnow.tended.same rfl rfl, hnow.conserving⟩

/-! ## All of it -/

/-- Whom a transfer asks for what. Every range that a peer is asked for has at least one byte and at most as many as
the tuning allows; it lies in the file, all its bytes are needed at that moment, and none before it is; the peer has
started, is not broken, answers range requests and has room for one more. Where peers take every request and the rule
for peers is one of those that are shipped, there are never needed bytes and a peer that can be asked at once, so that
asking again does nothing. In every state asking comes to an end. -/
theorem scheduling_sound {target : Target} {tuning : Tuning} {admission : Admission} {disk made : Disk} {t : Transfer}
    (h : Transfer.create target tuning admission disk = (.ok t, made)) (events : List Event) :
    let c := (start t).run events
    (∀ k link r a, c.transfer.sent[k]? = some (link, .range r a) →
      ∃ before e v m, before ++ [e] <+: events ∧ ((start t).run before).Passes e v ∧ v.sent.size = k ∧
        v.parts = some m ∧ 0 < r.length ∧ r.length ≤ tuning.maxChunk ∧ r.stop ≤ target.size ∧
        (∀ o ∈ r, m.state? o = some .needed) ∧ (∀ o < r.start, m.state? o ≠ some .needed) ∧
        ∃ s ∈ v.shares, s.link = link ∧ s.started ∧ s.broken = false ∧ s.caps.partRequests ∧
          s.pending.length < s.budget) ∧
    (admission = .single ∨ admission = .swarming → 1 ≤ tuning.maxChunk →
      (∀ share answers, .join share answers ∈ events → ∀ k, answers k = true) → c.transfer.phase.isFinal = false →
      ∀ m, c.transfer.parts = some m →
        ¬ ((∃ o, m.state? o = some .needed) ∧ ∃ s ∈ c.transfer.shares, s.canRequest) ∧
        c.transfer.sendRequests = c.transfer) ∧
    ∀ u : Transfer, ∃ v, (∀ w, u.Distributes w ↔ w = v) ∧
      u.sendRequests = if u.phase.isFinal || !u.byParts then u else v := by
  have huntouched := Transfer.create_untouched h
  have hstart : Orderly (start t) := orderly_start huntouched
  have hsized : Sized (start t) := sized_start huntouched
  intro c
  refine ⟨fun k link r a hcall => ?_, fun hrule hchunk hanswers hopen m hm => ?_, fun u => ?_⟩
  · obtain ⟨before, e, v, w, hprefix, hbefore, hpasses, htells, hsize, hlast⟩ :=
      hstart.range_of_call hcall (by rw [show (start t).transfer.sent = #[] from huntouched.sent]; exact Nat.zero_le k)
    have hmade := hstart.made_run before hbefore
    obtain ⟨htarget, htuning, hmeasured⟩ := hpasses.frame hbefore (hstart.sized_run hsized before hbefore)
    obtain ⟨s, hs, m, r', a', hsent, hable, hparts, hpos, hlen, hstop, hneeded, hleast⟩ := htells.sound
    rw [hsent, ← hsize, Array.getElem?_push_size] at hlast
    obtain ⟨rfl, hrange⟩ := Prod.mk.inj (Option.some.inj hlast)
    obtain ⟨rfl, rfl⟩ := Call.range.inj hrange
    rw [htuning, hmade.tuning, show (start t).transfer.tuning = tuning from huntouched.tuning] at hlen
    rw [hmeasured m hparts, htarget, hmade.target, show (start t).transfer.target = target from huntouched.target]
      at hstop
    simp only [Share.canRequest, Bool.and_eq_true, Bool.not_eq_true', decide_eq_true_eq] at hable
    exact ⟨before, e, v, m, hprefix, hpasses, hsize, hparts, hpos, hlen, hstop, hneeded, hleast, s, hs, rfl,
      hable.1.1.1, hable.1.1.2, hable.1.2, hable.2⟩
  · have hbusy : Busy c.transfer := hstart.busy_run (busy_start huntouched)
      (fun e he => by cases e <;> first | exact hanswers _ _ he | trivial) hopen
      (by rwa [show (start t).transfer.admission = admission from huntouched.admission])
      (by rwa [show (start t).transfer.tuning = tuning from huntouched.tuning])
    have hconserving := hbusy.conserving m hm
    refine ⟨?_, Transfer.sendRequests_of_conserving hbusy.conserving⟩
    rintro ⟨⟨o, ho⟩, s, hs, hable⟩
    rcases hconserving with hnone | hnobody
    · exact hnone o ho
    · cases (hnobody s hs).symm.trans hable
  · exact ⟨Transfer.assign u.room u, fun w => Transfer.distributes_iff, rfl⟩

/-- A peer joins and takes requests: it is asked for both bytes of the file. -/
theorem two_scheduling_sound :
    let events : List Event := [.join (.fresh "a" .full 0) fun _ => true, .ready "a"]
    let c := (start (plainTransfer 2 .standard .swarming)).run events
    c.transfer.sent[1]? = some (0, .range ⟨0, 2⟩ true) ∧ c.transfer.phase.isFinal = false ∧
      c.transfer.sendRequests = c.transfer ∧
      ∃ before e v, before ++ [e] <+: events ∧ ((start (plainTransfer 2 .standard .swarming)).run before).Passes e v ∧
        v.sent.size = 1 := by
  intro events c
  have hasked : c.transfer.sent[1]? = some (0, .range ⟨0, 2⟩ true) := by decide +kernel
  have hopen : c.transfer.phase.isFinal = false := by decide +kernel
  obtain ⟨hsound, hbusy, -⟩ := scheduling_sound (create_plain 2 .standard .swarming) events
  obtain ⟨parts, hparts⟩ : ∃ m, c.transfer.parts = some m := Option.isSome_iff_exists.1 (by decide +kernel)
  have hanswers : ∀ share answers, .join share answers ∈ events → ∀ k, answers k = true := by
    intro share answers hin k
    obtain ⟨-, rfl⟩ : share = .fresh "a" .full 0 ∧ answers = fun _ => true := by simpa [events] using hin
    rfl
  obtain ⟨before, e, v, m, hprefix, hpasses, hsize, -⟩ := hsound 1 0 ⟨0, 2⟩ true hasked
  have hagain := (hbusy (.inr rfl) (by decide) hanswers hopen parts hparts).2
  exact ⟨hasked, hopen, hagain, before, e, v, hprefix, hpasses, hsize⟩

end Course

end FileSwarm
