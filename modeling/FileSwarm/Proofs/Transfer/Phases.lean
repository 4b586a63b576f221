import FileSwarm.Proofs.Transfer.Attempts
import FileSwarm.Proofs.Transfer.Endings

/-!
# Phase, part map, signature and jobs go together

An open transfer stands at one of four places: it waits for a signature, looks at the local copy, fetches, or has the
file hashed. The place says which phase it may be in, what it holds and which jobs are under way.

* `Transfer.Standing t l` : where the transfer `t` stands with the jobs `l`;
* `Standing.sendRequests`, `Standing.ensureSignature`, `Standing.enter` : what operations are put together from;
* `Standing.opens`, `Standing.outcome` : an open transfer stands somewhere after every outcome;
* `Placed c`, `Orderly.placed_run` : so it does all along a course;
* `Consistent c` : what that comes to, field by field; `Outcome.signature` : a signature is not exchanged for another;
* `phases_consistent` : all of it, of every course.
-/

namespace FileSwarm

theorem PartMap.Sheds.missing {m k : PartMap} (h : m.Sheds k) (hm : m.isComplete = false) : k.isComplete = false := by
  by_contra hk
  rw [Bool.not_eq_false, PartMap.isComplete_iff] at hk
  have hcomplete : m.isComplete := PartMap.isComplete_iff.2 fun o ho =>
    h.available o (hk o (by rwa [h.length]))
  exact nomatch hcomplete.symm.trans hm

theorem PartMap.missing_blank {n : Nat} (h : n ≠ 0) : (PartMap.blank n).isComplete = false := by
  by_contra hb
  rw [Bool.not_eq_false, PartMap.isComplete_iff] at hb
  exact nomatch PartMap.eq_needed_of_blank (hb 0 (Nat.pos_of_ne_zero h))

theorem PartMap.isComplete_set {m : PartMap} (h : m.isComplete) (r : ByteRange) : (m.set r .available).isComplete := by
  rw [PartMap.isComplete_iff] at h ⊢
  intro o ho
  rw [PartMap.length_set] at ho
  by_cases hin : o ∈ r
  · rw [PartMap.state?_set_of_mem hin ho]
  · rw [PartMap.state?_set_of_not_mem hin, h o ho]

namespace Transfer

/-- Where an open transfer stands, and the jobs it has under way. -/
inductive Standing (t : Transfer) (l : List Task) : Prop
  /-- It waits for a signature. -/
  | waiting (planned : t.delta) (unmapped : t.parts = none) (unsigned : t.signature = none)
    (phase : t.phase = .initial ∨ t.phase = .requestingSignature) (idle : l = [])
  /-- It looks at the local copy. -/
  | looking {task : Task} (planned : t.delta) (unmapped : t.parts = none) (signed : t.signature.isSome)
    (phase : t.phase = .matching ∨ t.phase = .copying) (alone : l = [task]) (delta : task.isDelta)
  | fetching {m : PartMap} (parts : t.parts = some m) (missing : m.isComplete = false)
    (phase : t.phase = .initial ∨ t.phase = .downloading) (hashing : ∀ task ∈ l, task.isDelta = false)
  /-- It has the file hashed. -/
  | verifying {m : PartMap} (parts : t.parts = some m) (complete : m.isComplete) (signed : t.signature.isSome)
    (phase : t.phase = .verifying) (hashing : ∀ task ∈ l, task.isDelta = false) (busy : l ≠ [])

namespace Standing

variable {t u : Transfer} {l : List Task}

/-- The place is told by four fields. -/
theorem congr (h : t.Standing l) (hdelta : u.delta = t.delta) (hparts : u.parts = t.parts)
    (hsignature : u.signature = t.signature) (hphase : u.phase = t.phase) : u.Standing l := by
  cases h with
  | waiting planned unmapped unsigned phase idle =>
    exact .waiting (hdelta ▸ planned) (hparts.trans unmapped) (hsignature.trans unsigned) (hphase ▸ phase) idle
  | looking planned unmapped signed phase alone delta =>
    exact .looking (hdelta ▸ planned) (hparts.trans unmapped) (hsignature ▸ signed) (hphase ▸ phase) alone delta
  | fetching parts missing phase hashing =>
    exact .fetching (hparts.trans parts) missing (hphase ▸ phase) hashing
  | verifying parts complete signed phase hashing busy =>
    exact .verifying (hparts.trans parts) complete (hsignature ▸ signed) (hphase.trans phase) hashing busy

theorem alone (h : t.Standing l) {i : Nat} {task : Task} (hi : l[i]? = some task) (hd : task.isDelta) :
    t.delta ∧ t.parts = none ∧ t.signature.isSome ∧ i = 0 ∧ l = [task] := by
  have hmem := List.mem_of_getElem? hi
  cases h with
  | waiting _ _ _ _ idle =>
    rw [idle] at hmem
    exact absurd hmem List.not_mem_nil
  | looking planned unmapped signed _ alone =>
    rw [alone] at hi ⊢
    cases i with
    | zero => exact ⟨planned, unmapped, signed, rfl, by rw [Option.some.inj hi]⟩
    | succ i => exact nomatch hi
  | fetching _ _ _ hashing => exact nomatch (hashing task hmem).symm.trans hd
  | verifying _ _ _ _ hashing => exact nomatch (hashing task hmem).symm.trans hd

theorem hashing (h : t.Standing l) {m : PartMap} (hm : t.parts = some m) : ∀ task ∈ l, task.isDelta = false := by
  cases h with
  | waiting _ unmapped => exact nomatch hm.symm.trans unmapped
  | looking _ unmapped => exact nomatch hm.symm.trans unmapped
  | fetching _ _ _ hashing => exact hashing
  | verifying _ _ _ _ hashing => exact hashing

theorem mapped (h : t.Standing l) {task : Task} (hm : task ∈ l) (hd : task.isDelta = false) : t.parts.isSome := by
  cases h with
  | waiting _ _ _ _ idle =>
    rw [idle] at hm
    exact absurd hm List.not_mem_nil
  | looking _ _ _ _ alone delta =>
    rw [alone, List.mem_singleton] at hm
    rw [hm] at hd
    exact nomatch hd.symm.trans delta
  | fetching parts => rw [parts]; rfl
  | verifying parts => rw [parts]; rfl

theorem sendRequests (h : t.Standing l) : t.sendRequests.Standing l := by
  cases h with
  | waiting planned unmapped unsigned phase idle =>
    rw [sendRequests_of_none (nextRange_unmapped unmapped)]
    exact .waiting planned unmapped unsigned phase idle
  | looking planned unmapped signed phase alone delta =>
    rw [sendRequests_of_none (nextRange_unmapped unmapped)]
    exact .looking planned unmapped signed phase alone delta
  | verifying parts complete signed phase hashing busy =>
    rw [sendRequests_of_none (nextRange_complete parts complete)]
    exact .verifying parts complete signed phase hashing busy
  | @fetching m parts missing phase hashing =>
    have hkept : ∃ k, t.sendRequests.parts = some k ∧ k.isComplete = false := by
      refine sendRequests_induction (P := fun u => ∃ k, u.parts = some k ∧ k.isComplete = false)
        (fun _ _ _ h => h) ?_ ⟨m, parts, missing⟩
      rintro u k r i s v ⟨hk, -, -, -, links, sent, rfl⟩ ⟨k', hk', hmissing⟩
      obtain rfl := Option.some.inj (hk.symm.trans hk')
      exact ⟨_, rfl, (PartMap.sheds_set k r (by decide)).missing hmissing⟩
    obtain ⟨k, hk, hmissing⟩ := hkept
    exact .fetching hk hmissing (by simpa using phase) hashing

theorem fetchAll (hpos : t.target.size ≠ 0) (hl : ∀ task ∈ l, task.isDelta = false) : t.fetchAll.Standing l :=
  .fetching (fetchAll_parts t) (PartMap.missing_blank hpos) (.inr (fetchAll_phase t)) hl

theorem ensureSignature (h : t.Standing l) (hpos : t.target.size ≠ 0) : t.ensureSignature.Standing l := by
  cases h with
  | looking planned unmapped signed phase alone delta =>
    rw [ensureSignature_settled (.inr signed)]
    exact .looking planned unmapped signed phase alone delta
  | fetching parts missing phase hashing =>
    rw [ensureSignature_settled (.inl (by rw [parts]; rfl))]
    exact .fetching parts missing phase hashing
  | verifying parts complete signed phase hashing busy =>
    rw [ensureSignature_settled (.inr signed)]
    exact .verifying parts complete signed phase hashing busy
  | waiting planned unmapped unsigned phase idle =>
    rcases ensureSignature_cases t with e | ⟨-, owing, e⟩
    · rw [e]
      exact .waiting planned unmapped unsigned phase idle
    · rw [e]
      rcases askSignature_cases { t with owing } with ⟨s, -, -, -, -, e⟩ | e | ⟨-, e⟩
      · rw [e]
        refine .waiting ?_ ?_ ?_ (.inr (setPhase_phase _ _)) idle
        · simpa using planned
        · simpa using unmapped
        · simpa using unsigned
      · rw [e]
        exact .waiting planned unmapped unsigned phase idle
      · rw [e]
        refine .fetchAll hpos ?_
        rw [idle]
        exact nofun

theorem enter (h : t.Standing l) : t.enter.Standing l := by
  unfold Transfer.enter
  split
  · next hearly =>
    rw [Bool.and_eq_true, decide_eq_true_eq] at hearly
    obtain ⟨hinitial, hmapped⟩ := hearly
    cases h with
    | waiting _ unmapped => simp [unmapped] at hmapped
    | looking _ unmapped => simp [unmapped] at hmapped
    | fetching parts missing _ hashing =>
      exact .fetching (by simpa using parts) missing (.inr (setPhase_phase _ _)) hashing
    | verifying _ _ _ phase => exact nomatch hinitial.symm.trans phase
  · exact h

/-- A peer leaves, and takes nothing with it that is there. -/
theorem detach (h : t.Standing l) (s : Share) : (t.detach s).Standing l := by
  have hnone : t.parts = none → (t.detach s).parts = none := fun h => by
    rw [Transfer.detach, h]
    rfl
  have hsome : ∀ m, t.parts = some m → (t.detach s).parts = some (s.pending.foldl revert m) := fun m h => by
    rw [Transfer.detach, h]
    rfl
  cases h with
  | waiting planned unmapped unsigned phase idle => exact .waiting planned (hnone unmapped) unsigned phase idle
  | looking planned unmapped signed phase alone delta =>
    exact .looking planned (hnone unmapped) signed phase alone delta
  | @fetching m parts missing phase hashing =>
    exact .fetching (hsome m parts) ((sheds_revertAll s.pending m).missing missing) phase hashing
  | @verifying m parts complete signed phase hashing busy =>
    exact .verifying (hsome m parts) (isComplete_revertAll complete _) signed phase hashing busy

end Standing

end Transfer

namespace Course

variable {c d : Course}

/-! ## One event -/

/-- An open transfer of a file that is not empty, and where it stands. -/
structure Placed (c : Course) : Prop where
  pos : c.transfer.target.size ≠ 0
  handle : c.transfer.temp.isSome
  standing : c.transfer.Standing c.tasks

/-- Bytes are there, and no job under way looks at the local copy any more. -/
theorem Placed.filled (h : Placed c) {e : Event} {v : Transfer} {m : PartMap} {l : List Task}
    (hfills : Fills c e v m l) : ∀ task ∈ l, task.isDelta = false := by
  cases hfills with
  | chunk _ _ _ parts => exact h.standing.hashing parts
  | copied here =>
    obtain ⟨-, -, -, rfl, hall⟩ := h.standing.alone here rfl
    rw [hall]
    exact nofun

theorem Placed.opens (h : Placed c) {e : Event} {u : Transfer} {l : List Task} (hopens : Opens c e u l) :
    u.Standing l := by
  cases hopens with
  | @join share answers =>
    have hseat : (c.transfer.seat share answers).Standing c.tasks := h.standing.congr rfl rfl rfl rfl
    have hpos : (c.transfer.seat share answers).enter.target.size ≠ 0 := by
      unfold Transfer.enter
      split
      · rw [(Transfer.setPhase_frame _ _).1]
        exact h.pos
      · exact h.pos
    exact hseat.enter.ensureSignature hpos
  | @ready id =>
    have hready : (c.transfer.updateShare id Share.start).Standing c.tasks := h.standing.congr rfl rfl rfl rfl
    exact hready.ensureSignature h.pos
  | @leave id s => exact (h.standing.detach s).ensureSignature h.pos
  | @chunk id offset bytes v m l fills incomplete =>
    have hhashing := h.filled fills
    cases fills with
    | @chunk _ _ _ m _ _ _ _ _ parts =>
      refine .fetching rfl incomplete ?_ hhashing
      show c.transfer.phase = .initial ∨ c.transfer.phase = .downloading
      cases h.standing with
      | waiting _ unmapped => exact nomatch parts.symm.trans unmapped
      | looking _ unmapped => exact nomatch parts.symm.trans unmapped
      | fetching _ _ phase => exact phase
      | verifying parts' complete =>
        obtain rfl := Option.some.inj (parts.symm.trans parts')
        exact nomatch (PartMap.isComplete_set complete _).symm.trans incomplete
  | @fetch s fits unsigned unmapped =>
    refine .fetchAll h.pos ?_
    cases h.standing with
    | waiting _ _ _ _ idle =>
      rw [idle]
      exact nofun
    | looking _ _ signed => simp [unsigned] at signed
    | fetching _ _ _ hashing => exact hashing
    | verifying _ _ _ _ hashing => exact hashing
  | send => exact h.standing
  | @copied i v m l fills incomplete =>
    have hhashing := h.filled fills
    cases fills
    exact .fetching (by simp [Transfer.installed]) incomplete (.inr (Transfer.setPhase_phase _ _)) hhashing
  | @failed i here again =>
    obtain ⟨m, hm⟩ := Option.isSome_iff_exists.1 (h.standing.mapped (List.mem_of_getElem? here) rfl)
    refine .fetching (m := PartMap.blank c.transfer.target.size) (by simp [Transfer.afresh])
      (PartMap.missing_blank h.pos) (.inr (Transfer.setPhase_phase _ _)) fun task ht => ?_
    exact h.standing.hashing hm task (mem_of_mem_erased task ht)

theorem Placed.assembled (h : Placed c) {e : Event} {v : Transfer} {m : PartMap} {l : List Task} {s : Signature}
    (hfills : Fills c e v m l) (hopen : c.transfer.phase.isFinal = false) (hcomplete : m.isComplete)
    (hsigned : c.transfer.signature = some s) (d : Digest) :
    (v.setPhase .verifying).Standing (l ++ [.hash c.transfer.epoch d]) := by
  obtain ⟨-, -, hparts, hsig⟩ := hfills.tacit hopen
  refine .verifying (m := m) ?_ hcomplete ?_ (Transfer.setPhase_phase _ _) (fun task ht => ?_) (by simp)
  · simpa using hparts
  · simp [hsig, hsigned]
  · rcases List.mem_append.1 ht with ht | ht
    · exact h.filled hfills task ht
    · rw [List.mem_singleton.1 ht]
      rfl

theorem Placed.worked (h : Placed c) {i : Nat} {task next : Task} (here : c.tasks[i]? = some task)
    (hkind : next.isDelta = task.isDelta) : c.transfer.Standing (c.tasks.take i ++ [next] ++ c.tasks.drop (i + 1)) := by
  have hmem := List.mem_of_getElem? here
  have hall : (∀ a ∈ c.tasks, a.isDelta = false) →
      ∀ a ∈ c.tasks.take i ++ [next] ++ c.tasks.drop (i + 1), a.isDelta = false := fun hall a ha => by
    rcases mem_replaced (r := some next) ha with ha | ha
    · exact hall a ha
    · rw [← Option.some.inj ha]
      exact hkind.trans (hall task hmem)
  cases h.standing with
  | waiting _ _ _ _ idle =>
    rw [idle] at hmem
    exact absurd hmem List.not_mem_nil
  | @looking only planned unmapped signed phase alone delta =>
    have htask : task = only := by
      rw [alone] at hmem
      exact List.mem_singleton.1 hmem
    have hd : task.isDelta := htask ▸ delta
    obtain ⟨-, -, -, rfl, hone⟩ := h.standing.alone here hd
    rw [hone]
    exact .looking planned unmapped signed phase rfl (hkind.trans hd)
  | fetching parts missing phase hashing => exact .fetching parts missing phase (hall hashing)
  | verifying parts complete signed phase hashing =>
    exact .verifying parts complete signed phase (hall hashing) (by simp)

/-- An open transfer stands somewhere after every outcome. -/
theorem Placed.outcome (h : Placed c) (hc : Orderly c) (hopen : c.transfer.phase.isFinal = false) {e : Event}
    {u : Transfer} {l : List Task} (ho : Outcome c e u l) (hnext : u.phase.isFinal = false) :
    (settle u l).transfer.Standing (settle u l).tasks := by
  have hidle : ∀ {v : Transfer} {k : List Task}, v.outbox.jobs = c.transfer.outbox.jobs → v.Standing k →
      (settle v k).transfer.Standing (settle v k).tasks := fun hv hk => by
    rw [settle_idle (hv.trans hc.idle)]
    exact hk.congr rfl rfl rfl rfl
  cases ho with
  | same => exact hidle rfl h.standing
  | connected => exact hidle rfl (h.standing.congr rfl rfl rfl rfl)
  | round opens =>
    have honward := Transfer.onward_sendRequests (opens.tacit hopen).isOpen
    exact hidle (honward.jobs.trans (opens.tacit hopen).jobs) (h.opens opens).sendRequests
  | @assembled _ v m l s fills complete signed =>
    have hjob : ((v.setPhase .verifying).queueJob (.verify c.transfer.epoch s.digest)).outbox.jobs =
        [.verify c.transfer.epoch s.digest] := by
      simp [Transfer.queueJob, (fills.tacit hopen).1.jobs, hc.idle]
    rw [settle_job hjob]
    exact (h.assembled fills hopen complete signed s.digest).congr rfl rfl rfl rfl
  | closed closes => exact absurd hnext closes.not_open
  | @learned s fits unsigned late =>
    have hparts : c.transfer.parts.isSome := late.resolve_right fun hnone => by
      have := h.handle
      simp [hnone] at this
    refine hidle rfl ?_
    cases h.standing with
    | waiting _ unmapped => simp [unmapped] at hparts
    | looking _ unmapped => simp [unmapped] at hparts
    | fetching parts missing phase hashing => exact .fetching parts missing phase hashing
    | verifying _ _ signed => simp [unsigned] at signed
  | @searching s candidate temp fits unsigned unmapped copy handle =>
    have hjob : ((({ c.transfer with signature := some s, owing := none } : Transfer).setPhase .matching).queueJob
        (.matchAndCopy c.transfer.epoch s candidate temp)).outbox.jobs =
          [.matchAndCopy c.transfer.epoch s candidate temp] := by
      simp [Transfer.queueJob, hc.idle]
    rw [settle_job hjob]
    cases h.standing with
    | waiting planned _ _ _ idle =>
      rw [idle]
      refine .looking ?_ ?_ ?_ (.inl ?_) rfl rfl
      · simpa [Transfer.queueJob] using planned
      · simpa [Transfer.queueJob] using unmapped
      · simp [Transfer.queueJob]
      · simp [Transfer.queueJob]
    | looking _ _ signed => simp [unsigned] at signed
    | fetching parts => cases parts.symm.trans unmapped
    | verifying parts => cases parts.symm.trans unmapped
  | worked here step follows => exact hidle rfl ((h.worked here follows.kind).congr rfl rfl rfl rfl)
  | @matched i s candidate temp found here =>
    obtain ⟨planned, unmapped, signed, rfl, hone⟩ := h.standing.alone here rfl
    refine hidle (by simp) ?_
    rw [hone]
    refine .looking ?_ ?_ ?_ (.inr (Transfer.setPhase_phase _ _)) rfl rfl
    · simpa using planned
    · simpa using unmapped
    · simpa using signed
  | dropped here stale => exact absurd (hc.current hopen _ (List.mem_of_getElem? here)) stale
  | edited => exact hidle rfl (h.standing.congr rfl rfl rfl rfl)

/-! ## Courses -/

theorem Orderly.placed_run (h : Orderly c) (hp : c.transfer.phase.isFinal = false → Placed c) (events : List Event)
    (hopen : (c.run events).transfer.phase.isFinal = false) : Placed (c.run events) := by
  refine h.open_run hp (fun _ hd hbefore hp _ _ ho hnext => ?_) hopen
  have hmade := ho.made hbefore hnext
  exact ⟨hmade.target ▸ hp.pos, hmade.temp ▸ hp.handle, hp.outcome hd hbefore ho hnext⟩

theorem placed_start {file : Target} {limits : Tuning} {rule : Admission} {t : Transfer}
    (h : t.Untouched file limits rule) (hpos : file.size ≠ 0) : Placed (start t) := by
  have htasks : (start t).tasks = [] := start_tasks h
  refine ⟨?_, h.temp, ?_⟩
  · show t.target.size ≠ 0
    rwa [h.target]
  · have hparts := h.parts
    cases hd : t.delta with
    | true =>
      rw [hd, if_pos rfl] at hparts
      exact .waiting hd hparts h.signature (.inl h.phase) htasks
    | false =>
      rw [hd, if_neg nofun] at hparts
      refine .fetching hparts (PartMap.missing_blank hpos) (.inl h.phase) ?_
      rw [htasks]
      exact nofun

/-- A transfer does not exchange its signature for another. -/
theorem Outcome.signature {e : Event} {u : Transfer} {l : List Task} (h : Outcome c e u l) {s : Signature}
    (hs : c.transfer.signature = some s) : u.signature = some s ∨ u.signature = none ∧ u.released := by
  have hensure : ∀ v : Transfer, v.signature = some s → v.ensureSignature.signature = some s := fun v hv => by
    rw [Transfer.ensureSignature_settled (.inr (by rw [hv]; rfl))]
    exact hv
  have hfills : ∀ {v : Transfer} {m : PartMap}, Fills c e v m l → v.signature = some s := fun hf => by
    cases hf <;> exact hs
  cases h with
  | closed closes => exact .inr ⟨closes.signature, closes.released⟩
  | learned _ unsigned => exact nomatch unsigned.symm.trans hs
  | searching _ unsigned => exact nomatch unsigned.symm.trans hs
  | assembled fills => exact .inl (by simpa [Transfer.queueJob] using hfills fills)
  | matched => exact .inl (by simpa using hs)
  | @round _ v _ opens =>
    have hv : v.signature = some s := by
      cases opens with
      | @join share answers =>
        refine hensure _ ?_
        unfold Transfer.enter
        split
        · rw [(Transfer.setPhase_frame _ _).2.2.2.2.2.2.1]
          exact hs
        · exact hs
      | ready => exact hensure _ hs
      | leave => exact hensure _ hs
      | chunk fills => exact hfills fills
      | fetch _ unsigned => exact nomatch unsigned.symm.trans hs
      | send => exact hs
      | copied fills => simpa using hfills fills
      | failed => simpa [Transfer.afresh] using hs
    exact .inl (by simpa using hv)
  | _ => exact .inl hs

theorem Orderly.signature_run (h : Orderly c) {s : Signature} (hs : c.transfer.signature = some s)
    (events : List Event) : (c.run events).transfer.signature = some s ∨
      (c.run events).transfer.signature = none ∧ (c.run events).transfer.released := by
  induction events using List.reverseRecOn with
  | nil => exact .inl hs
  | append_singleton events e ih =>
    have hnow := h.run events
    rw [run_snoc]
    cases hf : (c.run events).transfer.phase.isFinal with
    | true =>
      have hrests := hnow.rests_step hf e
      rw [hrests.signature, hrests.released]
      exact ih
    | false =>
      have hopen : (c.run events).transfer.released = false := hnow.released.trans hf
      have hheld := ih.resolve_right fun hgone => nomatch hopen.symm.trans hgone.2
      rw [step_eq hnow.emptied]
      exact (outcome_operate hf hopen (hnow.aborted hf) e).signature hheld

/-- Phase, part map, signature, handle of the temp file and jobs under way fit each other. -/
structure Consistent (c : Course) : Prop where
  ended : c.transfer.phase.isFinal ↔ c.transfer.released
  gone : c.transfer.phase.isFinal → c.transfer.parts = none ∧ c.transfer.signature = none ∧
    c.transfer.owing = none ∧ c.transfer.temp = none
  handle : c.transfer.phase.isFinal = false → c.transfer.temp.isSome
  unmapped : c.transfer.phase.isFinal = false → c.transfer.parts = none → c.transfer.delta ∧
    (c.transfer.phase = .initial ∨ c.transfer.phase = .requestingSignature ∨ c.transfer.phase = .matching ∨
      c.transfer.phase = .copying)
  mapped : c.transfer.phase.isFinal = false → c.transfer.parts.isSome →
    c.transfer.phase = .initial ∨ c.transfer.phase = .downloading ∨ c.transfer.phase = .verifying
  looking : c.transfer.phase = .matching ∨ c.transfer.phase = .copying →
    c.transfer.signature.isSome ∧ c.tasks.countP (·.isDelta) = 1
  downloading : c.transfer.phase = .downloading → ∃ m, c.transfer.parts = some m ∧ m.isComplete = false
  verifying : c.transfer.phase = .verifying → (∃ m, c.transfer.parts = some m ∧ m.isComplete) ∧
    c.transfer.signature.isSome ∧ ∃ task ∈ c.tasks, task.isDelta = false
  current : c.transfer.phase.isFinal = false → ∀ task ∈ c.tasks, task.epoch = c.transfer.epoch

theorem Orderly.consistent (h : Orderly c) (hp : c.transfer.phase.isFinal = false → Placed c) : Consistent c := by
  have hopens : ∀ {p : Phase}, p.isFinal = false → c.transfer.phase = p → c.transfer.Standing c.tasks := fun hf he =>
    (hp (he ▸ hf)).standing
  refine ⟨by rw [h.released], h.gone, fun ho => (hp ho).handle, fun ho hnone => ?_, fun ho hsome => ?_,
    fun hphase => ?_, fun hphase => ?_, fun hphase => ?_, h.current⟩
  · cases (hp ho).standing with
    | waiting planned _ _ phase => exact ⟨planned, by rcases phase with h | h <;> simp [h]⟩
    | looking planned _ _ phase => exact ⟨planned, by rcases phase with h | h <;> simp [h]⟩
    | fetching parts => exact nomatch parts.symm.trans hnone
    | verifying parts => exact nomatch parts.symm.trans hnone
  · cases (hp ho).standing with
    | waiting _ unmapped => simp [unmapped] at hsome
    | looking _ unmapped => simp [unmapped] at hsome
    | fetching _ _ phase => exact phase.imp id .inl
    | verifying _ _ _ phase => exact .inr (.inr phase)
  · have hstanding : c.transfer.Standing c.tasks := by
      rcases hphase with he | he
      · exact hopens rfl he
      · exact hopens rfl he
    cases hstanding with
    | waiting _ _ _ phase => rcases hphase with h | h <;> simp [h] at phase
    | looking _ _ signed _ alone delta => exact ⟨signed, by rw [alone]; simp [delta]⟩
    | fetching _ _ phase => rcases hphase with h | h <;> simp [h] at phase
    | verifying _ _ _ phase => rcases hphase with h | h <;> simp [h] at phase
  · cases hopens rfl hphase with
    | waiting _ _ _ phase => simp [hphase] at phase
    | looking _ _ _ phase => simp [hphase] at phase
    | fetching parts missing => exact ⟨_, parts, missing⟩
    | verifying _ _ _ phase => exact nomatch hphase.symm.trans phase
  · cases hopens rfl hphase with
    | waiting _ _ _ phase => simp [hphase] at phase
    | looking _ _ _ phase => simp [hphase] at phase
    | fetching _ _ phase => simp [hphase] at phase
    | verifying parts complete signed _ hashing busy =>
      obtain ⟨task, ht⟩ := List.exists_mem_of_ne_nil _ busy
      exact ⟨⟨_, parts, complete⟩, signed, task, ht, hashing task ht⟩

/-- In every course of a transfer of a file that is not empty, phase, part map, signature, temp file and jobs under way
fit each other; and a signature once held is held until the transfer is over. -/
theorem phases_consistent {target : Target} {tuning : Tuning} {admission : Admission} {disk made : Disk} {t : Transfer}
    (h : Transfer.create target tuning admission disk = (.ok t, made)) (hpos : 0 < target.size)
    (events more : List Event) :
    let c := (start t).run events
    Consistent c ∧ ∀ s, c.transfer.signature = some s → (c.run more).transfer.signature = some s ∨
      (c.run more).transfer.signature = none ∧ (c.run more).transfer.released := by
  have huntouched := Transfer.create_untouched h
  have hstart : Orderly (start t) := orderly_start huntouched
  have hplaced : Placed (start t) := placed_start huntouched (Nat.ne_of_gt hpos)
  intro c
  have hc : Orderly c := hstart.run events
  have hp : c.transfer.phase.isFinal = false → Placed c := hstart.placed_run (fun _ => hplaced) events
  exact ⟨hc.consistent hp, fun s hs => hc.signature_run hs more⟩

/-- A byte that came is being hashed; then the caller loses patience. -/
theorem one_phases_consistent :
    0 < (plainTarget 1).size ∧ Consistent ((start (plainTransfer 1 .standard .swarming)).run oneEvents) ∧
      ((start (plainTransfer 1 .standard .swarming)).run oneEvents).transfer.phase = .verifying ∧
      (((start (plainTransfer 1 .standard .swarming)).run oneEvents).run [.abort]).transfer.released := by
  obtain ⟨hconsistent, hkept⟩ := phases_consistent (create_plain 1 .standard .swarming) (by decide) oneEvents [.abort]
  refine ⟨by decide, hconsistent, ?_, ?_⟩
  · rw [run_oneEvents]
    rfl
  · rw [run_oneEvents]
    rfl

end Course

end FileSwarm
