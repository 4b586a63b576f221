import FileSwarm.Proofs.Transfer.Attempts
import FileSwarm.Proofs.Transfer.Owing

/-!
# What a transfer holds in each phase

* `Task.Suits p` : the jobs that go with a phase;
* `Staged t l` : what an open transfer holds in its phase, and the jobs under way; `Alone t` : nobody is attached in
  the first phase, unless it is not known yet what is needed;
* `Keeps n c` : both, in a sound course; `Opens.staged`, `Outcome.staged` : they are kept;
* `Tidy c` : no file is hashed but in the phase for it; `Outcome.tidy` : that is kept while no bytes come meanwhile.
-/

namespace FileSwarm

/-- The job belongs to the phase; a job that hashes may be left over when everything is fetched again. -/
def Task.Suits (p : Phase) : Task → Prop
  | search .. | searched .. => p = .matching
  | copy .. | copied .. => p = .copying
  | hash .. | hashed .. => p = .verifying ∨ p = .downloading

namespace Transfer

variable {t u : Transfer} {l : List Task}

/-- What an open transfer holds in its phase, and the jobs under way. -/
structure Staged (t : Transfer) (l : List Task) : Prop where
  suits : ∀ task ∈ l, task.Suits t.phase
  mapped : t.parts.isSome → t.phase = .initial ∨ t.phase = .downloading ∨ t.phase = .verifying
  unmapped : t.parts = none → t.phase = .initial ∨ t.phase = .requestingSignature ∨ t.phase = .matching ∨
    t.phase = .copying
  signed : t.phase = .matching ∨ t.phase = .copying → t.signature.isSome
  unasked : t.phase = .initial → ∀ k, (k, Call.signature) ∉ t.sent

/-- Nobody is attached to a transfer that is in the first phase and knows what it needs. -/
def Alone (t : Transfer) : Prop := t.phase = .initial → t.parts.isSome → t.shares = []

namespace Staged

theorem idle (h : t.Staged l) (hp : t.phase = .initial ∨ t.phase = .requestingSignature) : l = [] := by
  apply List.eq_nil_iff_forall_not_mem.2
  intro task hm
  have hsuits := h.suits task hm
  rcases hp with hp | hp <;> rw [hp] at hsuits <;> cases task <;> simp [Task.Suits] at hsuits

theorem waiting (h : t.Staged l) (hparts : t.parts = none) (hsignature : t.signature = none) :
    t.phase = .initial ∨ t.phase = .requestingSignature := by
  rcases h.unmapped hparts with hp | hp | hp | hp
  · exact .inl hp
  · exact .inr hp
  · have := h.signed (.inl hp)
    simp [hsignature] at this
  · have := h.signed (.inr hp)
    simp [hsignature] at this

theorem hashing (h : t.Staged l) (hparts : t.parts.isSome) {task : Task} (hm : task ∈ l) :
    ∀ p, p = .verifying ∨ p = .downloading → task.Suits p := by
  intro p hp
  have hsuits := h.suits task hm
  have hmapped := h.mapped hparts
  cases task with
  | hash | hashed => exact hp
  | _ =>
    change t.phase = _ at hsuits
    rw [hsuits] at hmapped
    simp at hmapped

theorem of_eq (h : t.Staged l) (hphase : u.phase = t.phase) (hparts : u.parts = t.parts)
    (hsignature : u.signature = t.signature)
    (hsent : ∀ k, (k, Call.signature) ∈ u.sent → (k, Call.signature) ∈ t.sent) : u.Staged l := by
  refine ⟨?_, ?_, ?_, ?_, fun hp k hk => h.unasked (hphase ▸ hp) k (hsent k hk)⟩
  · rw [hphase]
    exact h.suits
  · rw [hphase, hparts]
    exact h.mapped
  · rw [hphase, hparts]
    exact h.unmapped
  · rw [hphase, hsignature]
    exact h.signed

/-- Something is needed, or hashed, and no job looks at the local copy. -/
theorem of_mapped {p : Phase} (hphase : t.phase = p) (hp : p = .downloading ∨ p = .verifying) (hparts : t.parts.isSome)
    (hl : ∀ task ∈ l, task.Suits p) : t.Staged l := by
  refine ⟨by rwa [hphase], fun _ => ?_, fun hnone => ?_, fun hdelta => ?_, fun hinitial => ?_⟩
  · rw [hphase]
    exact .inr hp
  · simp [hnone] at hparts
  · rw [hphase] at hdelta
    rcases hp with rfl | rfl <;> simp at hdelta
  · rw [hphase] at hinitial
    rcases hp with rfl | rfl <;> cases hinitial

theorem sendRequests (h : t.Staged l) : t.sendRequests.Staged l := by
  have hparts : t.sendRequests.parts.isSome = t.parts.isSome := by
    refine sendRequests_induction (P := fun u => u.parts.isSome = t.parts.isSome) (fun _ _ _ h => h) ?_ rfl
    intro u v m r i s ha hu
    obtain ⟨hm, -, -, -, links, sent, rfl⟩ := ha
    rw [← hu, hm]
    rfl
  refine ⟨?_, ?_, fun hnone => ?_, ?_, ?_⟩
  · simpa using h.suits
  · rw [hparts]
    simpa using h.mapped
  · have hbefore : t.parts = none := by
      rw [← Option.not_isSome_iff_eq_none, ← hparts, hnone]
      exact nofun
    simpa using h.unmapped hbefore
  · simpa using h.signed
  · intro hp k hk
    exact h.unasked (by simpa using hp) k (((aside_sendRequests t).calls k).1 hk)

theorem fetchAll (h : t.phase = .initial ∨ t.phase = .requestingSignature) (hs : t.Staged l) : t.fetchAll.Staged l := by
  rw [hs.idle h]
  exact of_mapped (fetchAll_phase t) (.inl rfl) (by simp) nofun

theorem ensureSignature (h : t.Staged l) : t.ensureSignature.Staged l := by
  rcases ensureSignature_cases t with e | ⟨⟨-, hparts, hsignature, -⟩, owing, e⟩
  · rw [e]
    exact h
  · have hwaiting := h.waiting hparts hsignature
    have howing : ({ t with owing } : Transfer).Staged l := h.of_eq rfl rfl rfl fun _ => id
    rw [e]
    rcases askSignature_cases { t with owing } with ⟨s, -, -, -, -, e⟩ | e | ⟨-, e⟩
    · rw [e, h.idle hwaiting]
      refine ⟨nofun, ?_, fun _ => ?_, ?_, ?_⟩ <;> simp [hparts]
    · rw [e]
      exact howing
    · rw [e]
      exact howing.fetchAll hwaiting

theorem enter (h : t.Staged l) : t.enter.Staged l ∧ (t.enter.phase = .initial → t.enter.parts = none) := by
  unfold Transfer.enter
  split
  · next hearly =>
    rw [Bool.and_eq_true, decide_eq_true_eq] at hearly
    rw [h.idle (.inl hearly.1)]
    exact ⟨of_mapped (setPhase_phase _ _) (.inl rfl) (by simpa using hearly.2) nofun, by simp⟩
  · next hlate =>
    refine ⟨h, fun hp => ?_⟩
    simpa [hp] using hlate

end Staged

theorem idle_sendRequests (t : Transfer) :
    (t.sendRequests.parts.isSome → t.parts.isSome) ∧ (t.shares = [] → t.sendRequests.shares = []) := by
  refine sendRequests_induction (P := fun u => (u.parts.isSome → t.parts.isSome) ∧ (t.shares = [] → u.shares = []))
    (fun _ _ _ h => h) ?_ ⟨id, id⟩
  intro u v m r i s ha ⟨hparts, hshares⟩
  obtain ⟨hm, -, -, -, links, sent, rfl⟩ := ha
  refine ⟨fun _ => hparts (by rw [hm]; rfl), fun hnone => ?_⟩
  simp [hshares hnone]

theorem alone_sendRequests (h : t.Alone) : t.sendRequests.Alone := by
  obtain ⟨hparts, hshares⟩ := idle_sendRequests t
  intro hp hsome
  exact hshares (h (by simpa using hp) (hparts hsome))

theorem alone_ensureSignature (h : t.Alone) : t.ensureSignature.Alone := by
  rcases ensureSignature_cases t with e | ⟨⟨-, hparts, -⟩, owing, e⟩
  · rw [e]
    exact h
  · rw [e]
    rcases askSignature_cases { t with owing } with ⟨s, -, -, -, -, e⟩ | e | ⟨-, e⟩
    · rw [e]
      intro hp
      simp at hp
    · rw [e]
      exact h
    · rw [e]
      intro hp
      simp at hp

end Transfer

namespace Course

variable {n : Nat} {c : Course} {e : Event}

/-- What is known of an open course beside its phases: its jobs, and who is attached. -/
structure Keeps (n : Nat) (c : Course) : Prop where
  isOpen : c.transfer.phase.isFinal = false
  sound : Sound n c
  staged : c.transfer.Staged c.tasks
  alone : c.transfer.Alone

section Keeps

variable {u v : Transfer} {l : List Task}

theorem Keeps.attached (h : Keeps n c) (hparts : c.transfer.parts.isSome) (hattached : c.transfer.shares ≠ []) :
    c.transfer.phase = .downloading ∨ c.transfer.phase = .verifying :=
  (h.staged.mapped hparts).resolve_left fun hp => hattached (h.alone hp hparts)

theorem not_nil_of_attached {t : Transfer} {id : String} (h : t.isAttached id) : t.shares ≠ [] := by
  intro hnil
  simp [Transfer.isAttached, hnil] at h

/-- Where a job looks at the local copy there is no part map, and it is the only job. -/
theorem Keeps.only (h : Keeps n c) {i : Nat} {task : Task} (here : c.tasks[i]? = some task) (hd : task.isDelta) :
    c.transfer.parts = none ∧ c.tasks.length ≤ 1 := by
  have hunmapped : c.transfer.parts = none := by
    by_contra hmapped
    have hdelta := h.sound.mapped h.isOpen (Option.isSome_iff_ne_none.2 hmapped) _ (List.mem_of_getElem? here)
    exact nomatch hdelta.symm.trans hd
  exact ⟨hunmapped, (h.sound.unmapped h.isOpen hunmapped).1⟩

/-- Bytes are there: the phase this can happen in, and the jobs that go on. -/
theorem Fills.phase {m : PartMap} (hf : Fills c e v m l) (h : Keeps n c) :
    (c.transfer.phase = .downloading ∨ c.transfer.phase = .verifying ∨ c.transfer.phase = .copying ∧ l = []) ∧
      ∀ task ∈ l, ∀ p, p = .verifying ∨ p = .downloading → task.Suits p := by
  cases hf with
  | @chunk id offset bytes m temp disk attached pos inside parts =>
    have hmapped : c.transfer.parts.isSome := by rw [parts]; rfl
    exact ⟨(h.attached hmapped (not_nil_of_attached attached)).imp_right .inl,
      fun task hm => h.staged.hashing hmapped hm⟩
  | copied here =>
    obtain ⟨-, halone⟩ := h.only here rfl
    have hnil := replaced_alone here halone
    rw [erased] at hnil
    refine ⟨.inr (.inr ⟨h.staged.suits _ (List.mem_of_getElem? here), hnil⟩), ?_⟩
    rw [hnil]
    exact nofun

theorem Keeps.seat (h : Keeps n c) (share : Share) (answers : Nat → Bool) :
    (c.transfer.seat share answers).Staged c.tasks := by
  refine h.staged.of_eq rfl rfl rfl fun k hk => ?_
  rw [Transfer.seat, Array.mem_push] at hk
  exact hk.resolve_right fun he => by cases (Prod.mk.inj he).2

theorem Keeps.start (h : Keeps n c) (id : String) : (c.transfer.updateShare id Share.start).Staged c.tasks :=
  h.staged.of_eq rfl rfl rfl fun _ h => h

theorem isSome_detach (t : Transfer) (s : Share) : (t.detach s).parts.isSome = t.parts.isSome := Option.isSome_map

theorem Keeps.detach (h : Keeps n c) (s : Share) : (c.transfer.detach s).Staged c.tasks := by
  refine ⟨h.staged.suits, fun hp => h.staged.mapped (isSome_detach c.transfer s ▸ hp), fun hnone => ?_,
    h.staged.signed, h.staged.unasked⟩
  exact h.staged.unmapped (Option.map_eq_none_iff.1 hnone)

theorem Opens.staged (ho : Opens c e u l) (h : Keeps n c) : u.Staged l ∧ u.Alone := by
  have hdownload : ∀ {w : Transfer} {k : List Task}, w.parts.isSome →
      (∀ task ∈ k, ∀ p, p = .verifying ∨ p = .downloading → task.Suits p) →
      (w.setPhase .downloading).Staged k ∧ (w.setPhase .downloading).Alone := fun hw hk =>
    ⟨.of_mapped (Transfer.setPhase_phase _ _) (.inl rfl) (by simpa using hw) fun task hm => hk task hm _ (.inr rfl),
      fun hp => by simp at hp⟩
  cases ho with
  | @join share answers =>
    obtain ⟨henter, hgone⟩ := (h.seat share answers).enter
    have halone : (c.transfer.seat share answers).enter.Alone := fun hp hparts => by simp [hgone hp] at hparts
    exact ⟨henter.ensureSignature, Transfer.alone_ensureSignature halone⟩
  | @ready id =>
    have halone : (c.transfer.updateShare id Share.start).Alone := fun hp hparts => by
      rw [Transfer.updateShare, h.alone hp hparts]
      rfl
    exact ⟨(h.start id).ensureSignature, Transfer.alone_ensureSignature halone⟩
  | @leave id s share =>
    have halone : (c.transfer.detach s).Alone := fun hp hsome => by
      rw [Transfer.detach, h.alone hp (isSome_detach c.transfer s ▸ hsome)]
      rfl
    exact ⟨(h.detach s).ensureSignature, Transfer.alone_ensureSignature halone⟩
  | @chunk id offset bytes v m l fills incomplete =>
    obtain ⟨hphase, hjobs⟩ := fills.phase h
    cases fills with
    | @chunk _ _ _ m _ disk attached _ _ parts =>
      have hmapped : c.transfer.parts.isSome := by rw [parts]; rfl
      have hwhere := h.attached hmapped (not_nil_of_attached attached)
      refine ⟨.of_mapped (p := c.transfer.phase) rfl hwhere rfl h.staged.suits, fun hp => ?_⟩
      have hinitial : c.transfer.phase = .initial := hp
      rcases hwhere with hw | hw <;> cases hinitial.symm.trans hw
  | @fetch s fits unsigned unmapped =>
    have hlearned : Transfer.Staged { c.transfer with signature := some s, owing := none } c.tasks :=
      ⟨h.staged.suits, h.staged.mapped, h.staged.unmapped, fun _ => rfl, h.staged.unasked⟩
    refine ⟨hlearned.fetchAll (h.staged.waiting unmapped unsigned), fun hp => ?_⟩
    simp at hp
  | send => exact ⟨h.staged, h.alone⟩
  | @copied i v m l fills incomplete =>
    refine hdownload ?_ (fills.phase h).2
    rw [(fills.tacit h.isOpen).2.2.1]
    rfl
  | @failed i here again =>
    refine hdownload (w := c.transfer.afresh) rfl fun task hm => ?_
    have hmem := List.mem_of_getElem? here
    have hmapped : c.transfer.parts.isSome := by
      by_contra hnone
      have hdelta := (h.sound.unmapped h.isOpen (by simpa using hnone)).2 _ hmem
      cases hdelta
    exact h.staged.hashing hmapped (mem_of_mem_erased task hm)

theorem suits_step {t w : Transfer} {task next : Task} (hstep : task.step t = (w, some next))
    (hhands : next.isWork = false) {p : Phase} (h : task.Suits p) : next.Suits p := by
  have hnext := congrArg Prod.snd hstep
  cases task with
  | search | copy | hash =>
    obtain rfl := Option.some.inj hnext
    exact h
  | searched epoch s candidate temp found =>
    cases found with
    | error f => cases hnext
    | ok l =>
      -- a search that is handed in is followed by another step of work
      simp only [Task.step] at hnext
      split at hnext
      · obtain rfl := Option.some.inj hnext
        cases hhands
      · cases hnext
  | copied | hashed => cases hnext

theorem replaced_only {α : Type} {l : List α} {i : Nat} {a : α} (h : l[i]? = some a) (hle : l.length ≤ 1) (b : α) :
    l.take i ++ [b] ++ l.drop (i + 1) = [b] := by
  match l, i, hle, h with
  | [_], 0, _, _ => rfl

/-- A transfer that goes on holds what its phase calls for after every outcome. -/
theorem Outcome.staged (ho : Outcome c e u l) (h : Keeps n c) (hnext : u.phase.isFinal = false) :
    (settle u l).transfer.Staged (settle u l).tasks ∧ (settle u l).transfer.Alone := by
  have hidle : ∀ {w : Transfer} {k : List Task}, w.outbox.jobs = c.transfer.outbox.jobs → w.Staged k → w.Alone →
      (settle w k).transfer.Staged (settle w k).tasks ∧ (settle w k).transfer.Alone := fun hjobs hs ha => by
    rw [settle_idle (hjobs.trans h.sound.settled)]
    exact ⟨hs.of_eq rfl rfl rfl fun _ h => h, ha⟩
  have hjob : ∀ {w : Transfer} {k : List Task} {j : Job}, w.outbox.jobs = [j] → w.Staged (k ++ [Task.ofJob j]) →
      w.phase ≠ .initial → (settle w k).transfer.Staged (settle w k).tasks ∧ (settle w k).transfer.Alone :=
    fun hjobs hs hw => by
      rw [settle_job hjobs]
      exact ⟨hs.of_eq rfl rfl rfl fun _ h => h, fun hp => absurd hp hw⟩
  cases ho with
  | same => exact hidle rfl h.staged h.alone
  | connected => exact hidle rfl (h.staged.of_eq rfl rfl rfl fun _ h => h) h.alone
  | round opens =>
    obtain ⟨hs, ha⟩ := opens.staged h
    have htacit := opens.tacit h.isOpen
    exact hidle ((Transfer.onward_sendRequests htacit.isOpen).jobs.trans htacit.jobs) hs.sendRequests
      (Transfer.alone_sendRequests ha)
  | @assembled _ v m l s fills complete signed =>
    obtain ⟨htacit, -, hparts, -⟩ := fills.tacit h.isOpen
    refine hjob (j := .verify c.transfer.epoch s.digest) ?_ ?_ (by simp [Transfer.queueJob])
    · simp [Transfer.queueJob, htacit.jobs, h.sound.settled]
    · refine .of_mapped (p := .verifying) (by simp [Transfer.queueJob]) (.inr rfl) (by simp [Transfer.queueJob, hparts])
        fun task hm => ?_
      rcases List.mem_append.1 hm with hm | hm
      · exact (fills.phase h).2 task hm _ (.inl rfl)
      · rw [List.mem_singleton.1 hm]
        exact .inl rfl
  | closed closes => exact absurd hnext closes.not_open
  | learned =>
    exact hidle rfl ⟨h.staged.suits, h.staged.mapped, h.staged.unmapped, fun _ => rfl, h.staged.unasked⟩ h.alone
  | @searching s candidate temp fits unsigned unmapped =>
    refine hjob (j := .matchAndCopy c.transfer.epoch s candidate temp) ?_ ?_ (by simp [Transfer.queueJob])
    · simp [Transfer.queueJob, h.sound.settled]
    · rw [h.sound.unsigned h.isOpen unsigned]
      refine ⟨fun task hm => ?_, ?_, ?_, ?_, ?_⟩
      · rw [List.mem_singleton.1 hm]
        exact Transfer.setPhase_phase _ _
      · simp [Transfer.queueJob, unmapped]
      · simp [Transfer.queueJob]
      · simp [Transfer.queueJob]
      · simp [Transfer.queueJob]
  | @worked i task next disk here step follows =>
    refine hidle rfl ⟨fun a ha => ?_, h.staged.mapped, h.staged.unmapped, h.staged.signed, h.staged.unasked⟩ h.alone
    rcases mem_replaced (r := some next) ha with ha | ha
    · exact h.staged.suits a ha
    · rw [← Option.some.inj ha]
      exact suits_step step follows.hands (h.staged.suits task (List.mem_of_getElem? here))
  | @matched i s candidate temp found here =>
    obtain ⟨hunmapped, halone⟩ := h.only here rfl
    have hmatching : c.transfer.phase = .matching := h.staged.suits _ (List.mem_of_getElem? here)
    rw [replaced_only here halone]
    refine hidle (by simp) ⟨fun a ha => ?_, ?_, ?_, ?_, ?_⟩ fun hp => by simp at hp
    · rw [List.mem_singleton.1 ha]
      exact Transfer.setPhase_phase _ _
    · simp [hunmapped]
    · simp
    · simpa using h.staged.signed (.inl hmatching)
    · simp
  | @dropped _ i task here stale =>
    exact hidle rfl ⟨fun a ha => h.staged.suits a (mem_of_mem_erased a ha), h.staged.mapped, h.staged.unmapped,
      h.staged.signed, h.staged.unasked⟩ h.alone
  | edited => exact hidle rfl (h.staged.of_eq rfl rfl rfl fun _ h => h) h.alone

/-! ## One file hashed at a time -/

/-- No file is hashed but in the phase for it, and by one job. -/
def Tidy (c : Course) : Prop :=
  ∀ task ∈ c.tasks, task.isDelta = false → c.transfer.phase = .verifying ∧ c.tasks.length ≤ 1

theorem Tidy.of_fewer {l : List Task} (h : Tidy c) (hphase : c.transfer.phase = .verifying → u.phase = .verifying)
    (hl : ∀ task ∈ l, task ∈ c.tasks) (hlen : l.length ≤ c.tasks.length) : Tidy ⟨u, l⟩ := fun task hm hd =>
  let ⟨hverifying, hone⟩ := h task (hl task hm) hd
  ⟨hphase hverifying, Nat.le_trans hlen hone⟩

theorem tidy_of_delta (h : ∀ task ∈ l, task.isDelta) : Tidy ⟨u, l⟩ := fun task hm hd =>
  nomatch hd.symm.trans (h task hm)

theorem Tidy.searching (h : Tidy c) (hp : c.transfer.phase ≠ .verifying) : ∀ task ∈ c.tasks, task.isDelta := by
  intro task hm
  by_contra hd
  exact hp (h task hm (by simpa using hd)).1

theorem Fills.alone {m : PartMap} (hf : Fills c e v m l) (h : Keeps n c) (hc : Tidy c)
    (hquiet : c.transfer.phase = .verifying → e.isChunk = false) : l = [] := by
  cases hf with
  | chunk _ _ _ parts =>
    have hmapped : c.transfer.parts.isSome := by rw [parts]; rfl
    have hdelta := hc.searching fun hp => nomatch hquiet hp
    apply List.eq_nil_iff_forall_not_mem.2
    intro task hm
    exact nomatch (h.sound.mapped h.isOpen hmapped task hm).symm.trans (hdelta task hm)
  | copied here =>
    have halone := replaced_alone here (h.only here rfl).2
    rwa [erased] at halone

/-- Where a file is hashed nothing is asked for before its hash is known. -/
theorem Opens.verifying (ho : Opens c e u l) (h : Keeps n c) (hc : Tidy c) (hquiet : e.isChunk = false)
    (hp : c.transfer.phase = .verifying) : l = [] ∨ u.phase = .verifying ∧ l = c.tasks := by
  have hmapped : c.transfer.parts.isSome := by
    rw [Option.isSome_iff_ne_none]
    intro hnone
    have := h.staged.unmapped hnone
    simp [hp] at this
  have hsettled : ∀ {t : Transfer}, t.phase = .verifying → t.parts.isSome → t.ensureSignature.phase = .verifying :=
    fun ht hparts => by
      rw [Transfer.ensureSignature, if_pos (by simp [hparts]), ht]
  cases ho with
  | @join share answers =>
    refine .inr ⟨?_, rfl⟩
    rw [Transfer.enter, if_neg (by simp [Transfer.seat, hp])]
    exact hsettled hp hmapped
  | ready => exact .inr ⟨hsettled hp hmapped, rfl⟩
  | leave => exact .inr ⟨hsettled hp ((isSome_detach _ _).trans hmapped), rfl⟩
  | chunk => cases hquiet
  | fetch _ _ unmapped => simp [unmapped] at hmapped
  | send => exact .inr ⟨hp, rfl⟩
  | copied fills =>
    cases fills with
    | copied here => simp [(h.only here rfl).1] at hmapped
  | failed here =>
    have halone := replaced_alone here (hc _ (List.mem_of_getElem? here) rfl).2
    rw [erased] at halone
    exact .inl halone

/-- Jobs hash in the phase for it alone, as long as no bytes come meanwhile. -/
theorem Outcome.tidy (ho : Outcome c e u l) (h : Keeps n c) (hnext : u.phase.isFinal = false) (hc : Tidy c)
    (hquiet : c.transfer.phase = .verifying → e.isChunk = false) : Tidy (settle u l) := by
  have hidle : ∀ {w : Transfer} {k : List Task}, w.outbox.jobs = c.transfer.outbox.jobs → Tidy ⟨w, k⟩ →
      Tidy (settle w k) := fun hjobs hk => by
    rw [settle_idle (hjobs.trans h.sound.settled)]
    exact hk
  have hsame : ∀ {w : Transfer}, w.phase = c.transfer.phase → Tidy ⟨w, c.tasks⟩ := fun hw =>
    hc.of_fewer (fun hp => hw.trans hp) (fun _ => id) (Nat.le_refl _)
  cases ho with
  | same => exact hidle rfl hc
  | connected => exact hidle rfl (hsame rfl)
  | @round _ v _ opens =>
    have htacit := opens.tacit h.isOpen
    refine hidle ((Transfer.onward_sendRequests htacit.isOpen).jobs.trans htacit.jobs) ?_
    by_cases hp : c.transfer.phase = .verifying
    · rcases opens.verifying h hc (hquiet hp) hp with rfl | ⟨hv, rfl⟩
      · exact tidy_of_delta nofun
      · exact hc.of_fewer (fun _ => by simpa using hv) (fun _ => id) (Nat.le_refl _)
    · exact tidy_of_delta fun task hm => hc.searching hp task (opens.rest task hm)
  | @assembled _ v m l s fills =>
    rw [settle_job (j := .verify c.transfer.epoch s.digest)
      (by simp [Transfer.queueJob, (fills.tacit h.isOpen).1.jobs, h.sound.settled]), fills.alone h hc hquiet]
    exact fun _ _ _ => ⟨by simp [Transfer.queueJob], Nat.le_refl 1⟩
  | closed closes => exact absurd hnext closes.not_open
  | learned => exact hidle rfl (hsame rfl)
  | @searching s candidate temp _ unsigned =>
    rw [settle_job (j := .matchAndCopy c.transfer.epoch s candidate temp)
      (by simp [Transfer.queueJob, h.sound.settled]), h.sound.unsigned h.isOpen unsigned]
    exact tidy_of_delta fun task hm => by rw [List.mem_singleton.1 hm]; rfl
  | @worked i task next disk here step follows =>
    refine hidle rfl fun a ha hd => ?_
    have hlen := length_replaced (List.getElem?_eq_some_iff.1 here).1 (some next)
    obtain ⟨hp, hone⟩ : c.transfer.phase = .verifying ∧ c.tasks.length ≤ 1 := by
      rcases mem_replaced (r := some next) ha with ha | ha
      · exact hc a ha hd
      · obtain rfl := Option.some.inj ha
        exact hc task (List.mem_of_getElem? here) (follows.kind ▸ hd)
    exact ⟨hp, Nat.le_trans hlen hone⟩
  | matched here =>
    rw [replaced_only here (h.only here rfl).2]
    exact hidle (by simp) (tidy_of_delta fun task hm => by rw [List.mem_singleton.1 hm]; rfl)
  | dropped here stale =>
    exact hidle rfl (hc.of_fewer id mem_of_mem_erased (List.length_eraseIdx_le _ _))
  | edited => exact hidle rfl (hsame rfl)

end Keeps

end Course

end FileSwarm
