import FileSwarm.Proofs.Transfer.Fidelity
import FileSwarm.Proofs.Transfer.Phases
import FileSwarm.Proofs.Transfer.Requesting

/-!
# Bytes that are there stay there

Nothing but a wrong hash takes away what is there. As long as what is there agrees with the file no hash is wrong.

* `Transfer.Grows t u` : bytes that are there stay there, and what is pending is owed; `grows_sendRequests`,
  `grows_ensureSignature`, `grows_detach`, `grows_credited`, `Outcome.grows`;
* `Transfer.available_below` : when nobody is attached, all bytes before the first needed one are there;
* `Agrees D c` : what is there is of `D`; `Assured c` : what is hashed is all of the file, and no hash was wrong;
* `Upheld D n c` : an open course with both; `Upheld.hash_right`, `Upheld.assured_next`, `Upheld.busy`;
* `upheld_run`, `grows_run` : so it is all along a course.
-/

namespace FileSwarm

namespace Transfer

variable {t u v : Transfer}

/-! ## Bytes that stay -/

/-- What is pending is owed by some peer. -/
def Backed (t : Transfer) : Prop := ∀ o, t.stateAt o = some .pending → 0 < owedAt t.shares o

/-- Bytes that are there stay there, and what is pending is owed afterwards if it was before. -/
structure Grows (t u : Transfer) : Prop where
  available : ∀ o, t.stateAt o = some .available → u.stateAt o = some .available
  backed : t.Backed → u.Backed

theorem Grows.refl (t : Transfer) : Grows t t := ⟨fun _ h => h, fun h => h⟩

theorem Grows.trans (h : Grows t u) (k : Grows u v) : Grows t v :=
  ⟨fun o ho => k.available o (h.available o ho), fun hb => k.backed (h.backed hb)⟩

theorem stateAt_eq {m : PartMap} (hm : t.parts = some m) (o : Nat) : t.stateAt o = m.state? o := by
  rw [stateAt, hm]
  rfl

theorem stateAt_unmapped (h : t.parts = none) (o : Nat) : t.stateAt o = none := by
  rw [stateAt, h]
  rfl

theorem backed_of_clean (h : ∀ o, t.stateAt o ≠ some .pending) : t.Backed := fun o ho => absurd ho (h o)

theorem grows_of_owed (hparts : u.parts = t.parts) (howed : ∀ o, owedAt t.shares o ≤ owedAt u.shares o) :
    Grows t u := by
  have hstate : ∀ o, u.stateAt o = t.stateAt o := by
    intro o
    rw [stateAt, stateAt, hparts]
  refine ⟨fun o ho => (hstate o).trans ho, fun hb o ho => ?_⟩
  rw [hstate] at ho
  exact Nat.lt_of_lt_of_le (hb o ho) (howed o)

theorem grows_congr (hparts : u.parts = t.parts) (hshares : u.shares = t.shares) : Grows t u := by
  apply grows_of_owed hparts
  intro o
  rw [hshares]

/-- Where nothing is there yet any map will do that leaves nothing pending. -/
theorem grows_unmapped (hparts : t.parts = none) (hclean : ∀ o, u.stateAt o ≠ some .pending) : Grows t u := by
  refine ⟨fun o ho => ?_, fun _ => backed_of_clean hclean⟩
  rw [stateAt_unmapped hparts] at ho
  exact nomatch ho

theorem grows_assigns {m : PartMap} {r : ByteRange} {i : Nat} {s : Share} (h : Assigns t m r i s u) : Grows t u := by
  obtain ⟨-, hneeded⟩ := h.needed
  obtain ⟨hm, -, hs, -, links, sent, rfl⟩ := h
  refine ⟨fun o ho => ?_, fun hb o ho => ?_⟩
  · rw [stateAt_eq hm] at ho
    show (m.set r .pending).state? o = some .available
    rw [PartMap.state?_set_of_not_mem, ho]
    intro hin
    exact nomatch ho.symm.trans (hneeded o hin)
  · change (m.set r .pending).state? o = some .pending at ho
    show 0 < owedAt (t.shares.set i (s.owe r)) o
    rw [owedAt_owe hs]
    split
    · exact Nat.succ_pos _
    · next hin =>
      rw [PartMap.state?_set_of_not_mem hin] at ho
      exact hb o ((stateAt_eq hm o).trans ho)

theorem grows_sendRequests (t : Transfer) : Grows t t.sendRequests := by
  apply sendRequests_induction (P := Grows t)
  · intro u links sent h
    exact h.trans (grows_congr rfl rfl)
  · intro u m r i s v ha h
    exact h.trans (grows_assigns ha)
  · exact .refl t

theorem grows_setPhase (t : Transfer) (p : Phase) : Grows t (t.setPhase p) := grows_congr (by simp) (by simp)

theorem grows_ensureSignature (t : Transfer) : Grows t t.ensureSignature := by
  rcases ensureSignature_cases t with e | ⟨⟨-, hunmapped, -⟩, owing, e⟩
  · rw [e]
    exact .refl t
  · rw [e]
    rcases askSignature_cases { t with owing } with ⟨s, -, -, -, -, e⟩ | e | ⟨-, e⟩
    · rw [e]
      exact grows_congr (by simp) (by simp)
    · rw [e]
      exact grows_congr rfl rfl
    · rw [e]
      exact grows_unmapped hunmapped (stateAt_blank_ne (fetchAll_parts _))

theorem grows_detach {id : String} {s : Share} (hs : t.share? id = some s) : Grows t (t.detach s) := by
  have herase : ∀ o, s.pending.countP (o ∈ ·) + owedAt (t.detach s).shares o = owedAt t.shares o :=
    owedAt_erase (by rw [id_of_share? hs]; exact hs)
  refine ⟨fun o ho => ?_, fun hb o ho => ?_⟩
  · rw [stateAt_detach, if_neg, ho]
    rintro ⟨hpending, -⟩
    exact nomatch ho.symm.trans hpending
  · rw [stateAt_detach] at ho
    split at ho
    · exact nomatch ho
    · next hkept =>
      have hpos := hb o ho
      have hnone : s.pending.countP (o ∈ ·) = 0 := by
        rw [List.countP_eq_zero]
        intro r hr hin
        exact hkept ⟨ho, r, hr, by simpa using hin⟩
      have := herase o
      omega

theorem grows_credited {m : PartMap} (hm : t.parts = some m) (id : String) (r : ByteRange) :
    Grows t (t.credited id r m) := by
  have hset : ∀ o, (t.credited id r m).stateAt o = if o ∈ r ∧ o < m.length then some .available else m.state? o :=
    PartMap.state?_set m r .available
  refine ⟨fun o ho => ?_, fun hb o ho => ?_⟩
  · rw [hset, ← stateAt_eq hm, ho]
    split <;> rfl
  · rw [hset] at ho
    split at ho
    · exact nomatch ho
    · next hout =>
      have hin : o ∉ r := by
        intro hr
        exact hout ⟨hr, PartMap.lt_length ho⟩
      exact Nat.lt_of_lt_of_eq (hb o ((stateAt_eq hm o).trans ho)) ((owedAt_receive t.shares id r o).2 hin).symm

theorem grows_creditChunk (t : Transfer) (id : String) (r : ByteRange) (m : PartMap)
    (hopen : (t.creditChunk id r m).phase.isFinal = false) : Grows (t.credited id r m) (t.creditChunk id r m) := by
  change (if (m.set r .available).isComplete then (t.credited id r m).checkComplete
    else (t.credited id r m).sendRequests).phase.isFinal = false at hopen
  show Grows (t.credited id r m) (if (m.set r .available).isComplete then (t.credited id r m).checkComplete
    else (t.credited id r m).sendRequests)
  split at hopen
  · next hcomplete =>
    rw [if_pos hcomplete]
    rcases checkComplete_eq (t.credited id r m) with ⟨-, hover⟩ | ⟨s, -, e⟩
    · exact nomatch hover.final.symm.trans hopen
    · rw [e]
      exact grows_congr (by simp [queueJob]) (by simp [queueJob])
  · next hincomplete =>
    rw [if_neg hincomplete]
    exact grows_sendRequests _

theorem grows_seat (t : Transfer) (s : Share) (answers : Nat → Bool) : Grows t (t.seat s answers) := by
  refine grows_of_owed (u := t.seat s answers) rfl fun o => ?_
  show owedAt t.shares o ≤ owedAt (t.shares ++ [_]) o
  rw [owedAt_append]
  exact Nat.le_add_right _ _

theorem grows_enter (t : Transfer) : Grows t t.enter := by
  obtain ⟨-, hparts, hshares, -⟩ := enter_frame t
  exact grows_congr hparts hshares

/-- When nobody is attached nothing is pending, so all bytes before the first needed one are there. -/
theorem available_below (hb : t.Backed) (hnobody : t.shares = []) {o : Nat} (ho : o < t.offset) :
    t.stateAt o = some .available := by
  cases hm : t.parts with
  | none => simp [offset, hm] at ho
  | some m =>
    cases hr : m.first? .needed with
    | none => simp [offset, hm, hr] at ho
    | some r =>
      have hlt : o < r.start := by simpa [offset, hm, hr] using ho
      obtain ⟨hstop, -⟩ := PartMap.mem_parts (PartMap.first?_eq_some hr)
      have hle : r.start ≤ r.stop := Nat.le_add_right _ _
      obtain ⟨s, hs⟩ := PartMap.exists_state (m := m) (o := o) (by omega)
      rw [stateAt_eq hm, hs]
      cases s with
      | needed => exact absurd hs (PartMap.first?_least hr hlt)
      | available => rfl
      | pending =>
        have hpos := hb o ((stateAt_eq hm o).trans hs)
        rw [hnobody] at hpos
        exact absurd hpos (Nat.lt_irrefl 0)

/-- Every byte of the file is there. -/
def Whole (t : Transfer) : Prop := ∀ o < t.target.size, t.stateAt o = some .available

theorem Whole.grows (h : t.Whole) (hg : Grows t u) (htarget : u.target = t.target) : u.Whole := by
  intro o ho
  rw [htarget] at ho
  exact hg.available o (h o ho)

end Transfer

namespace Course

variable {D : ByteArray} {n : Nat} {c d : Course} {e : Event}

theorem Fills.grows {v : Transfer} {m : PartMap} {l : List Task} (hf : Fills c e v m l) (hp : Placed c) (hs : Sized c) :
    c.transfer.Grows v := by
  cases hf with
  | @chunk id offset bytes m temp disk attached pos inside parts =>
    have hdisk : c.transfer.Grows { c.transfer with disk } := Transfer.grows_congr rfl rfl
    exact hdisk.trans (Transfer.grows_credited (t := { c.transfer with disk }) parts id _)
  | copied here =>
    obtain ⟨-, hunmapped, -⟩ := hp.standing.alone here rfl
    exact Transfer.grows_unmapped hunmapped (hs.tasks _ (List.mem_of_getElem? here)).2

/-- Bytes stay when more is asked for, unless a hash was wrong. -/
theorem Opens.grows {u : Transfer} {l : List Task} (ho : Opens c e u l) (hp : Placed c) (hs : Sized c)
    (hright : ∀ epoch, .hashed epoch (.ok false) ∉ c.tasks) : c.transfer.Grows u := by
  cases ho with
  | @join share answers =>
    have hseat := (Transfer.grows_seat c.transfer share answers).trans (Transfer.grows_enter _)
    exact hseat.trans (Transfer.grows_ensureSignature _)
  | @ready id =>
    have hready : c.transfer.Grows (c.transfer.updateShare id Share.start) := by
      refine Transfer.grows_of_owed (u := c.transfer.updateShare id Share.start) rfl fun o => ?_
      refine Nat.le_of_eq (Transfer.owedAt_map _ o fun s => ?_).symm
      split <;> rfl
    exact hready.trans (Transfer.grows_ensureSignature _)
  | leave share => exact (Transfer.grows_detach share).trans (Transfer.grows_ensureSignature _)
  | chunk fills => exact fills.grows hp hs
  | fetch _ _ unmapped => exact Transfer.grows_unmapped unmapped (Transfer.stateAt_blank_ne (Transfer.fetchAll_parts _))
  | send => exact .refl _
  | copied fills => exact (fills.grows hp hs).trans (Transfer.grows_setPhase _ _)
  | failed here => exact absurd (List.mem_of_getElem? here) (hright _)

theorem Outcome.grows {u : Transfer} {l : List Task} (ho : Outcome c e u l) (hp : Placed c) (hs : Sized c)
    (hright : ∀ epoch, .hashed epoch (.ok false) ∉ c.tasks) (hnext : u.phase.isFinal = false) : c.transfer.Grows u := by
  cases ho with
  | round opens => exact (opens.grows hp hs hright).trans (Transfer.grows_sendRequests _)
  | assembled fills =>
    have hverifying := (fills.grows hp hs).trans (Transfer.grows_setPhase _ .verifying)
    exact hverifying.trans (Transfer.grows_congr rfl rfl)
  | closed closes => exact absurd hnext closes.not_open
  | searching => exact Transfer.grows_congr (by simp [Transfer.queueJob]) (by simp [Transfer.queueJob])
  | matched => exact Transfer.grows_setPhase _ _
  | _ => exact Transfer.grows_congr rfl rfl

/-! ## What is hashed -/

/-- What is there agrees with `D`, and so does a signature that is held. -/
structure Agrees (D : ByteArray) (c : Course) : Prop where
  available : ∀ b, c.assembled = .ok b → ∀ o, c.transfer.stateAt o = some .available → Bytes.byte? b o = Bytes.byte? D o
  signature : ∀ s, c.transfer.signature = some s → s.digest = Sha256.digest D

/-- Whatever is being hashed is the whole file, and no hash was wrong. -/
structure Assured (c : Course) : Prop where
  whole : ∀ task ∈ c.tasks, task.isDelta = false → c.transfer.Whole
  right : ∀ epoch b, .hashed epoch (.ok b) ∈ c.tasks → b = true

/-- An open course of a transfer of `D`, whose temp file is node `n`, where all that counts as there agrees with `D`. -/
structure Upheld (D : ByteArray) (n : Nat) (c : Course) : Prop where
  isOpen : c.transfer.phase.isFinal = false
  orderly : Orderly c
  placed : Placed c
  sized : Sized c
  sound : Sound n c
  size : c.transfer.target.size = D.size
  agrees : Agrees D c
  assured : Assured c

namespace Upheld

variable {u : Transfer} {l : List Task}

theorem grows (h : Upheld D n c) (ho : Outcome c e u l) (hnext : u.phase.isFinal = false) : c.transfer.Grows u := by
  refine ho.grows h.placed h.sized (fun epoch hm => ?_) hnext
  exact nomatch h.assured.right epoch false hm

theorem content (h : Upheld D n c) (hw : c.transfer.Whole) : c.content n = D := by
  apply Bytes.ext_byte?
  intro o
  by_cases hlt : o < D.size
  · exact h.agrees.available _ h.sound.assembled o (hw o (h.size.symm ▸ hlt))
  · have hsmall := h.sound.small
    have hsize := h.size
    rw [Bytes.byte?_eq_none.2 (by omega), Bytes.byte?_eq_none.2 (by omega)]

theorem hash_right (h : Upheld D n c) {epoch : Nat} {digest : Digest} (hm : .hash epoch digest ∈ c.tasks) {b : Bool}
    {next : Transfer} (hstep : Task.step c.transfer (.hash epoch digest) = (next, some (.hashed epoch (.ok b)))) :
    b = true := by
  have hsigned : c.transfer.signature.isSome := by
    by_contra hnone
    rw [h.sound.unsigned h.isOpen (by simpa using hnone)] at hm
    exact absurd hm List.not_mem_nil
  obtain ⟨s, hs⟩ := Option.isSome_iff_exists.1 hsigned
  have hdigest : digest = Sha256.digest D :=
    (h.sound.digest h.isOpen s hs epoch digest hm).trans (h.agrees.signature s hs)
  obtain ⟨r, hr, hok, -⟩ := step_hash h.sound.leads h.sound.limited epoch digest
  rw [hr] at hstep
  have hresult : r = .ok b := by
    obtain ⟨-, hnext⟩ := Prod.mk.inj hstep
    exact (Task.hashed.inj (Option.some.inj hnext)).2
  have hcontent : c.transfer.disk.content n = D := h.content (h.assured.whole _ hm rfl)
  rw [hok b hresult, hcontent, hdigest]
  exact beq_self_eq_true _

/-- A verdict that waits is one that waited before, or that of a hash taken now. -/
theorem right (h : Upheld D n c) (ho : Outcome c e u l) {epoch : Nat} {b : Bool} (hm : .hashed epoch (.ok b) ∈ l) :
    b = true := by
  have hold : ∀ {k : List Task}, (∀ task ∈ k, task ∈ c.tasks) → .hashed epoch (.ok b) ∈ k → b = true :=
    fun hk hm => h.assured.right epoch b (hk _ hm)
  have hfills : ∀ {v : Transfer} {m : PartMap} {k : List Task}, Fills c e v m k → ∀ task ∈ k, task ∈ c.tasks :=
    fun hf => (h.sized.fills hf).2.2
  cases ho with
  | round opens => exact hold (h.sized.opens opens h.isOpen).2 hm
  | assembled fills => exact hold (hfills fills) hm
  | closed _ rest => exact hold rest hm
  | dropped => exact hold mem_of_mem_erased hm
  | matched =>
    rcases mem_replaced (r := some _) hm with hm | hm
    · exact hold (fun _ h => h) hm
    · exact nomatch hm
  | @worked i task next disk here step follows =>
    rcases mem_replaced (r := some next) hm with hm | hm
    · exact hold (fun _ h => h) hm
    · obtain rfl := Option.some.inj hm
      have hmem := List.mem_of_getElem? here
      have hkind : task.isDelta = false := follows.kind.symm
      cases task with
      | hash k digest =>
        obtain rfl : epoch = k := follows.epoch
        exact h.hash_right hmem step
      | hashed k r => exact nomatch (Prod.mk.inj step).2
      | _ => exact nomatch hkind
  | _ => exact hold (fun _ h => h) hm

theorem whole (h : Upheld D n c) (ho : Outcome c e u l) (hnext : u.phase.isFinal = false) {task : Task}
    (hm : task ∈ (settle u l).tasks) (hd : task.isDelta = false) : u.Whole := by
  have htarget : u.target = c.transfer.target := (ho.made h.isOpen hnext).target
  have hold : ∀ {old : Task}, old ∈ c.tasks → old.isDelta = false → u.Whole := fun hm hd =>
    (h.assured.whole _ hm hd).grows (h.grows ho hnext) htarget
  have hidle : ∀ {v : Transfer} {k : List Task}, v.outbox.jobs = c.transfer.outbox.jobs →
      task ∈ (settle v k).tasks → task ∈ k := by
    intro v k hjobs hm
    rwa [settle_idle (hjobs.trans h.orderly.idle)] at hm
  cases ho with
  | round opens =>
    have htacit := opens.tacit h.isOpen
    have honward := Transfer.onward_sendRequests htacit.isOpen
    have hrest := (h.sized.opens opens h.isOpen).2
    exact hold (hrest _ (hidle (honward.jobs.trans htacit.jobs) hm)) hd
  | @assembled _ v m l s fills complete =>
    obtain ⟨hmeasured, hsame, -⟩ := h.sized.fills fills
    obtain ⟨-, -, hparts, -⟩ := fills.tacit h.isOpen
    intro o ho
    rw [htarget, ← hsame, ← hmeasured m hparts] at ho
    rw [Transfer.stateAt_eq (m := m) (by simpa [Transfer.queueJob] using hparts)]
    exact PartMap.isComplete_iff.1 complete o ho
  | closed closes => exact absurd hnext closes.not_open
  | @searching s candidate temp =>
    have hjob : ((({ c.transfer with signature := some s, owing := none } : Transfer).setPhase .matching).queueJob
        (.matchAndCopy c.transfer.epoch s candidate temp)).outbox.jobs =
          [.matchAndCopy c.transfer.epoch s candidate temp] := by
      simp [Transfer.queueJob, h.orderly.idle]
    rw [settle_job hjob] at hm
    rcases List.mem_append.1 hm with hm | hm
    · exact hold hm hd
    · rw [List.mem_singleton.1 hm] at hd
      cases hd
  | @worked i old next disk here step follows =>
    rcases mem_replaced (r := some next) (hidle rfl hm) with hm | hm
    · exact hold hm hd
    · obtain rfl := Option.some.inj hm
      exact hold (List.mem_of_getElem? here) (follows.kind.symm.trans hd)
  | matched =>
    rcases mem_replaced (r := some _) (hidle (by simp) hm) with hm | hm
    · exact hold hm hd
    · rw [← Option.some.inj hm] at hd
      cases hd
  | dropped => exact hold (mem_of_mem_erased _ (hidle rfl hm)) hd
  | _ => exact hold (hidle rfl hm) hd

theorem assured_next (h : Upheld D n c) (ho : Outcome c e u l) (hnext : u.phase.isFinal = false) :
    Assured (settle u l) :=
  ⟨fun _ hm hd => show u.Whole from h.whole ho hnext hm hd, fun _ _ hm => h.right ho (hashed_mem_settle.1 hm)⟩

/-- When all is there and the transfer goes on, it has the file hashed. -/
theorem busy (h : Upheld D n c) (hw : c.transfer.Whole) : c.tasks ≠ [] := by
  have hsome := hw 0 (Nat.pos_of_ne_zero h.placed.pos)
  cases h.placed.standing with
  | waiting _ unmapped => simp [Transfer.stateAt_unmapped unmapped] at hsome
  | looking _ _ _ _ alone => simp [alone]
  | verifying _ _ _ _ _ busy => exact busy
  | @fetching m parts missing =>
    have hcomplete : m.isComplete := by
      rw [PartMap.isComplete_iff]
      intro o ho
      rw [h.sized.measured m parts] at ho
      rw [← Transfer.stateAt_eq parts]
      exact hw o ho
    cases hcomplete.symm.trans missing

end Upheld

/-! ## Courses -/

theorem backed_start {file : Target} {limits : Tuning} {rule : Admission} {t : Transfer}
    (h : t.Untouched file limits rule) : (start t).transfer.Backed := by
  apply Transfer.backed_of_clean
  intro o
  show t.stateAt o ≠ some .pending
  have hparts := h.parts
  split at hparts
  · simp [Transfer.stateAt_unmapped hparts]
  · exact Transfer.stateAt_blank_ne hparts o

section Runs

variable {target : Target} {tuning : Tuning} {admission : Admission} {disk made : Disk} {t : Transfer}
  {events : List Event}

/-- As long as what is there agrees with the file, no hash is wrong. -/
theorem upheld_run (hc : Transfer.create target tuning admission disk = (.ok t, made)) (hsize : D.size = target.size)
    (hpos : target.size ≠ 0) (hagree : ∀ done, done <+: events → Agrees D ((start t).run done)) :
    ∃ n, ∀ done, done <+: events → ((start t).run done).transfer.phase.isFinal = false →
      Upheld D n ((start t).run done) := by
  have huntouched := Transfer.create_untouched hc
  have hstart : Orderly (start t) := orderly_start huntouched
  obtain ⟨n, hsound, -⟩ := sound_start hc
  have hupheld : ∀ done, done <+: events → ((start t).run done).transfer.phase.isFinal = false →
      Assured ((start t).run done) → Upheld D n ((start t).run done) := by
    intro done hdone hopen hassured
    have htarget : ((start t).run done).transfer.target = target :=
      (hstart.made_run done hopen).target.trans huntouched.target
    exact ⟨hopen, hstart.run done, hstart.placed_run (fun _ => placed_start huntouched hpos) done hopen,
      hstart.sized_run (sized_start huntouched) done hopen, sound_run hsound (hstart.uncleaned hopen),
      by rw [htarget, hsize], hagree done hdone, hassured⟩
  refine ⟨n, fun done hdone hopen => hupheld done hdone hopen ?_⟩
  refine hstart.open_run (P := Assured) (fun _ => ?_) (fun hbound _ hbefore ha _ _ ho hnext => ?_) hopen
  · have htasks : (start t).tasks = [] := start_tasks huntouched
    constructor <;> simp [htasks]
  · have hearlier := (List.prefix_append _ _).trans (hbound.trans hdone)
    exact (hupheld _ hearlier hbefore ha).assured_next ho hnext

theorem grows_run (hstart : Orderly (start t))
    (hupheld : ∀ done, done <+: events → ((start t).run done).transfer.phase.isFinal = false →
      Upheld D n ((start t).run done))
    {before after : List Event} (hbound : before ++ after <+: events)
    (hopen : ((start t).run (before ++ after)).transfer.phase.isFinal = false) :
    ((start t).run before).transfer.Grows ((start t).run (before ++ after)).transfer := by
  rw [run_append] at hopen ⊢
  refine (hstart.run before).open_run (P := fun d => ((start t).run before).transfer.Grows d.transfer)
    (fun _ => .refl _) (fun {more e} hmore _ hbefore hg u l ho hnext => ?_) hopen
  have hearlier : before ++ more <+: events := by
    refine List.IsPrefix.trans ?_ hbound
    exact (List.prefix_append_right_inj before).2 ((List.prefix_append _ _).trans hmore)
  rw [← run_append] at hbefore ho hg
  have hgrows := (hupheld _ hearlier hbefore).grows ho hnext
  exact hg.trans (hgrows.trans (Transfer.grows_congr rfl rfl))

end Runs

end Course

end FileSwarm
