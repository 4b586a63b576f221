import FileSwarm.Proofs.Transfer.Sound

/-!
# What honest peers deliver is the file

If every chunk has the bytes of `D` at its offset, and every signature is one of `D`, a transfer that
completes has `D` in its temp file. Without a signature this is what the part map says: whatever is
available agrees with `D`. With one it is what the hash says.

* `Event.Honest D e` : chunks and signatures are those of `D`;
* `Course.Faithful D n c` : the invariant;
* `HashSafe D n c e` : the temp file has not the hash of `D` by chance when it is hashed;
* `completed_is_original` : what completion says.
-/

namespace FileSwarm

/-- What comes from peers is of `D`: bytes at their offset, and signatures with any block length. -/
def Event.Honest (D : ByteArray) : Event → Prop
  | .chunk _ offset bytes => D.extract offset (offset + bytes.size) = bytes
  | .signature s => ∃ blockLength, s = Signature.ofBytes blockLength D
  | _ => True

@[simp] theorem Signature.digest_ofBytes (blockLength : Nat) (b : ByteArray) :
    (Signature.ofBytes blockLength b).digest = Sha256.digest b := by
  rw [Signature.ofBytes_eq]
  rfl

namespace Course

/-- The temp file is on its way to `D`. Without a signature all that is available agrees with `D`; a
signature that is held is one of `D`; and whatever passed the hash is `D`. -/
structure Faithful (D : ByteArray) (n : Nat) (c : Course) : Prop where
  size : c.transfer.target.size = D.size
  signed : c.transfer.phase.isFinal = false → ∀ s, c.transfer.signature = some s → s.digest = Sha256.digest D
  available : c.transfer.phase.isFinal = false → c.transfer.signature = none →
    ∀ m, c.transfer.parts = some m → m.length = D.size ∧
      ∀ o, m.state? o = some .available → Bytes.byte? (c.content n) o = Bytes.byte? D o
  passed : c.transfer.phase.isFinal = false → ∀ epoch, .hashed epoch (.ok true) ∈ c.tasks → c.content n = D
  done : c.transfer.phase = .completed → c.content n = D

namespace Faithful

variable {D : ByteArray} {n : Nat} {c : Course} {u : Transfer}

theorem retask {t : Transfer} {l k : List Task} (h : Faithful D n ⟨t, l⟩)
    (hk : ∀ epoch, .hashed epoch (.ok true) ∈ k → .hashed epoch (.ok true) ∈ l) : Faithful D n ⟨t, k⟩ :=
  ⟨h.size, h.signed, h.available, fun ho epoch hm => h.passed ho epoch (hk epoch hm), h.done⟩

theorem goes {t : Transfer} {l k : List Task} (h : Faithful D n ⟨t, l⟩) (hg : Goes l k) : Faithful D n ⟨t, k⟩ :=
  h.retask fun _ hm => hg.hashed hm

theorem quiet (h : Faithful D n c) (hq : c.transfer.Quiet u) : Faithful D n (settle u c.tasks) := by
  have hcontent : (settle u c.tasks).content n = c.content n := congrArg (Disk.content · n) hq.disk
  have hopen : u.phase.isFinal = false → c.transfer.phase.isFinal = false := fun ho => hq.open_iff ▸ ho
  refine ⟨(congrArg Target.size hq.target).trans h.size, fun ho s hs => ?_, fun ho hs k hk => ?_,
    fun ho epoch hm => ?_, fun hc => ?_⟩
  · exact h.signed (hopen ho) s (hq.signature ▸ hs)
  · rw [hcontent]
    rcases hq.parts k hk with ⟨m, hm, hsheds⟩ | ⟨-, -, -, hsheds⟩
    · obtain ⟨hlen, ha⟩ := h.available (hopen ho) (hq.signature ▸ hs) m hm
      exact ⟨hsheds.length.trans hlen, fun o hav => ha o (hsheds.available o hav)⟩
    · refine ⟨hsheds.length.trans ((PartMap.length_blank _).trans h.size),
        fun o hav => ?_⟩
      have hav := hsheds.available o hav
      rw [PartMap.state?_blank] at hav
      split at hav <;> exact nomatch hav
  · rw [hcontent]
    exact h.passed (hopen ho) epoch (hashed_mem_settle.1 hm)
  · rw [hcontent]
    exact h.done (hq.completed hc)

theorem ends (h : Faithful D n c) (he : c.transfer.Ends u) (hd : u.phase = .completed → c.content n = D) :
    Faithful D n (settle u c.tasks) :=
  ⟨(congrArg Target.size he.target).trans h.size, fun ho => absurd ho he.not_open,
    fun ho => absurd ho he.not_open, fun ho => absurd ho he.not_open, fun hc => (he.content n).trans (hd hc)⟩

theorem signs {s : Signature} (h : Faithful D n c) (hs : c.transfer.Signs s u)
    (hd : s.digest = Sha256.digest D) : Faithful D n (settle u c.tasks) := by
  have hcontent : (settle u c.tasks).content n = c.content n := congrArg (Disk.content · n) hs.quiet.disk
  refine ⟨(congrArg Target.size hs.quiet.target).trans h.size, fun _ s' hs' => ?_, fun _ hn => ?_,
    fun _ epoch hm => ?_, fun hc => ?_⟩
  · rw [← Option.some.inj (hs.held.symm.trans hs')]
    exact hd
  · exact absurd hn (by show u.signature ≠ none; rw [hs.held]; exact nofun)
  · rw [hcontent]
    exact h.passed hs.isOpen epoch (hashed_mem_settle.1 hm)
  · exact absurd (hs.quiet.completed hc) (fun hc' => by have := hs.isOpen; rw [hc'] at this; exact nomatch this)

theorem verifies {s : Signature} (h : Faithful D n c) (hv : c.transfer.Verifies s u) :
    Faithful D n (settle u c.tasks) := by
  have hopen : c.transfer.phase.isFinal = false := by
    rw [← hv.quiet.open_iff, show u.phase = _ from hv.phase]
    rfl
  have hsig : u.signature = some s := hv.quiet.signature.trans hv.held
  have hcontent : (settle u c.tasks).content n = c.content n := congrArg (Disk.content · n) hv.quiet.disk
  refine ⟨(congrArg Target.size hv.quiet.target).trans h.size, fun _ s' hs' => ?_, fun _ hn => ?_,
    fun _ epoch hm => ?_, fun hc => (nomatch hv.phase.symm.trans hc)⟩
  · rw [← Option.some.inj (hsig.symm.trans hs')]
    exact h.signed hopen s hv.held
  · exact absurd hn (by show u.signature ≠ none; rw [hsig]; exact nofun)
  · rw [hcontent]
    exact h.passed hopen epoch (hashed_mem_settle.1 hm)

/-- All of the file is available, so the temp file is the file. -/
theorem content_of_complete (h : Faithful D n c) (hsmall : (c.content n).size ≤ c.transfer.target.size)
    (ho : c.transfer.phase.isFinal = false) (hs : c.transfer.signature = none) {m : PartMap}
    (hm : c.transfer.parts = some m) (hc : m.isComplete) : c.content n = D := by
  obtain ⟨hlen, ha⟩ := h.available ho hs m hm
  apply Bytes.ext_byte?
  intro o
  by_cases hlt : o < D.size
  · exact ha o (PartMap.isComplete_iff.1 hc o (hlen.symm ▸ hlt))
  · have := h.size
    rw [Bytes.byte?_eq_none.2 (by omega), Bytes.byte?_eq_none.2 (by omega)]

theorem credits (h : Faithful D n c) (hsmall : (c.content n).size ≤ c.transfer.target.size)
    (ho : c.transfer.phase.isFinal = false) (hc : c.transfer.Credits u) : Faithful D n (settle u c.tasks) := by
  rcases hc with hq | ⟨⟨m, hm, hcomplete⟩, ⟨s, hv⟩ | ⟨hs, he, -⟩⟩
  · exact h.quiet hq
  · exact h.verifies hv
  · exact h.ends he fun _ => h.content_of_complete hsmall ho hs hm hcomplete

theorem stores {offset : Nat} {bytes : ByteArray} (hsound : Sound n c) (h : Faithful D n c)
    (hs : c.transfer.Stores offset bytes u) (hbytes : D.extract offset (offset + bytes.size) = bytes) :
    Faithful D n (settle u c.tasks) := by
  obtain ⟨m, d, hm, ha, hlim, hd, hc⟩ := hsound.written hs
  have hsmall : (d.content n).size ≤ c.transfer.target.size := by
    rw [hd, Disk.size_overlay hs.pos]
    exact Nat.max_le.2 ⟨hsound.small, hs.inside⟩
  have hcourse : Faithful D n ⟨{ c.transfer with
      disk := d, parts := some (m.set ⟨offset, bytes.size⟩ .available) }, c.tasks⟩ := by
    refine ⟨h.size, h.signed, fun ho hn k hk => ?_, fun ho epoch hmem => ?_, fun hcomp => ?_⟩
    · obtain ⟨hlen, hav⟩ := h.available ho hn m hm
      cases hk
      refine ⟨(PartMap.length_set _ _ _).trans hlen, fun o hst => ?_⟩
      show Bytes.byte? (d.content n) o = _
      rw [hd]
      rw [PartMap.state?_set] at hst
      split at hst
      · next hin => exact Disk.byte?_overlay_eq hs.pos hbytes (.inl hin.1) (hlen ▸ hin.2)
      · exact Disk.byte?_overlay_eq hs.pos hbytes (.inr (hav o hst)) (hlen ▸ PartMap.lt_length hst)
    · show d.content n = D
      rw [hd, h.passed ho epoch hmem]
      exact Disk.overlay_extract hs.pos hbytes
    · have := hs.isOpen
      rw [show c.transfer.phase = .completed from hcomp] at this
      exact nomatch this
  exact hcourse.credits hsmall hs.isOpen hc

end Faithful

/-- If the event is a step of a job that hashes the temp file, that has the hash of `D` only if it is
`D`. -/
def HashSafe (D : ByteArray) (c : Course) (e : Event) : Prop :=
  ∀ i epoch d b, e = .work i → c.tasks[i]? = some (.hash epoch d) → c.assembled = .ok b →
    Sha256.digest b = Sha256.digest D → b = D

theorem faithful_effect {D : ByteArray} {n : Nat} {c d : Course} {e : Event} (hsound : Sound n c)
    (h : Faithful D n c) (hhonest : e.Honest D) (hsafe : HashSafe D c e) (he : Effect n c e d) :
    Faithful D n d := by
  have hsigned : c.transfer.phase.isFinal = false → ∀ {task}, task ∈ c.tasks →
      ∃ s, c.transfer.signature = some s := by
    intro ho task hm
    refine Option.isSome_iff_exists.1 (Option.isSome_iff_ne_none.2 fun hn => ?_)
    exact List.ne_nil_of_mem hm (hsound.unsigned ho hn)
  cases he with
  | same => exact h
  | talk hq hl => exact (h.goes hl).quiet hq
  | ended hends hp hl => exact (h.goes hl).ends hends fun hc => h.done (hp hc)
  | empty hsize hends =>
    apply h.ends hends
    intro _
    have hD : D.size = 0 := h.size.symm.trans hsize
    have hc : (c.content n).size = 0 := Nat.le_zero.1 (hsize ▸ hsound.small)
    rw [ByteArray.size_eq_zero_iff.1 hD, ByteArray.size_eq_zero_iff.1 hc]
  | signed hs =>
    obtain ⟨blockLength, rfl⟩ := hhonest
    exact h.signs hs (Signature.digest_ofBytes blockLength D)
  | stored hs => exact h.stores hsound hs hhonest
  | @copying i disk l ha hsmall hlim busy hl =>
    obtain ⟨task, hm, hdelta⟩ := busy
    refine Faithful.quiet (c := ⟨{ c.transfer with disk }, l⟩) ?_ (.refl _)
    refine ⟨h.size, h.signed, fun ho hn => ?_, fun ho epoch hmem => ?_, fun hc => ?_⟩
    · exact absurd (hsound.unsigned ho hn) (List.ne_nil_of_mem hm)
    · have := hsound.idle_of_hashed ho (hl.hashed hmem) task hm
      rw [this] at hdelta
      exact nomatch hdelta
    · rcases Nat.eq_zero_or_pos c.transfer.target.size with hz | hpos
      · have hD : D.size = 0 := h.size.symm.trans hz
        have hc : (disk.content n).size = 0 := Nat.le_zero.1 (hz ▸ hsmall)
        show disk.content n = D
        rw [ByteArray.size_eq_zero_iff.1 hD, ByteArray.size_eq_zero_iff.1 hc]
      · have := hsound.done hc hpos task hm
        rw [this] at hdelta
        exact nomatch hdelta
  | @copied i m u ho hnone busy hc =>
    obtain ⟨task, hm, -⟩ := busy
    obtain ⟨s, hs⟩ := hsigned ho hm
    refine Faithful.credits (c := ⟨{ c.transfer with parts := some m }, []⟩) ?_ hsound.small ho hc
    exact ⟨h.size, h.signed, fun _ hn => (nomatch hs.symm.trans hn), fun _ _ hm => absurd hm List.not_mem_nil,
      h.done⟩
  | @hashed i epoch digest r l hi hr hlen hl =>
    refine Faithful.quiet (c := ⟨c.transfer, l⟩) ⟨h.size, h.signed, h.available, fun ho k hm => ?_, h.done⟩ (.refl _)
    rcases hl _ hm with hm | hm
    · exact h.passed ho k hm
    · cases hm
      have hmem := List.mem_of_getElem? hi
      obtain ⟨s, hs⟩ := hsigned ho hmem
      have heq := hr true rfl
      rw [eq_comm, beq_iff_eq, hsound.digest ho s hs _ _ hmem, h.signed ho s hs] at heq
      exact hsafe i epoch digest _ rfl hi hsound.assembled heq
  | passed ho hi hends hl => exact (h.goes hl).ends hends fun _ => h.passed ho _ (List.mem_of_getElem? hi)
  | @failed i epoch u l ho hi hq hl =>
    obtain ⟨s, hs⟩ := hsigned ho (List.mem_of_getElem? hi)
    refine Faithful.quiet (c := ⟨{ c.transfer with parts := some _ }, l⟩) ?_ hq
    exact ⟨h.size, h.signed, fun _ hn => (nomatch hs.symm.trans hn),
      fun ho k hm => h.passed ho k (hl.hashed hm), h.done⟩
  | edited _ hcontent =>
    refine ⟨h.size, h.signed, fun ho hn m hm => ?_, fun ho k hm => ?_, fun hc => ?_⟩
    · show _ ∧ ∀ o, _ → Bytes.byte? (Disk.content _ n) o = _
      rw [hcontent]
      exact h.available ho hn m hm
    · exact hcontent.trans (h.passed ho k hm)
    · exact hcontent.trans (h.done hc)

theorem faithful_run {D : ByteArray} {n : Nat} {c : Course} {events : List Event} (hsound : Sound n c)
    (h : Faithful D n c) (hkeep : .cleanUp ∉ events) (hhonest : ∀ e ∈ events, e.Honest D)
    (hsafe : ∀ before e after, events = before ++ e :: after → HashSafe D (c.run before) e) :
    Faithful D n (c.run events) := by
  induction events generalizing c with
  | nil => exact h
  | cons e events ih =>
    rw [List.mem_cons, not_or] at hkeep
    have heff := step_effect hsound (Ne.symm hkeep.1)
    refine ih (sound_effect hsound heff) ?_ hkeep.2 (fun x hx => hhonest x (List.mem_cons_of_mem _ hx)) ?_
    · exact faithful_effect hsound h (hhonest e List.mem_cons_self) (hsafe [] e events rfl) heff
    · rintro before x after rfl
      exact hsafe (e :: before) x after rfl

theorem faithful_start {target : Target} {t : Transfer} (h : Blank target t) {D : ByteArray}
    (hsize : D.size = target.size) (n : Nat) : Faithful D n (start t) := by
  have htasks : (start t).tasks = [] := by simp [start, settle, h.jobs]
  refine ⟨?_, fun _ s hs => absurd (h.signature.symm.trans hs) (by simp), fun _ _ m hm => ?_, fun _ _ hm => ?_,
    fun hc => absurd (h.phase.symm.trans hc) (by decide)⟩
  · show t.target.size = D.size
    rw [h.target, hsize]
  · obtain rfl := h.parts m hm
    refine ⟨by rw [PartMap.length_blank, hsize], fun o ho => ?_⟩
    rw [PartMap.state?_blank] at ho
    split at ho <;> cases ho
  · rw [htasks] at hm
    exact absurd hm List.not_mem_nil

/-- A transfer of honest peers that completes has the file in its temp file, whatever the local copy is and
in whichever order things happen. -/
theorem completed_is_original {target : Target} {tuning : Tuning} {admission : Admission}
    {disk made : Disk} {t : Transfer} (hc : Transfer.create target tuning admission disk = (.ok t, made))
    {D : ByteArray} (hsize : D.size = target.size) {events : List Event} (hkeep : .cleanUp ∉ events)
    (hhonest : ∀ e ∈ events, e.Honest D)
    (hsafe : ∀ before e after, events = before ++ e :: after → HashSafe D ((start t).run before) e)
    (hdone : ((start t).run events).transfer.phase = .completed) :
    ((start t).run events).assembled = .ok D := by
  obtain ⟨n, hsound, -, -⟩ := sound_start hc
  have hstart : Faithful D n (start t) := faithful_start (create_blank hc) hsize n
  rw [(sound_run hsound hkeep).assembled, (faithful_run hsound hstart hkeep hhonest hsafe).done hdone]

theorem one_completed_is_original :
    ((start (plainTransfer 1 .standard .swarming)).run (oneEvents ++ [.work 0])).assembled = .ok ⟨#[1]⟩ := by
  refine completed_is_original (create_plain 1 _ _) rfl (by simp [oneEvents]) ?_ ?_ ?_
  · intro e he
    simp only [oneEvents, List.cons_append, List.nil_append, List.mem_cons, List.not_mem_nil, or_false] at he
    rcases he with rfl | rfl | rfl | rfl | rfl
    · trivial
    · exact ⟨1, ofBytes_one.symm⟩
    · rfl
    · trivial
    · trivial
  · intro before e after hsplit i epoch d b he hi hb _
    -- a hash is waited for in one place only, where the temp file is the file
    have hone : before = [.join (.fresh "a" .full 0) fun _ => true, .signature oneSignature,
        .chunk "a" 0 ⟨#[1]⟩] ∨ before = oneEvents := by
      simp only [oneEvents, List.cons_append, List.nil_append] at hsplit
      rcases before with _ | ⟨_, _ | ⟨_, _ | ⟨_, _ | ⟨_, _ | ⟨_, before⟩⟩⟩⟩⟩
      · exact nomatch (List.cons.inj hsplit).1.trans he
      · cases hsplit; exact nomatch he
      · cases hsplit; exact nomatch he
      · cases hsplit; exact .inl rfl
      · cases hsplit; exact .inr rfl
      · simp at hsplit
    rcases hone with rfl | rfl
    · have hsound : Sound 1 oneArrived := sound_run (sound_plain 1 _ _) (by simp)
      exact (Except.ok.inj (hsound.assembled.symm.trans hb)).symm
    · rw [run_oneEvents] at hi
      rcases i with _ | i <;> exact nomatch hi
  · rw [run_snoc, run_oneEvents]
    rfl

end Course

end FileSwarm
