import FileSwarm.Delta.Copying
import FileSwarm.Proofs.Delta.Passes
import FileSwarm.Proofs.PartMap.States

/-!
# What copying makes of the temp file

* `Bench.Holds` : the disk is a part of the state, and `putDisk` puts another one in its place;
* `Written D n d e` : the disk `e` came from `d` by writing to the node `n`, which is no longer than `D`;
* `Copied D n d e parts` : and wherever `parts` says available it has the byte of `D`;
* `Written.write`, `copied_write` : one more block of `D`;
* `copyMatches_spec` : copying matches that tell the truth; `returns_copyMatches` : copying any matches.
-/

namespace FileSwarm

namespace PartMap

theorem count_of_empty {m : PartMap} {r : ByteRange} (h : r.length = 0) (s : PartState) : m.count r s = 0 := by
  have hlen : ((m.states.take r.stop).drop r.start).length = 0 := by
    rw [List.length_drop, List.length_take, ByteRange.stop, h]
    omega
  rw [count_eq, List.length_eq_zero_iff.1 hlen]
  rfl

end PartMap

/-- The node `n` was written to. It is no longer than `D`. -/
structure Written (D : ByteArray) (n : Nat) (d e : Disk) : Prop where
  alike : Disk.Alike n d e
  isFile : (e.bytesAt? n).isSome
  size_le : (e.content n).size ≤ D.size

/-- The node `n` was written to and has, where `parts` says so, the bytes of `D`. -/
structure Copied (D : ByteArray) (n : Nat) (d e : Disk) (parts : PartMap) : Prop extends Written D n d e where
  length_eq : parts.length = D.size
  not_pending : ∀ o, parts.state? o ≠ some .pending
  byte_eq : ∀ o, parts.state? o = some .available → Bytes.byte? (e.content n) o = Bytes.byte? D o

theorem copied_setLength {D : ByteArray} {n : Nat} {d : Disk} {old : ByteArray} (hb : d.bytesAt? n = some old)
    (hlim : D.size ≤ Disk.sizeLimit) :
    ∃ e, d.setLength ⟨n, true⟩ D.size = .ok e ∧ Copied D n d e (PartMap.blank D.size) := by
  obtain ⟨e, he⟩ := Disk.setLength_isOk (h := ⟨n, true⟩) hb rfl hlim
  obtain ⟨old', -, -, ha, hnew⟩ := Disk.setLength_eq_ok he
  have hcontent : e.content n = Disk.resize old' D.size := by rw [Disk.content, hnew]; rfl
  have hsize : (e.content n).size = D.size := by rw [hcontent, Disk.size_resize]
  have hwritten : Written D n d e := ⟨ha, by rw [hnew]; rfl, Nat.le_of_eq hsize⟩
  exact ⟨e, he, hwritten, PartMap.length_blank _,
    fun o ho => absurd (PartMap.eq_needed_of_blank ho) (by decide),
    fun o ho => absurd (PartMap.eq_needed_of_blank ho) (by decide)⟩

theorem ByteRange.size_extract {r : ByteRange} {b : ByteArray} (hr : r.stop ≤ b.size) :
    (b.extract r.start r.stop).size = r.length := by
  rw [ByteArray.size_extract]
  unfold ByteRange.stop at hr ⊢
  omega

theorem Written.write {D : ByteArray} {n : Nat} {d e : Disk} (h : Written D n d e) {r : ByteRange}
    (hpos : 0 < r.length) (hr : r.stop ≤ D.size) (hlim : D.size ≤ Disk.sizeLimit) :
    ∃ f, e.writeAt ⟨n, true⟩ r.start (D.extract r.start r.stop) = .ok f ∧ Written D n d f ∧
      ∀ o < D.size, o ∈ r ∨ Bytes.byte? (e.content n) o = Bytes.byte? D o →
        Bytes.byte? (f.content n) o = Bytes.byte? D o := by
  have hsize := ByteRange.size_extract hr
  obtain ⟨old, hold⟩ := Option.isSome_iff_exists.1 h.isFile
  have hcontent : e.content n = old := by rw [Disk.content, hold]; rfl
  have hstop : r.start + (D.extract r.start r.stop).size = r.stop := by rw [hsize]; rfl
  obtain ⟨f, hf⟩ := Disk.writeAt_isOk (h := ⟨n, true⟩) hold rfl (Nat.le_trans (Nat.le_of_eq hstop)
    (Nat.le_trans hr hlim))
  obtain ⟨old', hold', -, ha, hnew⟩ := Disk.writeAt_eq_ok (by omega) hf
  obtain rfl : old' = old := Option.some.inj (hold'.symm.trans hold)
  have hcontent' : f.content n = Disk.overlay old' r.start (D.extract r.start r.stop) := by
    rw [Disk.content, hnew]
    rfl
  have hnew' : D.extract r.start (r.start + (D.extract r.start r.stop).size) = D.extract r.start r.stop := by
    rw [hstop]
  have hpos' : 0 < (D.extract r.start r.stop).size := by omega
  refine ⟨f, hf, ⟨h.alike.trans ha, by rw [hnew]; rfl, ?_⟩, fun o ho hright => ?_⟩
  · rw [hcontent', Disk.size_overlay hpos', hstop, ← hcontent]
    exact Nat.max_le.2 ⟨h.size_le, hr⟩
  · rw [hcontent']
    refine Disk.byte?_overlay_eq hpos' hnew' ?_ ho
    rw [hstop, ← hcontent]
    exact hright

/-- What is available is written: the file is `D`. -/
theorem Written.content_eq {D : ByteArray} {n : Nat} {d e : Disk} (h : Written D n d e)
    (hall : ∀ o < D.size, Bytes.byte? (e.content n) o = Bytes.byte? D o) : e.content n = D := by
  apply Bytes.ext_byte?
  intro o
  by_cases ho : o < D.size
  · exact hall o ho
  · have := h.size_le
    rw [Bytes.byte?_eq_none.2 (by omega), Bytes.byte?_eq_none.2 (by omega)]

theorem copied_write {D : ByteArray} {n : Nat} {d e : Disk} {parts : PartMap} (h : Copied D n d e parts)
    {r : ByteRange} (hpos : 0 < r.length) (hr : r.stop ≤ D.size) (hlim : D.size ≤ Disk.sizeLimit) :
    ∃ f, e.writeAt ⟨n, true⟩ r.start (D.extract r.start r.stop) = .ok f ∧
      Copied D n d f (parts.set r .available) := by
  obtain ⟨f, hf, hwritten, hbytes⟩ := h.toWritten.write hpos hr hlim
  refine ⟨f, hf, hwritten, (PartMap.length_set _ _ _).trans h.length_eq,
    fun o ho => ?_, fun o ho => ?_⟩
  · rw [PartMap.state?_set] at ho
    split at ho
    · exact nomatch ho
    · exact h.not_pending o ho
  · have hlt : o < D.size := h.length_eq ▸ PartMap.length_set parts r .available ▸ PartMap.lt_length ho
    refine hbytes o hlt ?_
    rw [PartMap.state?_set] at ho
    split at ho
    · next hin => exact .inl hin.1
    · exact .inr (h.byte_eq o ho)

/-- A match says that the bytes at its place, if they are as many as the block's, are the block's. -/
def BlockMatch.Right (s : Signature) (D L : ByteArray) (m : BlockMatch) : Prop :=
  m.place.length = (s.blockRange m.index).length → m.place.stop ≤ L.size ∧
    L.extract m.place.start m.place.stop = D.extract (s.blockRange m.index).start (s.blockRange m.index).stop

namespace Bench

open Work

variable {σ : Type} {b : Bench σ}

/-- The disk is a part of the state. -/
structure Holds (b : Bench σ) : Prop where
  get : ∀ d s, b.disk (b.putDisk d s) = d
  put : ∀ d e s, b.putDisk d (b.putDisk e s) = b.putDisk d s

theorem quiet_holds : quiet.Holds := ⟨fun _ _ => rfl, fun _ _ _ => rfl⟩

section Copying

variable {t : σ} {D L : ByteArray} {m n : Nat} {s : Signature} (source target : String)

theorem copyEach_spec (hb : b.Holds) (hp : ∀ d, b.Patient (b.putDisk d t))
    (hL : (b.disk t).bytesAt? m = some L) (hLlim : L.size ≤ Disk.sizeLimit) (hmn : m ≠ n)
    (hlen : s.fileLength.toNat = D.size) (hlim : D.size ≤ Disk.sizeLimit) (total done : Nat)
    {matched : List BlockMatch} (hright : ∀ x ∈ matched, x.Right s D L) {e : Disk} {parts : PartMap}
    (h : Copied D n (b.disk t) e parts) :
    ∃ parts' e', (b.copyEach source ⟨m, false⟩ target ⟨n, true⟩ s total done parts matched).run.run
        (b.putDisk e t) = (.ok parts', b.putDisk e' t) ∧ Copied D n (b.disk t) e' parts' := by
  induction matched generalizing done e parts with
  | nil => exact ⟨parts, e, rfl, h⟩
  | cons x matched ih =>
    have ih := fun done => @ih done fun y hy => hright y (List.mem_cons_of_mem x hy)
    unfold copyEach
    dsimp only
    by_cases hskip : (s.blockRange x.index).length ≠ x.place.length ∨
        parts.count (s.blockRange x.index) .available = (s.blockRange x.index).length
    · rw [if_pos hskip]
      exact ih _ h
    · rw [if_neg hskip]
      rw [not_or, not_not] at hskip
      obtain ⟨hsame, hcount⟩ := hskip
      have hpos : 0 < (s.blockRange x.index).length := by
        refine Nat.pos_iff_ne_zero.2 fun hz => hcount ?_
        rw [PartMap.count_of_empty hz, hz]
      obtain ⟨hstop, hbytes⟩ := hright x List.mem_cons_self hsame.symm
      have hblock : (s.blockRange x.index).stop ≤ D.size := by
        rw [← hlen]
        exact (s.blockRange_bounds x.index).resolve_left (Nat.pos_iff_ne_zero.1 hpos)
      have hsource : e.bytesAt? m = some L := (h.alike.others m hmn).trans hL
      have hread : (b.disk (b.putDisk e t)).readExact ⟨m, false⟩ x.place.start (s.blockRange x.index).length =
          .ok (D.extract (s.blockRange x.index).start (s.blockRange x.index).stop) := by
        rw [hb.get, hsame, Disk.readExact_eq hsource hstop hLlim, ← hbytes]
        rfl
      obtain ⟨f, hf, hcopied⟩ := copied_write h hpos hblock hlim
      rw [← hb.get e t] at hf
      obtain ⟨parts', e', hrun, hdone⟩ := ih (done + 1) hcopied
      refine ⟨parts', e', ?_, hdone⟩
      rw [run_bind_ok (run_ask_ok hread), run_bind_ok (run_change_ok hf), hb.put,
        run_bind_ok (run_report_ok (hp f)), hrun]

/-- Matches that tell the truth are copied: the temp file has the length of `D`, and its bytes where the
part map says available; nothing is pending. -/
theorem copyMatches_spec (hb : b.Holds) (hp : ∀ d, b.Patient (b.putDisk d t))
    (hsource : (b.disk t).LeadsTo source m) (hL : (b.disk t).bytesAt? m = some L)
    (hLlim : L.size ≤ Disk.sizeLimit) (hmn : m ≠ n) {old : ByteArray} (hold : (b.disk t).bytesAt? n = some old)
    (hlen : s.fileLength.toNat = D.size) (hlim : D.size ≤ Disk.sizeLimit) {matched : List BlockMatch}
    (hright : ∀ x ∈ matched, x.Right s D L) :
    ∃ parts e, (b.copyMatches source target ⟨n, true⟩ s matched).run.run t = (.ok parts, b.putDisk e t) ∧
      Copied D n (b.disk t) e parts := by
  obtain ⟨e, he, hblank⟩ := copied_setLength (D := D) hold hlim
  unfold copyMatches
  rw [hlen, run_bind_ok (run_change_ok he)]
  dsimp only
  by_cases hnone : matched.isEmpty
  · rw [if_pos hnone, run_bind_ok (run_report_ok (hp e))]
    exact ⟨_, e, rfl, hblank⟩
  · rw [if_neg hnone]
    have hopen : (b.disk (b.putDisk e t)).openFile source = .ok ⟨m, false⟩ := by
      rw [hb.get]
      exact (hsource.alike hblank.alike).openFile
    obtain ⟨parts, e', hrun, hdone⟩ := copyEach_spec source target hb hp hL hLlim hmn hlen hlim
      matched.length 0 hright hblank
    refine ⟨parts, e', ?_, hdone⟩
    rw [run_bind_ok (run_ask_ok hopen), run_bind_ok hrun, run_bind_ok (run_report_ok (hp e'))]
    rfl

end Copying

/-- Whatever is found on the disk, what copying returns is a map of the file that leaves no byte pending. -/
theorem returns_copyMatches (b : Bench σ) (source target : String) (into : Handle) (s : Signature)
    (matched : List BlockMatch) :
    Returns (b.copyMatches source target into s matched) fun m =>
      m.length = s.fileLength.toNat ∧ ∀ o, m.state? o ≠ some .pending := by
  have hblank : ∀ o, (PartMap.blank s.fileLength.toNat).state? o ≠ some .pending :=
    fun _ ho => absurd (PartMap.eq_needed_of_blank ho) (by decide)
  have heach : ∀ (origin : Handle) (total done : Nat) (parts : PartMap) (l : List BlockMatch),
      (∀ o, parts.state? o ≠ some .pending) →
      Returns (b.copyEach source origin target into s total done parts l) fun m =>
        m.length = parts.length ∧ ∀ o, m.state? o ≠ some .pending := by
    intro origin total done parts l
    induction l generalizing done parts with
    | nil => exact fun hparts => returns_pure ⟨rfl, hparts⟩
    | cons x l ih =>
      intro hparts
      unfold copyEach
      dsimp only
      split
      · exact ih _ _ hparts
      · refine returns_bind (returns_any _) fun bytes _ => returns_bind (returns_any _) fun _ _ =>
          returns_bind (returns_any _) fun _ _ => ih _ _ fun o => ?_
        rw [PartMap.state?_set]
        split
        · decide
        · exact hparts o
  unfold copyMatches
  refine returns_bind (returns_any _) fun _ _ => ?_
  dsimp only
  split
  · exact returns_bind (returns_any _) fun _ _ => returns_pure ⟨rfl, hblank⟩
  · exact returns_bind (returns_any _) fun origin _ => returns_bind (heach _ _ _ _ _ hblank) fun parts hparts =>
      returns_bind (returns_any _) fun _ _ => returns_pure hparts

end Bench

end FileSwarm
