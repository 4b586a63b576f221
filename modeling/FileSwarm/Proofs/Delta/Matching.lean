import Mathlib
import FileSwarm.Proofs.Delta.Passes
import FileSwarm.Proofs.RollingSum
import FileSwarm.Proofs.Signature.Builder

/-!
# The search finds what the plain scan finds

The table, the rolling sum, and the buffer that is read on and let go are means only: the blocks found
are those that `plainScan` finds by looking at every window. This holds whatever the sizes of the single
reads are.

* `Scanner.Sees` : what a scanner holds are bytes of the file, in their place; kept by `append` and
  `compact`;
* `Sees.sumAt_eq`, `Sees.windowHits_eq` : what is made of a window is about the bytes of the file;
* `ensure_spec` : enough bytes are there, or the file has no more;
* `slide_spec`, `windows_spec` : the loops find what is left to find;
* `findMatches_spec` : all of it; `findMatches_eq_plainScan` : a search that nobody stops;
* `BlockMatch.Sound`, `mem_plainScan` : the bytes at a match have the checksums of its block.
-/

namespace FileSwarm

namespace Table

theorem getElem?_ofBlocks (l : List Block) (w : UInt32) :
    (ofBlocks l)[w]?.getD [] = l.filter (·.weak == w) := by
  induction l with
  | nil => rw [ofBlocks, List.foldr_nil, Std.HashMap.getElem?_empty]; rfl
  | cons x l ih =>
    have hcons : ofBlocks (x :: l) = (ofBlocks l).alter x.weak fun k => some (x :: k.getD []) := rfl
    rw [hcons, Std.HashMap.getElem?_alter, List.filter_cons]
    by_cases h : x.weak == w
    · have hw : x.weak = w := beq_iff_eq.1 h
      rw [if_pos h, if_pos h, hw, ← ih]
      rfl
    · rw [if_neg h, if_neg h, ih]

end Table

open Signature (hits)

theorem ofSlice_extract {b : ByteArray} {i j p q : Nat} (hpq : p ≤ q) (hj : i + q ≤ j) (hb : j ≤ b.size) :
    RollingSum.ofSlice (b.extract i j) p q = RollingSum.ofSlice b (i + p) (i + q) := by
  have hsize : (b.extract i j).size = j - i := by rw [ByteArray.size_extract]; omega
  rw [RollingSum.ofSlice_eq (by omega), RollingSum.ofSlice_eq (by omega)]
  congr 1
  apply List.ext_getElem?
  intro o
  rw [Bytes.getElem?_slice, Bytes.getElem?_slice, hsize, Bytes.byte?_extract]
  by_cases ho : o < q - p
  · rw [if_pos (by omega), if_pos (by omega), if_pos (by omega), Nat.add_assoc]
  · rw [if_neg (by omega), if_neg (by omega)]

/-! ## Windows of the plain scan -/

section Windows

variable {blocks : List Block} {width : Nat} {content : ByteArray} {pos : Nat}

theorem plainWindows_end (h : content.size < pos + width) : plainWindows blocks width content pos = [] := by
  rw [plainWindows, dif_neg (by omega)]

theorem plainWindows_miss (hpos : 0 < width) (hfit : pos + width ≤ content.size)
    (h : hits blocks (content.extract pos (pos + width)) = []) :
    plainWindows blocks width content pos = plainWindows blocks width content (pos + 1) := by
  rw [plainWindows, dif_pos ⟨hpos, hfit⟩, h]

theorem plainWindows_hit (hpos : 0 < width) (hfit : pos + width ≤ content.size)
    (h : hits blocks (content.extract pos (pos + width)) ≠ []) :
    plainWindows blocks width content pos =
      (hits blocks (content.extract pos (pos + width))).map (fun x => ⟨⟨pos, width⟩, x.index⟩) ++
        plainWindows blocks width content (pos + width) := by
  rw [plainWindows, dif_pos ⟨hpos, hfit⟩]
  split
  · next hnil => exact absurd hnil h
  · rfl

end Windows

theorem plainWindows_nil (width : Nat) (content : ByteArray) (pos : Nat) :
    plainWindows [] width content pos = [] := by
  induction hk : content.size - pos using Nat.strongRecOn generalizing pos with
  | _ k ih =>
    subst hk
    by_cases hfit : 0 < width ∧ pos + width ≤ content.size
    · rw [plainWindows_miss hfit.1 hfit.2 rfl]
      exact ih _ (by omega) _ rfl
    · rw [plainWindows, dif_neg hfit]

theorem foldl_push_toList (l : List Block) (f : Block → BlockMatch) (found : Array BlockMatch) :
    (l.foldl (fun a x => a.push (f x)) found).toList = found.toList ++ l.map f := by
  induction l generalizing found with
  | nil => exact (List.append_nil _).symm
  | cons x l ih => rw [List.foldl_cons, ih, Array.toList_push, List.append_assoc]; rfl

/-! ## What the scanner holds -/

namespace Scanner

/-- The scanner holds bytes of `content`, in their place, and is not wrong about its end. -/
structure Sees (content : ByteArray) (s : Scanner) : Prop where
  read_le : s.read ≤ content.size
  buffer_eq : s.buffer = content.extract s.base s.read
  read_eq : s.eof → s.read = content.size

theorem sees_start (content : ByteArray) : start.Sees content :=
  ⟨Nat.zero_le _, ByteArray.extract_same.symm, nofun⟩

namespace Sees

variable {content : ByteArray} {s : Scanner} {pos width : Nat}

theorem append (h : s.Sees content) {n : Nat} (hn : 0 < n) :
    (s.append (content.extract s.read (s.read + n))).Sees content := by
  have hsize : (content.extract s.read (s.read + n)).size = min (s.read + n) content.size - s.read :=
    ByteArray.size_extract
  have hle := h.read_le
  have hread : (s.append (content.extract s.read (s.read + n))).read = min (s.read + n) content.size := by
    simp only [Scanner.read, Scanner.append, ByteArray.size_append] at hsize hle ⊢
    omega
  refine ⟨by omega, ?_, fun heof => ?_⟩
  · rw [hread]
    show s.buffer ++ _ = content.extract s.base _
    rw [h.buffer_eq, Bytes.extract_append_extract (show s.base ≤ s.read from Nat.le_add_right _ _)
      (Nat.le_add_right _ _), Bytes.extract_min]
  · rw [hread]
    have : (content.extract s.read (s.read + n)).size = 0 := by simpa [Scanner.append] using heof
    omega

theorem compact (h : s.Sees content) (hpos : pos ≤ s.buffer.size) : (s.compact pos hpos).1.Sees content := by
  unfold Scanner.compact
  split
  · have hread : s.base + pos + (s.buffer.extract pos s.buffer.size).size = s.read := by
      rw [ByteArray.size_extract, Scanner.read]
      omega
    refine ⟨Nat.le_trans (Nat.le_of_eq hread) h.read_le, ?_, fun heof => hread.trans (h.read_eq heof)⟩
    show s.buffer.extract pos s.buffer.size = content.extract (s.base + pos) (s.base + pos + _)
    rw [hread]
    have hsize : s.buffer.size = s.read - s.base := (Nat.add_sub_cancel_left _ _).symm
    have hle := h.read_le
    apply Bytes.ext_byte?
    intro i
    rw [Bytes.byte?_extract, Bytes.byte?_extract, h.buffer_eq, Bytes.byte?_extract, ← h.buffer_eq, hsize,
      Nat.add_assoc]
    grind
  · exact h

theorem extract_eq (h : s.Sees content) (hfit : pos + width ≤ s.buffer.size) :
    s.buffer.extract pos (pos + width) = content.extract (s.base + pos) (s.base + pos + width) := by
  have hread : s.read = s.base + s.buffer.size := rfl
  have hle := h.read_le
  apply Bytes.ext_byte?
  intro i
  rw [h.buffer_eq, Bytes.byte?_extract, Bytes.byte?_extract, Bytes.byte?_extract, ← h.buffer_eq]
  by_cases hi : i < width
  · rw [if_pos (by omega), if_pos (by omega), if_pos (by omega), Nat.add_assoc]
  · rw [if_neg (by omega), if_neg (by omega)]

theorem getElem_eq (h : s.Sees content) (hpos : pos < s.buffer.size) :
    s.buffer[pos] = Bytes.byteAt content (s.base + pos) := by
  have hread : s.read = s.base + s.buffer.size := rfl
  have hle := h.read_le
  have hbyte : Bytes.byte? s.buffer pos = Bytes.byte? content (s.base + pos) := by
    rw [h.buffer_eq, Bytes.byte?_extract, if_pos (by omega)]
  rw [Bytes.byte?_of_lt hpos, Bytes.byte?_eq_byteAt (by omega)] at hbyte
  exact Option.some.inj hbyte

theorem sumAt_eq (h : s.Sees content) (hfit : pos + width ≤ s.buffer.size) :
    s.sumAt pos width hfit = RollingSum.ofSlice content (s.base + pos) (s.base + pos + width) := by
  have hread : s.read = s.base + s.buffer.size := rfl
  rw [sumAt, h.buffer_eq, ofSlice_extract (Nat.le_add_right _ _) (by omega) h.read_le, Nat.add_assoc]

/-- The table and the two checksums give the blocks whose checksums the window has. -/
theorem windowHits_eq (h : s.Sees content) (blocks : List Block) (hfit : pos + width ≤ s.buffer.size) :
    s.windowHits (Table.ofBlocks blocks) pos width hfit
        (RollingSum.ofSlice content (s.base + pos) (s.base + pos + width)) =
      hits blocks (content.extract (s.base + pos) (s.base + pos + width)) := by
  have hread : s.read = s.base + s.buffer.size := rfl
  have hle := h.read_le
  generalize hsum : RollingSum.ofSlice content (s.base + pos) (s.base + pos + width) = sum
  have htable : s.windowHits (Table.ofBlocks blocks) pos width hfit sum =
      ((Table.ofBlocks blocks)[sum.value]?.getD []).filter
        (·.strong == Sha256.digest (content.extract (s.base + pos) (s.base + pos + width))) := by
    rw [windowHits, ← h.extract_eq hfit]
    cases (Table.ofBlocks blocks)[sum.value]? <;> rfl
  rw [htable, Table.getElem?_ofBlocks, List.filter_filter, hits, weakSum_extract (by omega), hsum]
  apply List.filter_congr
  intro x _
  rw [Bool.and_comm]

end Sees

/-- What reading on comes to: `length` bytes are there, or the file ends before. -/
def Ensured (content : ByteArray) (base length : Nat) : Option (Loaded base length) → Prop
  | none => content.size < base + length
  | some u => u.scanner.Sees content

end Scanner

namespace Bench

variable {σ : Type} {b : Bench σ} {P : σ → Prop} {path : String} {n : Nat} {content : ByteArray}

theorem matchTail_spec (hcontent : ∀ t, P t → (b.disk t).bytesAt? n = some content)
    (hlim : content.size ≤ Disk.sizeLimit) (s : Signature) :
    b.Yields (b.matchTail path ⟨n, false⟩ content.size s) P fun tail => tail.toList = plainTail s content := by
  unfold matchTail plainTail
  cases s.blocks.getLast? with
  | none => exact yields_pure rfl
  | some last =>
    dsimp only
    by_cases hskip : (s.blockRange last.index).length = s.blockLength.toNat ∨
        content.size < (s.blockRange last.index).length
    · rw [if_pos hskip, if_pos hskip]
      exact yields_pure rfl
    · rw [if_neg hskip, if_neg hskip]
      generalize (s.blockRange last.index).length = length at hskip ⊢
      have hstop : content.size - length + length = content.size := by omega
      refine yields_bind (yields_ask (Q := (· = content.extract (content.size - length) content.size))
        (fun t ht => ?_) rfl) ?_
      · rw [Disk.readExact_eq (hcontent t ht) (by omega) hlim, hstop]
      rintro _ rfl
      by_cases hhit : last.weak == weakSum (content.extract (content.size - length) content.size) &&
          last.strong == Sha256.digest (content.extract (content.size - length) content.size)
      · rw [if_pos hhit, Signature.hits, List.filter_cons, if_pos hhit]
        exact yields_pure rfl
      · rw [if_neg hhit, Signature.hits, List.filter_cons, if_neg hhit]
        exact yields_pure rfl

section Loops

variable (hb : b.Steady P)
  (hfile : ∀ t, P t → (b.disk t).directoryAt? n = some false ∧ (b.disk t).content n = content)

include hb hfile

/-- Enough bytes are there, or the file has no more. -/
theorem ensure_spec (total length : Nat) {s : Scanner} (hs : s.Sees content) :
    b.Yields (b.ensure path ⟨n, false⟩ total length s) P (Scanner.Ensured content s.base length) := by
  induction s using Bench.ensure.induct length with
  | case1 s hlength =>
    rw [ensure, dif_pos hlength]
    exact yields_pure hs
  | case2 s hlength heof =>
    rw [ensure, dif_neg hlength, dif_pos heof]
    have hread : s.base + s.buffer.size = content.size := hs.read_eq heof
    exact yields_pure (show content.size < s.base + length by omega)
  | case3 s hlength heof ih =>
    rw [ensure, dif_neg hlength, dif_neg heof]
    refine yields_bind (yields_read hfile) ?_
    rintro piece rfl
    exact yields_bind (yields_report hb _) fun _ _ => ih _ (hs.append (b.readSize_pos s.read))

variable {blocks : List Block} {width : Nat}

/-- A window from scratch, if the rolling sum finds what is left to find from there. -/
theorem windows_of_slide {total : Nat} {s : Scanner} (hs : s.Sees content) {pos : Nat} {found : Array BlockMatch}
    (hslide : ∀ u : Scanner, u.Sees content → u.base = s.base → ∀ hfit : pos + width ≤ u.buffer.size,
      b.Yields (b.slide path ⟨n, false⟩ total (Table.ofBlocks blocks) width u pos hfit
          (RollingSum.ofSlice content (u.base + pos) (u.base + pos + width)) found) P
        fun out => out.toList = found.toList ++ plainWindows blocks width content (u.base + pos)) :
    b.Yields (b.windows path ⟨n, false⟩ total (Table.ofBlocks blocks) width s pos found) P
      fun out => out.toList = found.toList ++ plainWindows blocks width content (s.base + pos) := by
  rw [windows]
  refine yields_bind (ensure_spec hb hfile total (pos + width) hs) fun u hu => ?_
  rcases u with _ | ⟨u, hbase, hlength⟩
  · refine yields_pure ?_
    rw [plainWindows_end (show content.size < s.base + pos + width by rw [Nat.add_assoc]; exact hu), List.append_nil]
  · have hu : u.Sees content := hu
    have hrest := hslide u hu hbase hlength
    dsimp only
    rw [hu.sumAt_eq hlength]
    rwa [hbase] at hrest ⊢

variable (hwidth : 0 < width) (hlim : content.size ≤ Disk.seekLimit)

include hwidth hlim

/-- What is left to find from a window on, whose rolling sum is known. -/
theorem slide_spec {total : Nat} {s : Scanner} (hs : s.Sees content) {pos : Nat}
    (hfit : pos + width ≤ s.buffer.size) (found : Array BlockMatch) :
    b.Yields (b.slide path ⟨n, false⟩ total (Table.ofBlocks blocks) width s pos hfit
        (RollingSum.ofSlice content (s.base + pos) (s.base + pos + width)) found) P
      fun out => out.toList = found.toList ++ plainWindows blocks width content (s.base + pos) := by
  induction hk : content.size - (s.base + pos) using Nat.strongRecOn generalizing s pos found with
  | _ k ih =>
    subst hk
    have hread : s.base + s.buffer.size ≤ content.size := hs.read_le
    have hin : s.base + pos + width ≤ content.size := by omega
    rw [slide, dif_pos (by omega), hs.windowHits_eq blocks hfit]
    split
    · next hmiss =>
      rw [plainWindows_miss hwidth hin hmiss]
      refine yields_bind (ensure_spec hb hfile total (pos + width + 1) hs) fun u hu => ?_
      match u with
      | none =>
        refine yields_pure ?_
        have hu : content.size < s.base + (pos + width + 1) := hu
        rw [plainWindows_end (by omega), List.append_nil]
      | some ⟨u, hbase, hlength⟩ =>
        have hu : u.Sees content := hu
        have hpos : pos + 1 ≤ u.buffer.size := by omega
        have hmore : pos + width < u.buffer.size := hlength
        have hplace := u.base_compact hpos
        have hend : u.base + u.buffer.size ≤ content.size := hu.read_le
        rw [hbase] at hend hplace
        -- the sum rolls on to the next window
        have hroll : (RollingSum.ofSlice content (s.base + pos) (s.base + pos + width)).roll
            u.buffer[pos] u.buffer[pos + width] =
            RollingSum.ofSlice content (s.base + pos + 1) (s.base + pos + 1 + width) := by
          rw [hu.getElem_eq, hu.getElem_eq, hbase, ← Nat.add_assoc, RollingSum.roll_ofSlice hwidth (by omega)]
        dsimp only
        rw [← Nat.add_assoc] at hplace
        rw [hroll, ← hplace]
        exact ih _ (by omega) (hu.compact hpos) _ found rfl
    · next hhit =>
      have hplace := s.base_compact hfit
      rw [dif_pos hwidth, plainWindows_hit hwidth hin hhit, ← List.append_assoc,
        ← foldl_push_toList _ fun x : Block => (⟨⟨s.base + pos, width⟩, x.index⟩ : BlockMatch),
        Nat.add_assoc s.base, ← hplace]
      refine windows_of_slide hb hfile (hs.compact hfit) fun u hu hbase hfit' => ?_
      exact ih _ (by rw [hbase, hplace]; omega) hu hfit' _ rfl

theorem windows_spec {total : Nat} {s : Scanner} (hs : s.Sees content) (pos : Nat) (found : Array BlockMatch) :
    b.Yields (b.windows path ⟨n, false⟩ total (Table.ofBlocks blocks) width s pos found) P
      fun out => out.toList = found.toList ++ plainWindows blocks width content (s.base + pos) :=
  windows_of_slide hb hfile hs fun _ hu _ hfit => slide_spec hb hfile hwidth hlim hu hfit found

end Loops

/-- The blocks found in a file are those the plain scan finds in its content. -/
theorem findMatches_spec (hb : b.Steady P) (hfile : ∀ t, P t → (b.disk t).HasFile path n content)
    (hlim : content.size ≤ Disk.sizeLimit) {s : Signature} (hwidth : 0 < s.blockLength.toNat ∨ s.blocks = []) :
    b.Yields (b.findMatches path s) P (· = plainScan s content) := by
  have hplain : ∀ t, P t → (b.disk t).directoryAt? n = some false ∧ (b.disk t).content n = content :=
    fun t ht => ⟨(hfile t ht).leads.plain, (hfile t ht).content⟩
  unfold findMatches
  refine yields_bind (yields_ask (Q := (· = ⟨n, false⟩)) (fun t ht => (hfile t ht).leads.openFile) rfl) ?_
  rintro _ rfl
  refine yields_bind (yields_ask (Q := (· = content.size)) (fun t ht => ?_) rfl) ?_
  · rw [Disk.sizeOf_eq (hplain t ht).1, (hplain t ht).2]
  rintro _ rfl
  have hrest : ∀ found : Array BlockMatch,
      found.toList = plainWindows s.fullBlocks s.blockLength.toNat content 0 →
      b.Yields (do
        let tail ← b.matchTail path ⟨n, false⟩ content.size s
        b.report 100
        return (found.toList ++ tail.toList).mergeSort BlockMatch.le) P (· = plainScan s content) := by
    intro found hfound
    refine yields_bind (matchTail_spec (fun t ht => (hfile t ht).bytes) hlim s) fun tail htail => ?_
    refine yields_bind (yields_report hb _) fun _ _ => yields_pure ?_
    rw [hfound, htail, plainScan]
  dsimp only
  by_cases hnone : s.fullBlocks.isEmpty || content.size < s.blockLength.toNat
  · -- no window can be a block
    rw [if_pos hnone]
    refine yields_bind (yields_pure (Q := (· = #[])) rfl) ?_
    rintro _ rfl
    refine hrest #[] ?_
    rw [Bool.or_eq_true, List.isEmpty_iff, decide_eq_true_eq] at hnone
    rcases hnone with hempty | hshort
    · rw [hempty, plainWindows_nil]
    · rw [plainWindows_end (by omega)]
  · rw [if_neg hnone]
    rw [Bool.or_eq_true, List.isEmpty_iff, decide_eq_true_eq, not_or] at hnone
    have hpos : 0 < s.blockLength.toNat := by
      refine hwidth.resolve_right fun hblocks => hnone.1 ?_
      rw [Signature.fullBlocks, hblocks]
      rfl
    refine yields_bind (windows_spec hb hplain hpos (Nat.le_trans hlim (by decide)) (Scanner.sees_start content) 0 #[])
      fun found hfound => hrest found ?_
    rwa [List.nil_append] at hfound

theorem width_of_valid {s : Signature} (h : s.flaw? = none) : 0 < s.blockLength.toNat ∨ s.blocks = [] := by
  by_cases hnil : s.blocks = []
  · exact .inr hnil
  · exact .inl (Signature.width_of_flawless h hnil)

/-- A search that nobody stops ends, and returns the list of the plain scan, however much each read gives.
All that the search looks at in its buffer was read before: every index there comes with its bound. -/
theorem findMatches_eq_plainScan {s : Signature} (hvalid : s.flaw? = none)
    (hfile : ∀ t, P t → (b.disk t).HasFile path n content) (hlim : content.size ≤ Disk.sizeLimit)
    (haccept : ∀ p t, P t → (b.listen p t).1 ∧ P (b.listen p t).2) {t : σ} (ht : P t) :
    ∃ u, (b.findMatches path s).run.run t = (.ok (plainScan s content), u) ∧ P u := by
  obtain ⟨r, u, hrun, hu, hresult, hgo⟩ :=
    findMatches_spec (fun p t h => (haccept p t h).2) hfile hlim (width_of_valid hvalid) t ht
  obtain ⟨found, rfl⟩ := hgo fun p t h => (haccept p t h).1
  exact ⟨u, by rw [hrun, hresult found rfl], hu⟩

/-- A disk with a listener that counts what it hears. Each read gives one byte. -/
def bytewise : Bench (Disk × Nat) where
  disk t := t.1
  putDisk d t := (d, t.2)
  listen _ t := (true, t.1, t.2 + 1)
  granted _ := 1

/-- A disk with one file of three bytes. -/
def tripleDisk : Disk := ⟨#[.directory none, .file ⟨#[2, 1, 2]⟩ none], [([], 0), (["l"], 1)], []⟩

theorem plainScan_triple : plainScan (Signature.describe 1 ⟨#[1, 2]⟩) ⟨#[2, 1, 2]⟩ =
    [⟨⟨0, 1⟩, 1⟩, ⟨⟨1, 1⟩, 0⟩, ⟨⟨2, 1⟩, 1⟩] := by
  have hwidth : (Signature.describe 1 ⟨#[1, 2]⟩).blockLength.toNat = 1 := rfl
  have hblocks : (Signature.describe 1 ⟨#[1, 2]⟩).fullBlocks =
      [⟨0, weakSum ⟨#[1]⟩, Sha256.digest ⟨#[1]⟩⟩, ⟨1, weakSum ⟨#[2]⟩, Sha256.digest ⟨#[2]⟩⟩] := rfl
  have hweak : weakSum ⟨#[1]⟩ ≠ weakSum ⟨#[2]⟩ := by decide
  have h₀ : hits (Signature.describe 1 ⟨#[1, 2]⟩).fullBlocks ((⟨#[2, 1, 2]⟩ : ByteArray).extract 0 1) =
      [⟨1, weakSum ⟨#[2]⟩, Sha256.digest ⟨#[2]⟩⟩] := by
    rw [hblocks, show (⟨#[2, 1, 2]⟩ : ByteArray).extract 0 1 = ⟨#[2]⟩ from rfl]
    simp [hits, hweak]
  have h₁ : hits (Signature.describe 1 ⟨#[1, 2]⟩).fullBlocks ((⟨#[2, 1, 2]⟩ : ByteArray).extract 1 2) =
      [⟨0, weakSum ⟨#[1]⟩, Sha256.digest ⟨#[1]⟩⟩] := by
    rw [hblocks, show (⟨#[2, 1, 2]⟩ : ByteArray).extract 1 2 = ⟨#[1]⟩ from rfl]
    simp [hits, hweak.symm]
  have h₂ : hits (Signature.describe 1 ⟨#[1, 2]⟩).fullBlocks ((⟨#[2, 1, 2]⟩ : ByteArray).extract 2 3) =
      [⟨1, weakSum ⟨#[2]⟩, Sha256.digest ⟨#[2]⟩⟩] := by
    rw [hblocks, show (⟨#[2, 1, 2]⟩ : ByteArray).extract 2 3 = ⟨#[2]⟩ from rfl]
    simp [hits, hweak]
  have htail : plainTail (Signature.describe 1 ⟨#[1, 2]⟩) ⟨#[2, 1, 2]⟩ = [] := rfl
  rw [plainScan, htail, hwidth, plainWindows_hit (by decide) (by decide) (by rw [h₀]; nofun), h₀,
    plainWindows_hit (by decide) (by decide) (by rw [h₁]; nofun), h₁,
    plainWindows_hit (by decide) (by decide) (by rw [h₂]; nofun), h₂, plainWindows_end (by decide)]
  exact List.mergeSort_of_pairwise (by decide)

/-- The second block of `[1, 2]` is found at both places, the first one between them. -/
theorem findMatches_bytewise :
    (Signature.describe 1 ⟨#[1, 2]⟩).flaw? = none ∧
      ∃ heard, (bytewise.findMatches "l" (Signature.describe 1 ⟨#[1, 2]⟩)).run.run (tripleDisk, 0) =
        (.ok [⟨⟨0, 1⟩, 1⟩, ⟨⟨1, 1⟩, 0⟩, ⟨⟨2, 1⟩, 1⟩], tripleDisk, heard) := by
  have hvalid : (Signature.describe 1 ⟨#[1, 2]⟩).flaw? = none :=
    Signature.flaw?_describe (by decide) (by decide) (by decide)
  have hfile : ∀ t : Disk × Nat, t.1 = tripleDisk → (bytewise.disk t).HasFile "l" 1 ⟨#[2, 1, 2]⟩ := by
    rintro ⟨_, k⟩ rfl
    exact ⟨⟨by cbv, rfl⟩, rfl⟩
  obtain ⟨⟨_, heard⟩, hrun, rfl⟩ := findMatches_eq_plainScan (P := fun t => t.1 = tripleDisk) hvalid hfile
    (by decide) (fun _ _ h => ⟨rfl, h⟩) (t := (tripleDisk, 0)) rfl
  exact ⟨hvalid, heard, by rw [hrun, plainScan_triple]⟩

end Bench

/-! ## What a match says -/

/-- The bytes at the place of a match have the checksums of its block. -/
def BlockMatch.Sound (s : Signature) (content : ByteArray) (m : BlockMatch) : Prop :=
  ∃ x ∈ s.blocks, m.index = x.index ∧ m.place.length = (s.blockRange x.index).length ∧
    m.place.stop ≤ content.size ∧ x.strong = Sha256.digest (content.extract m.place.start m.place.stop)

theorem mem_plainWindows {blocks : List Block} {width : Nat} {content : ByteArray} {pos : Nat} {m : BlockMatch}
    (h : m ∈ plainWindows blocks width content pos) :
    ∃ x ∈ blocks, m.index = x.index ∧ m.place.length = width ∧ m.place.stop ≤ content.size ∧
      x.strong = Sha256.digest (content.extract m.place.start m.place.stop) := by
  induction hk : content.size - pos using Nat.strongRecOn generalizing pos with
  | _ k ih =>
    subst hk
    by_cases hfit : 0 < width ∧ pos + width ≤ content.size
    · by_cases hhits : Signature.hits blocks (content.extract pos (pos + width)) = []
      · rw [plainWindows_miss hfit.1 hfit.2 hhits] at h
        exact ih _ (by omega) h rfl
      · rw [plainWindows_hit hfit.1 hfit.2 hhits, List.mem_append] at h
        rcases h with h | h
        · obtain ⟨x, hx, rfl⟩ := List.mem_map.1 h
          obtain ⟨hx, hsums⟩ := List.mem_filter.1 hx
          rw [Bool.and_eq_true] at hsums
          exact ⟨x, hx, rfl, rfl, hfit.2, beq_iff_eq.1 hsums.2⟩
        · exact ih _ (by omega) h rfl
    · rw [plainWindows, dif_neg hfit] at h
      exact absurd h List.not_mem_nil

theorem mem_plainScan {s : Signature} {content : ByteArray} {m : BlockMatch} (h : m ∈ plainScan s content) :
    m.Sound s content := by
  rw [plainScan, (List.mergeSort_perm _ _).mem_iff, List.mem_append] at h
  rcases h with h | h
  · obtain ⟨x, hx, hindex, hlength, hrest⟩ := mem_plainWindows h
    obtain ⟨hx, hfull⟩ := List.mem_filter.1 hx
    exact ⟨x, hx, hindex, hlength.trans (beq_iff_eq.1 hfull).symm, hrest⟩
  · unfold plainTail at h
    split at h
    · exact absurd h List.not_mem_nil
    · next last hlast =>
      dsimp only at h
      split at h
      · exact absurd h List.not_mem_nil
      · next hskip =>
        obtain ⟨x, hx, rfl⟩ := List.mem_map.1 h
        obtain ⟨hx, hsums⟩ := List.mem_filter.1 hx
        obtain rfl := List.mem_singleton.1 hx
        rw [Bool.and_eq_true] at hsums
        have hstop : content.size - (s.blockRange x.index).length + (s.blockRange x.index).length =
            content.size := by omega
        refine ⟨x, List.mem_of_getLast? hlast, rfl, rfl, Nat.le_of_eq hstop, ?_⟩
        rw [ByteRange.stop, hstop]
        exact beq_iff_eq.1 hsums.2

end FileSwarm
