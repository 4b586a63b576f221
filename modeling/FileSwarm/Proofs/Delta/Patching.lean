import FileSwarm.Proofs.Delta.Planning
import FileSwarm.Proofs.Signature.Builder

/-!
# What a list of matches says

A list of matches names a source for some blocks: the first match that has the block's length. Copying does what the
list says, whatever else stands in it.

* `Signature.mem_blocks_of_mem` : a signature without a flaw has a block for every byte that is in a block's range;
* `Signature.chosen`, `provider` : the match a block, or the block of a byte, is copied from;
* `Signature.laid`, `patched` : the chosen bytes laid over older content; `byte?_laid`, `byte?_patched` : byte by byte;
* `Patched` : what holds once the matches of a prefix were looked at; `Patched.skip`, `Patched.copy` : one more match;
* `copyEach_patches`, `copyEach_total` : all of them;
* `copyMatches_exact` : what is copied, what is available, and when copying fails.
-/

namespace FileSwarm

open Bytes

namespace Signature

variable {s : Signature}

/-! ## Blocks of a signature without a flaw -/

/-- Every byte of a block's range has its block in the list. -/
theorem mem_blocks_of_mem (h : s.flaw? = none) {i : UInt64} {o : Nat} (ho : o ∈ s.blockRange i) :
    ∃ x ∈ s.blocks, x.index = i := by
  obtain ⟨-, -, -, hindex⟩ := flaw?_eq_none_iff.1 h
  have hpos : 0 < (s.blockRange i).length := by
    have hstop := Nat.lt_of_le_of_lt ho.1 ho.2
    rw [ByteRange.stop] at hstop
    omega
  have hlt := (lt_length_iff h).2 (lt_of_blockRange_pos hpos)
  exact ⟨_, List.getElem_mem hlt, UInt64.toNat_inj.1 (hindex _ _ (List.getElem?_eq_getElem hlt))⟩

theorem exists_mem_of_mem_blocks (h : s.flaw? = none) {x : Block} (hx : x ∈ s.blocks) :
    ∃ o, o ∈ s.blockRange x.index := by
  obtain ⟨-, -, -, hindex⟩ := flaw?_eq_none_iff.1 h
  obtain ⟨n, hn⟩ := List.mem_iff_getElem?.1 hx
  have hk := width_of_flawless h (List.ne_nil_of_mem hx)
  have hlt := (lt_length_iff h).1 (List.getElem?_eq_some_iff.1 hn).1
  rw [← hindex n x hn] at hlt
  refine ⟨x.index.toNat * s.blockLength.toNat, ?_⟩
  rw [blockRange_of_lt hlt]
  exact ⟨Nat.le_refl _, Nat.lt_add_of_pos_right (by show 0 < min _ _; omega)⟩

/-! ## The match a block is copied from -/

variable (s)

instance (m : BlockMatch) : Decidable (m.Fits s) :=
  inferInstanceAs (Decidable (m.place.length = (s.blockRange m.index).length))

/-- The first match of a block that has its length. -/
def chosen (l : List BlockMatch) (i : UInt64) : Option BlockMatch := l.find? fun m => m.index = i ∧ m.Fits s

/-- The first match of the block that has a byte. -/
def provider (l : List BlockMatch) (o : Nat) : Option BlockMatch :=
  l.find? fun m => o ∈ s.blockRange m.index ∧ m.Fits s

variable {s} {l : List BlockMatch} {m x : BlockMatch} {i : UInt64} {o : Nat}

theorem index_of_chosen (h : s.chosen l i = some m) : m.index = i ∧ m.Fits s := by
  simpa using List.find?_some (show l.find? _ = some m from h)

theorem mem_of_provider (h : s.provider l o = some m) : o ∈ s.blockRange m.index ∧ m.Fits s := by
  simpa using List.find?_some (show l.find? _ = some m from h)

theorem provider_eq_chosen (l : List BlockMatch) (ho : o ∈ s.blockRange i) : s.provider l o = s.chosen l i := by
  have hiff : ∀ m : BlockMatch, o ∈ s.blockRange m.index ↔ m.index = i := fun m =>
    ⟨fun hm => by_contra fun hne => s.blockRange_disjoint hne hm ho, fun hm => hm ▸ ho⟩
  unfold provider chosen
  simp only [hiff]

theorem chosen_of_provider (h : s.provider l o = some m) : s.chosen l m.index = some m :=
  (provider_eq_chosen l (mem_of_provider h).1).symm.trans h

theorem provider_append (l : List BlockMatch) (x : BlockMatch) (o : Nat) : s.provider (l ++ [x]) o =
    (s.provider l o).or (if o ∈ s.blockRange x.index ∧ x.Fits s then some x else none) := by
  rw [provider, provider, List.find?_append]
  congr 1
  by_cases h : o ∈ s.blockRange x.index ∧ x.Fits s
  · simp [h]
  · simp [h]

theorem provider_append_of_forall (h : x.Fits s → ∀ o ∈ s.blockRange x.index, (s.provider l o).isSome) (o : Nat) :
    s.provider (l ++ [x]) o = s.provider l o := by
  rw [provider_append]
  split
  · next hx =>
    obtain ⟨m, hm⟩ := Option.isSome_iff_exists.1 (h hx.2 o hx.1)
    rw [hm]
    rfl
  · exact Option.or_none

/-- What becomes available are the bytes that come from somewhere. -/
theorem state?_marked_provider (l : List BlockMatch) (o : Nat) : (s.marked l).state? o =
    if o < s.fileLength.toNat then some (if (s.provider l o).isSome then .available else .needed) else none := by
  have hskip : ∀ parts : PartMap, l.foldl s.mark parts = (l.filter (·.Fits s)).foldl s.mark parts := by
    induction l with
    | nil => exact fun _ => rfl
    | cons m l ih =>
      intro parts
      rw [List.foldl_cons, List.filter_cons]
      by_cases hm : m.Fits s
      · rw [if_pos (decide_eq_true hm), List.foldl_cons, ih]
      · rw [if_neg (by simpa using hm), ← ih]
        congr 1
        exact if_pos (.inl fun heq => hm heq.symm)
  have hsome : (s.provider l o).isSome ↔ ∃ m ∈ l.filter (·.Fits s), o ∈ s.blockRange m.index := by
    rw [provider, List.find?_isSome]
    refine exists_congr fun m => ?_
    rw [List.mem_filter, decide_eq_true_eq, decide_eq_true_eq]
    exact and_assoc.symm.trans (and_right_comm.trans Iff.rfl)
  rw [marked, hskip, ← marked, s.state?_marked (fun m hm => by simpa using (List.mem_filter.1 hm).2)]
  simp only [hsome]

/-! ## The bytes that copying makes -/

/-- The chosen bytes of one block are laid over content. -/
def laid (s : Signature) (l : List BlockMatch) (L content : ByteArray) (i : UInt64) : ByteArray :=
  match s.chosen l i with
  | some m => Disk.overlay content (s.blockRange i).start (L.extract m.place.start m.place.stop)
  | none => content

/-- Older content, cut or filled up with zeros, and the chosen bytes of every block laid over it. -/
def patched (s : Signature) (l : List BlockMatch) (L old : ByteArray) : ByteArray :=
  (s.blocks.map (·.index)).foldl (s.laid l L) (Disk.resize old s.fileLength.toNat)

/-- All that is copied is there. -/
def Within (s : Signature) (l : List BlockMatch) (L : ByteArray) : Prop :=
  ∀ o m, s.provider l o = some m → m.place.stop ≤ L.size

variable {L content : ByteArray}

theorem isSome_provider (hvalid : s.flaw? = none) : (s.provider l o).isSome ↔
    ∃ x ∈ s.blocks, o ∈ s.blockRange x.index ∧ (s.chosen l x.index).isSome := by
  constructor
  · intro h
    obtain ⟨m, hm⟩ := Option.isSome_iff_exists.1 h
    have ho := (mem_of_provider hm).1
    obtain ⟨x, hx, hindex⟩ := mem_blocks_of_mem hvalid ho
    rw [← hindex] at ho
    exact ⟨x, hx, ho, provider_eq_chosen l ho ▸ h⟩
  · rintro ⟨x, -, ho, hchosen⟩
    rwa [provider_eq_chosen l ho]

theorem within_iff (hvalid : s.flaw? = none) :
    s.Within l L ↔ ∀ x ∈ s.blocks, ∀ m, s.chosen l x.index = some m → m.place.stop ≤ L.size := by
  constructor
  · intro h x hx m hm
    obtain ⟨o, ho⟩ := exists_mem_of_mem_blocks hvalid hx
    exact h o m ((provider_eq_chosen l ho).trans hm)
  · intro h o m hm
    obtain ⟨x, hx, hindex⟩ := mem_blocks_of_mem hvalid (mem_of_provider hm).1
    exact h x hx m (hindex ▸ chosen_of_provider hm)

/-- What is laid over content is one block: its bytes are new, the others stay. -/
theorem byte?_laid (hin : s.Within l L) (hsize : content.size = s.fileLength.toNat) (i : UInt64) :
    (s.laid l L content i).size = s.fileLength.toNat ∧
    ∀ o, byte? (s.laid l L content i) o =
      match s.chosen l i with
      | some m => if o ∈ s.blockRange i then byte? L (m.place.start + (o - (s.blockRange i).start)) else byte? content o
      | none => byte? content o := by
  unfold laid
  cases hm : s.chosen l i with
  | none => exact ⟨hsize, fun _ => rfl⟩
  | some m =>
    obtain ⟨rfl, hfits⟩ := index_of_chosen hm
    have hbounds := s.blockRange_bounds m.index
    have hthere : ∀ o ∈ s.blockRange m.index, m.place.stop ≤ L.size := fun o ho =>
      hin o m ((provider_eq_chosen l ho).trans hm)
    rw [BlockMatch.Fits] at hfits
    dsimp only
    generalize s.blockRange m.index = r at *
    have hstop : r.stop = r.start + r.length := rfl
    rcases Nat.eq_zero_or_pos r.length with hempty | hpos
    · -- a block without bytes
      have hnew : (L.extract m.place.start m.place.stop).size = 0 := by
        rw [ByteArray.size_extract, ByteRange.stop]
        omega
      rw [Disk.overlay, if_pos (isEmpty_iff.2 hnew)]
      refine ⟨hsize, fun o => (if_neg fun ho => ?_).symm⟩
      exact absurd (Nat.lt_of_le_of_lt ho.1 ho.2) (by omega)
    · have hend := hthere r.start ⟨Nat.le_refl _, by omega⟩
      have hnew : (L.extract m.place.start m.place.stop).size = r.length := by
        rw [ByteRange.size_extract hend, hfits]
      refine ⟨?_, fun o => ?_⟩
      · rw [Disk.size_overlay (by omega)]
        omega
      · rw [Disk.byte?_overlay (by omega), hnew]
        by_cases ho : o ∈ r
        · have hlt : o - r.start < m.place.length := by
            have := ho.1
            have := ho.2
            omega
          rw [if_neg (Nat.not_lt.2 ho.1), if_pos (show o < r.start + r.length from ho.2), if_pos ho, byte?_extract,
            if_pos]
          rw [ByteRange.stop] at hend ⊢
          omega
        · rw [if_neg ho]
          rw [ByteRange.mem_iff] at ho
          split
          · exact if_pos (by omega)
          · exact if_neg (by omega)

/-- Where a byte of what copying makes comes from. -/
def patchedByte? (s : Signature) (l : List BlockMatch) (L old : ByteArray) (o : Nat) : Option UInt8 :=
  match s.provider l o with
  | some m => byte? L (m.place.start + (o - (s.blockRange m.index).start))
  | none => byte? (Disk.resize old s.fileLength.toNat) o

theorem byte?_laid_provider (hin : s.Within l L) (hsize : content.size = s.fileLength.toNat) (i : UInt64) (o : Nat) :
    byte? (s.laid l L content i) o =
      match s.provider l o with
      | some m =>
        if m.index = i then byte? L (m.place.start + (o - (s.blockRange m.index).start)) else byte? content o
      | none => byte? content o := by
  rw [(byte?_laid hin hsize i).2]
  cases hm : s.provider l o with
  | none =>
    dsimp only
    split
    · next m hchosen =>
      exact if_neg fun ho => nomatch hm.symm.trans ((provider_eq_chosen l ho).trans hchosen)
    · rfl
  | some m =>
    dsimp only
    by_cases hi : m.index = i
    · subst hi
      rw [chosen_of_provider hm, if_pos rfl]
      exact if_pos (mem_of_provider hm).1
    · rw [if_neg hi]
      split
      · exact if_neg (s.blockRange_disjoint hi (mem_of_provider hm).1)
      · rfl

theorem byte?_foldl_laid (hin : s.Within l L) (hsize : content.size = s.fileLength.toNat) (indices : List UInt64)
    (o : Nat) : byte? (indices.foldl (s.laid l L) content) o =
      match s.provider l o with
      | some m =>
        if m.index ∈ indices then byte? L (m.place.start + (o - (s.blockRange m.index).start)) else byte? content o
      | none => byte? content o := by
  induction indices generalizing content with
  | nil => split <;> rfl
  | cons i indices ih =>
    rw [List.foldl_cons, ih (byte?_laid hin hsize i).1, byte?_laid_provider hin hsize]
    cases s.provider l o with
    | none => rfl
    | some m =>
      dsimp only
      by_cases hi : m.index = i
      · rw [if_pos hi, ite_self, if_pos (hi ▸ List.mem_cons_self)]
      · rw [if_neg hi]
        simp only [List.mem_cons, hi, false_or]

theorem byte?_patched (hvalid : s.flaw? = none) (hin : s.Within l L) (old : ByteArray) (o : Nat) :
    byte? (s.patched l L old) o = s.patchedByte? l L old o := by
  rw [patched, byte?_foldl_laid hin (Disk.size_resize _ _), patchedByte?]
  cases hm : s.provider l o with
  | none => rfl
  | some m =>
    obtain ⟨x, hx, hindex⟩ := mem_blocks_of_mem hvalid (mem_of_provider hm).1
    exact if_pos (hindex ▸ List.mem_map_of_mem hx)

end Signature

/-! ## Copying, match by match -/

/-- The matches of `l` were looked at: what they say is in the file `n` of the disk `e`, which was `old` on the
disk `d`, and in the part map. -/
structure Patched (s : Signature) (l : List BlockMatch) (L old : ByteArray) (n : Nat) (d e : Disk) (parts : PartMap) :
    Prop where
  alike : Disk.Alike n d e
  within : s.Within l L
  content : ∃ new, e.bytesAt? n = some new ∧ new.size = s.fileLength.toNat ∧
    ∀ o, byte? new o = s.patchedByte? l L old o
  parts_eq : parts = s.marked l

namespace Patched

variable {s : Signature} {l : List BlockMatch} {L old : ByteArray} {n : Nat} {d e f : Disk} {parts : PartMap}
  {x : BlockMatch}

theorem marked_append (h : Patched s l L old n d e parts) (x : BlockMatch) : s.marked (l ++ [x]) = s.mark parts x := by
  rw [Signature.marked, List.foldl_append, ← Signature.marked, ← h.parts_eq]
  rfl

theorem isSome_iff (h : Patched s l L old n d e parts) {o : Nat} (ho : o < s.fileLength.toNat) :
    parts.state? o = some .available ↔ (s.provider l o).isSome := by
  rw [h.parts_eq, Signature.state?_marked_provider, if_pos ho]
  split
  · next hsome => exact iff_of_true rfl hsome
  · next hnone => exact iff_of_false (by decide) hnone

theorem skip (h : Patched s l L old n d e parts) (hskip : (s.blockRange x.index).length ≠ x.place.length ∨
    parts.count (s.blockRange x.index) .available = (s.blockRange x.index).length) :
    Patched s (l ++ [x]) L old n d e parts := by
  have hsame : s.provider (l ++ [x]) = s.provider l := by
    refine funext (Signature.provider_append_of_forall fun hfits o ho => ?_)
    have hcount := hskip.resolve_left (not_not.2 hfits.symm)
    exact (h.isSome_iff ((s.mem_blockRange.1 ho).2.2)).1 (PartMap.state?_of_count hcount ho)
  have hmark : s.mark parts x = parts := if_pos hskip
  refine ⟨h.alike, fun o m hm => h.within o m (hsame ▸ hm), ?_, by rw [h.marked_append, hmark]⟩
  obtain ⟨new, hnew, hsize, hbytes⟩ := h.content
  exact ⟨new, hnew, hsize, fun o => by rw [hbytes, Signature.patchedByte?, Signature.patchedByte?, hsame]⟩

/-- A match that is not passed over is the first for its block, which has bytes. -/
theorem fresh (h : Patched s l L old n d e parts)
    (hcount : parts.count (s.blockRange x.index) .available ≠ (s.blockRange x.index).length) :
    0 < (s.blockRange x.index).length ∧ ∀ o ∈ s.blockRange x.index, s.provider l o = none := by
  have hpos : 0 < (s.blockRange x.index).length :=
    Nat.pos_of_ne_zero fun hz => hcount (by rw [PartMap.count_of_empty hz, hz])
  have hlength : parts.length = s.fileLength.toNat := h.parts_eq ▸ s.length_marked l
  refine ⟨hpos, fun o ho => Option.eq_none_iff_forall_ne_some.2 fun m hm => hcount ?_⟩
  have hchosen := (Signature.provider_eq_chosen l ho).symm.trans hm
  refine PartMap.count_of_forall ?_ fun q hq => ?_
  · rw [hlength]
    exact (s.blockRange_bounds x.index).resolve_left (Nat.ne_of_gt hpos)
  · refine (h.isSome_iff (s.mem_blockRange.1 hq).2.2).2 ?_
    rw [Signature.provider_eq_chosen l hq, hchosen]
    rfl

theorem copy (h : Patched s l L old n d e parts) (hfits : x.Fits s)
    (hcount : parts.count (s.blockRange x.index) .available ≠ (s.blockRange x.index).length)
    (hthere : x.place.stop ≤ L.size) {writable : Bool}
    (hwrite : e.writeAt ⟨n, writable⟩ (s.blockRange x.index).start (L.extract x.place.start x.place.stop) = .ok f) :
    Patched s (l ++ [x]) L old n d f (parts.set (s.blockRange x.index) .available) := by
  obtain ⟨hpos, hfresh⟩ := h.fresh hcount
  have hprovider : ∀ o, s.provider (l ++ [x]) o =
      if o ∈ s.blockRange x.index then some x else s.provider l o := by
    intro o
    rw [Signature.provider_append]
    by_cases ho : o ∈ s.blockRange x.index
    · rw [hfresh o ho, if_pos ⟨ho, hfits⟩, if_pos ho]
      rfl
    · rw [if_neg fun hc => ho hc.1, if_neg ho, Option.or_none]
  have hwithin : s.Within (l ++ [x]) L := by
    intro o m hm
    rw [hprovider] at hm
    split at hm
    · exact Option.some.inj hm ▸ hthere
    · exact h.within o m hm
  have hchosen : s.chosen (l ++ [x]) x.index = some x := by
    have hfirst : (s.blockRange x.index).start ∈ s.blockRange x.index :=
      ⟨Nat.le_refl _, Nat.lt_add_of_pos_right hpos⟩
    rw [← Signature.provider_eq_chosen _ hfirst, hprovider, if_pos hfirst]
  obtain ⟨new, hnew, hsize, hbytes⟩ := h.content
  have hextract : 0 < (L.extract x.place.start x.place.stop).size := by
    rw [ByteRange.size_extract hthere, hfits]
    exact hpos
  obtain ⟨new', hnew', -, halike, hput⟩ := Disk.writeAt_eq_ok hextract hwrite
  obtain rfl : new' = new := Option.some.inj (hnew'.symm.trans hnew)
  have hlaid : Disk.overlay new' (s.blockRange x.index).start (L.extract x.place.start x.place.stop) =
      s.laid (l ++ [x]) L new' x.index := by
    rw [Signature.laid, hchosen]
  refine ⟨h.alike.trans halike, hwithin, ⟨_, hlaid ▸ hput, (Signature.byte?_laid hwithin hsize _).1, fun o => ?_⟩, ?_⟩
  · rw [Signature.byte?_laid_provider hwithin hsize, Signature.patchedByte?, hprovider]
    by_cases ho : o ∈ s.blockRange x.index
    · rw [if_pos ho]
      exact if_pos rfl
    · rw [if_neg ho, hbytes, Signature.patchedByte?]
      cases hm : s.provider l o with
      | none => rfl
      | some m => exact if_neg fun hi : m.index = x.index => ho (hi ▸ (Signature.mem_of_provider hm).1)
  · have hmark : s.mark parts x = parts.set (s.blockRange x.index) .available :=
      if_neg (not_or.2 ⟨not_not.2 hfits.symm, hcount⟩)
    rw [h.marked_append, hmark]

end Patched

/-! ## The loop -/

theorem Disk.readExact_eq_ok {d : Disk} {h : Handle} {content bytes : ByteArray} (hb : d.bytesAt? h.node = some content)
    {offset length : Nat} (hpos : 0 < length) (hr : d.readExact h offset length = .ok bytes) :
    offset + length ≤ content.size ∧ bytes = content.extract offset (offset + length) := by
  have hsize := size_of_readExact hr
  obtain ⟨stamp, hn⟩ := bytesAt?_eq_some.1 hb
  have hdir : d.directoryAt? h.node = some false := by simp [directoryAt?, hn, Node.isDirectory]
  have hread : d.readAt h offset length = .ok (content.extract offset (offset + length)) := by
    rw [readAt_eq hdir, Disk.content, hb]
    rfl
  simp only [readExact, bind, Except.bind, pure, Except.pure, if_neg (Nat.ne_of_gt hpos), hread] at hr
  split at hr
  · cases hr
  · split at hr
    · cases hr
      rw [ByteArray.size_extract] at hsize
      exact ⟨by omega, rfl⟩
    · cases hr

theorem Disk.readExact_error {d : Disk} {h : Handle} {content : ByteArray} (hb : d.bytesAt? h.node = some content)
    {offset length : Nat} {cause : Cause} (hr : d.readExact h offset length = .error cause) (path : String) :
    Failure.ofRead path cause = .read path cause := by
  obtain ⟨stamp, hn⟩ := bytesAt?_eq_some.1 hb
  have hdir : d.directoryAt? h.node = some false := by simp [directoryAt?, hn, Node.isDirectory]
  have hcause : cause = .invalidArgument ∨ cause = .shortRead := by
    simp only [readExact, seek, hn, readAt_eq hdir, bind, Except.bind, pure, Except.pure, throw, throwThe,
      MonadExceptOf.throw] at hr
    by_cases hfar : sizeLimit < offset
    · rw [if_pos hfar] at hr
      exact .inl (Except.error.inj hr).symm
    · rw [if_neg hfar] at hr
      dsimp only at hr
      repeat' split at hr
      · cases hr
      · cases hr
      · exact .inr (Except.error.inj hr).symm
  rcases hcause with rfl | rfl <;> rfl

theorem Disk.writable_of_setLength {d e : Disk} {h : Handle} {length : Nat} (hs : d.setLength h length = .ok e) :
    h.writable := by
  simp only [setLength] at hs
  split at hs
  · cases hs
  · split at hs
    · split at hs
      · cases hs
      · next hwritable => simpa using hwritable
    · cases hs

namespace Bench

open Work

variable {σ : Type} {b : Bench σ} {s : Signature} {L old : ByteArray} {k n : Nat} {d : Disk} {source : String}

/-- How copying ends once all matches of `l` were looked at: what they say is done, or, if nobody says stop and the
temp file can be given its length, one of them says more than can be read. -/
def Ends (b : Bench σ) (s : Signature) (l : List BlockMatch) (L old : ByteArray) (source : String) (into : Handle)
    (d : Disk) (run : Except Failure PartMap × σ) : Prop :=
  match run.1 with
  | .ok parts => Patched s l L old into.node d (b.disk run.2) parts
  | .error failure => (∀ p u, (b.listen p u).1) → (∃ e, d.setLength into s.fileLength.toNat = .ok e) →
    ∃ cause, failure = .read source cause ∧ ¬ s.Within l L

theorem copyEach_ends (hget : ∀ d t, b.disk (b.putDisk d t) = d) (hheard : ∀ p t, b.disk (b.listen p t).2 = b.disk t)
    (hL : d.bytesAt? k = some L) (hlim : L.size ≤ Disk.sizeLimit) (source target : String) {into : Handle}
    (hk : k ≠ into.node) (total done : Nat) {l : List BlockMatch} (rest : List BlockMatch) {t : σ} {parts : PartMap}
    (h : Patched s l L old into.node d (b.disk t) parts) :
    b.Ends s (l ++ rest) L old source into d
      ((b.copyEach source ⟨k, false⟩ target into s total done parts rest).run.run t) := by
  induction rest generalizing l done t parts with
  | nil => rwa [List.append_nil]
  | cons x rest ih =>
    rw [List.append_cons]
    unfold copyEach
    dsimp only
    by_cases hskip : (s.blockRange x.index).length ≠ x.place.length ∨
        parts.count (s.blockRange x.index) .available = (s.blockRange x.index).length
    · rw [if_pos hskip]
      exact ih _ (h.skip hskip)
    · rw [if_neg hskip, run_bind, run_ask]
      obtain ⟨hlength, hcount⟩ := not_or.1 hskip
      have hfits : x.Fits s := (not_not.1 hlength).symm
      obtain ⟨hpos, hfresh⟩ := h.fresh hcount
      have hsource : (b.disk t).bytesAt? k = some L := (h.alike.others k hk).trans hL
      cases hread : (b.disk t).readExact ⟨k, false⟩ x.place.start (s.blockRange x.index).length with
      | error cause =>
        intro _ _
        refine ⟨cause, Disk.readExact_error hsource hread source, fun hwithin => ?_⟩
        -- the bytes of this match are not there
        have hfirst : (s.blockRange x.index).start ∈ s.blockRange x.index :=
          ⟨Nat.le_refl _, Nat.lt_add_of_pos_right hpos⟩
        have hprovider : s.provider (l ++ [x] ++ rest) (s.blockRange x.index).start = some x := by
          rw [Signature.provider, List.find?_append, ← Signature.provider, Signature.provider_append,
            hfresh _ hfirst, if_pos ⟨hfirst, hfits⟩]
          rfl
        have hstop : x.place.start + (s.blockRange x.index).length ≤ L.size := hfits ▸ hwithin _ x hprovider
        rw [Disk.readExact_eq hsource hstop hlim] at hread
        cases hread
      | ok bytes =>
        obtain ⟨hthere, rfl⟩ := Disk.readExact_eq_ok hsource hpos hread
        rw [← hfits] at hthere ⊢
        dsimp only
        rw [run_bind, run_change]
        cases hwrite : (b.disk t).writeAt into (s.blockRange x.index).start
            (L.extract x.place.start (x.place.start + x.place.length)) with
        | error cause =>
          intro _ hlength
          obtain ⟨e, he⟩ := hlength
          obtain ⟨-, -, hfile, -⟩ := Disk.setLength_eq_ok he
          obtain ⟨new, hnew, hsize, -⟩ := h.content
          have hroom : (s.blockRange x.index).start +
              (L.extract x.place.start (x.place.start + x.place.length)).size ≤ Disk.sizeLimit := by
            have hinside := (s.blockRange_bounds x.index).resolve_left (Nat.ne_of_gt hpos)
            rw [ByteArray.size_extract]
            rw [BlockMatch.Fits] at hfits
            omega
          obtain ⟨f, hf⟩ := Disk.writeAt_isOk hnew (Disk.writable_of_setLength he) hroom
          rw [hf] at hwrite
          cases hwrite
        | ok f =>
          dsimp only
          rw [run_bind, run_report]
          have hcopied := h.copy hfits hcount hthere hwrite
          by_cases hgo : (b.listen (percentOf (done + 1) total) (b.putDisk f t)).1
          · rw [if_pos hgo]
            refine ih (done + 1) ?_
            rw [hheard, hget]
            exact hcopied
          · rw [if_neg hgo]
            exact fun haccept => absurd (haccept _ _) hgo

theorem copyMatches_ends (hget : ∀ d t, b.disk (b.putDisk d t) = d)
    (hheard : ∀ p t, b.disk (b.listen p t).2 = b.disk t) {t : σ} (hsource : (b.disk t).HasFile source k L)
    (hlim : L.size ≤ Disk.sizeLimit) {into : Handle} (hold : (b.disk t).bytesAt? into.node = some old)
    (hk : k ≠ into.node) (target : String) (l : List BlockMatch) :
    b.Ends s l L old source into (b.disk t) ((b.copyMatches source target into s l).run.run t) := by
  -- telling that all is done changes nothing
  have hdone : ∀ {u : σ} {parts : PartMap}, Patched s l L old into.node (b.disk t) (b.disk u) parts →
      b.Ends s l L old source into (b.disk t) ((do b.report 100; return parts : Work σ PartMap).run.run u) := by
    intro u parts h
    rw [run_bind, run_report]
    by_cases hgo : (b.listen 100 u).1
    · rw [if_pos hgo]
      show Patched s l L old into.node (b.disk t) (b.disk (b.listen 100 u).2) parts
      rwa [hheard]
    · rw [if_neg hgo]
      exact fun haccept => absurd (haccept _ _) hgo
  unfold copyMatches
  rw [run_bind, run_change]
  cases hlength : (b.disk t).setLength into s.fileLength.toNat with
  | error cause => exact fun _ ⟨e, he⟩ => nomatch hlength.symm.trans he
  | ok e =>
    obtain ⟨old', hold', -, halike, hnew⟩ := Disk.setLength_eq_ok hlength
    obtain rfl : old' = old := Option.some.inj (hold'.symm.trans hold)
    have hblank : Patched s [] L old' into.node (b.disk t) (b.disk (b.putDisk e t))
        (PartMap.blank s.fileLength.toNat) :=
      ⟨by rwa [hget], fun _ _ h => (nomatch h), ⟨_, by rwa [hget], Disk.size_resize _ _, fun _ => rfl⟩, rfl⟩
    dsimp only
    cases l with
    | nil => exact hdone hblank
    | cons x l =>
      rw [if_neg (by simp)]
      have hopen : (b.disk (b.putDisk e t)).openFile source = .ok ⟨k, false⟩ := by
        rw [hget]
        exact (hsource.alike halike hk).leads.openFile
      rw [run_bind_ok (run_ask_ok hopen), run_bind]
      have hends := copyEach_ends hget hheard hsource.bytes hlim source target hk (x :: l).length 0 (x :: l) hblank
      rw [List.nil_append] at hends
      rcases hrun : (b.copyEach source ⟨k, false⟩ target into s (x :: l).length 0 (PartMap.blank s.fileLength.toNat)
        (x :: l)).run.run (b.putDisk e t) with ⟨failure | parts, u⟩
      · rw [hrun] at hends
        exact hends
      · rw [hrun] at hends
        exact hdone hends

/-- Copying does what the list of matches says. If it succeeds, the temp file has its old bytes, cut or filled up with
zeros to the file's length, and the bytes of the first match that fits in the place of each block; these blocks are
available, all else is needed. If nobody says stop and the temp file can be given its length, it succeeds exactly if
every such match lies in the source, and is a failed read otherwise. -/
theorem copyMatches_exact (hget : ∀ d t, b.disk (b.putDisk d t) = d)
    (hheard : ∀ p t, b.disk (b.listen p t).2 = b.disk t) (hvalid : s.flaw? = none) {t : σ}
    (hsource : (b.disk t).HasFile source k L) (hlim : L.size ≤ Disk.sizeLimit) {into : Handle}
    (hold : (b.disk t).bytesAt? into.node = some old) (hk : k ≠ into.node) (target : String) (l : List BlockMatch) :
    let run := (b.copyMatches source target into s l).run.run t
    (∀ parts, run.1 = .ok parts →
      (b.disk run.2).bytesAt? into.node = some (s.patched l L old) ∧ parts.length = s.fileLength.toNat ∧
      ∀ o < s.fileLength.toNat, parts.state? o =
        some (if ∃ x ∈ s.blocks, o ∈ s.blockRange x.index ∧ (s.chosen l x.index).isSome then .available else .needed)) ∧
    ((∀ p u, (b.listen p u).1) → (∃ e, (b.disk t).setLength into s.fileLength.toNat = .ok e) →
      ((∃ parts, run.1 = .ok parts) ↔
        ∀ x ∈ s.blocks, ∀ m, s.chosen l x.index = some m → m.place.stop ≤ L.size) ∧
      ((∃ parts, run.1 = .ok parts) ∨ ∃ cause, run.1 = .error (.read source cause))) := by
  intro run
  have hends : b.Ends s l L old source into (b.disk t) run := copyMatches_ends hget hheard hsource hlim hold hk target l
  refine ⟨fun parts hparts => ?_, fun haccept hlength => ?_⟩
  · rw [Ends, hparts] at hends
    obtain ⟨new, hnew, -, hbytes⟩ := hends.content
    have hpatched : new = s.patched l L old :=
      ext_byte? fun o => (hbytes o).trans (Signature.byte?_patched hvalid hends.within old o).symm
    refine ⟨hpatched ▸ hnew, hends.parts_eq ▸ s.length_marked l, fun o ho => ?_⟩
    rw [hends.parts_eq, Signature.state?_marked_provider, if_pos ho]
    simp only [Signature.isSome_provider hvalid]
  · rw [← Signature.within_iff hvalid]
    cases hrun : run.1 with
    | ok parts =>
      rw [Ends, hrun] at hends
      exact ⟨iff_of_true ⟨parts, rfl⟩ hends.within, .inl ⟨parts, rfl⟩⟩
    | error failure =>
      rw [Ends, hrun] at hends
      obtain ⟨cause, rfl, hfar⟩ := hends haccept hlength
      exact ⟨iff_of_false nofun hfar, .inr ⟨cause, rfl⟩⟩

end Bench

/-- The signature of two bytes in blocks of one. -/
def byteBlocks : Signature := ⟨2, 1, [⟨0, 0, .replicate 32 0⟩, ⟨1, 0, .replicate 32 0⟩], .replicate 32 0⟩

/-- A file of one byte, and a temp file of three. -/
def strayDisk : Disk :=
  ⟨#[.directory none, .file ⟨#[7]⟩ none, .file ⟨#[9, 8, 9]⟩ none], [([], 0), (["l"], 1), (["t"], 2)], []⟩

/-- Two bytes for one, a block that is not there, the second block, and the second block from where nothing is. -/
def strayMatches : List BlockMatch := [⟨⟨0, 2⟩, 1⟩, ⟨⟨0, 1⟩, 9⟩, ⟨⟨0, 1⟩, 1⟩, ⟨⟨5, 1⟩, 1⟩]

/-- The third match is copied; without it the fourth is a failed read. -/
theorem strays_copied :
    let copied := (Bench.quiet.copyMatches "l" "t" ⟨2, true⟩ byteBlocks strayMatches).run.run strayDisk
    let failed := (Bench.quiet.copyMatches "l" "t" ⟨2, true⟩ byteBlocks (strayMatches.drop 3)).run.run strayDisk
    (∃ parts, copied.1 = .ok parts ∧ copied.2.bytesAt? 2 = some ⟨#[9, 7]⟩ ∧ parts.length = 2 ∧
      parts.state? 0 = some .needed ∧ parts.state? 1 = some .available) ∧
    ∃ cause, failed.1 = .error (.read "l" cause) := by
  intro copied failed
  have hsource : (Bench.quiet.disk strayDisk).HasFile "l" 1 ⟨#[7]⟩ := ⟨⟨by cbv, rfl⟩, rfl⟩
  have hold : strayDisk.bytesAt? (Handle.mk 2 true).node = some ⟨#[9, 8, 9]⟩ := rfl
  have hexact := fun l => Bench.copyMatches_exact (fun _ _ => rfl) (fun _ _ => rfl)
    (show byteBlocks.flaw? = none by decide) hsource (by decide) hold (by decide) "t" l
  have hlength : ∃ e, strayDisk.setLength ⟨2, true⟩ byteBlocks.fileLength.toNat = .ok e := ⟨_, rfl⟩
  have hgo : ∀ p u, (Bench.quiet.listen p u).1 := fun _ _ => rfl
  constructor
  · obtain ⟨hok, hends⟩ := hexact strayMatches
    have hthere : ∀ x ∈ byteBlocks.blocks, ∀ m, byteBlocks.chosen strayMatches x.index = some m →
        m.place.stop ≤ (⟨#[7]⟩ : ByteArray).size := by decide
    obtain ⟨parts, hparts⟩ := (hends hgo hlength).1.2 hthere
    obtain ⟨hbytes, hsize, hstate⟩ := hok parts hparts
    refine ⟨parts, hparts, hbytes.trans ?_, hsize, (hstate 0 (by decide)).trans ?_, (hstate 1 (by decide)).trans ?_⟩
    · decide +kernel
    · decide
    · decide
  · obtain ⟨-, hends⟩ := hexact (strayMatches.drop 3)
    refine (hends hgo hlength).2.resolve_left fun hok => ?_
    have hthere := (hends hgo hlength).1.1 hok ⟨1, 0, .replicate 32 0⟩ (by decide) ⟨⟨5, 1⟩, 1⟩ (by decide)
    exact absurd hthere (by decide)

end FileSwarm
