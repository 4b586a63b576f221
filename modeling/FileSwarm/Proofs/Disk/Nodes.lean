import FileSwarm.Proofs.Bytes
import FileSwarm.Transfer.Target

/-!
# What a change of the disk leaves alone

* `bytesAt? d n`, `content d n` : the bytes of the file with node number `n`;
* `Alike n d e` : `e` is `d` with, at most, other bytes in node `n` and other times of change: the same
  names lead to the same nodes (`Alike.number_eq`), and all other files have the same bytes;
* `writeAt_eq_ok`, `setLength_eq_ok`, `alike_setStamp` : the changes a transfer makes, with the bytes they
  leave;
* `LeadsTo d path n` : the path leads to node `n`, which is no directory; then reading the path or a
  handle on `n` gives its content (`LeadsTo.read`, `readAt_eq`); `HasFile d path k b` : it is a file;
* `openFresh_eq_ok`, `openTemp_eq_ok` : a path opened for writing leads to what is open, and nothing is
  in it;
* `Grows d e` : all that is on `d` is on `e` too; `HasFile.openTemp` : a file stays when another one is opened.
-/

namespace FileSwarm

/-- The bytes of a file. -/
def Node.bytes? : Node → Option ByteArray
  | .file bytes _ => some bytes
  | _ => none

namespace Disk

/-- The bytes of a node, if it is a file. -/
def bytesAt? (d : Disk) (n : Nat) : Option ByteArray := (d.nodes[n]?).bind Node.bytes?

/-- Whether a node is a directory, if there is one. -/
def directoryAt? (d : Disk) (n : Nat) : Option Bool := (d.nodes[n]?).map Node.isDirectory

/-- What can be read from a node: the bytes of a file, nothing from a pipe. -/
def content (d : Disk) (n : Nat) : ByteArray := (d.bytesAt? n).getD ByteArray.empty

/-! ## Nodes that differ in bytes only -/

/-- The same names, and the same nodes up to times of change and the bytes of node `n`. -/
structure Alike (n : Nat) (d e : Disk) : Prop where
  names : e.names = d.names
  here : e.here = d.here
  directories : ∀ k, e.directoryAt? k = d.directoryAt? k
  files : ∀ k, (e.bytesAt? k).isSome = (d.bytesAt? k).isSome
  others : ∀ k, k ≠ n → e.bytesAt? k = d.bytesAt? k

namespace Alike

variable {n : Nat} {c d e : Disk}

theorem refl (n : Nat) (d : Disk) : Alike n d d := ⟨rfl, rfl, fun _ => rfl, fun _ => rfl, fun _ _ => rfl⟩

theorem trans (h : Alike n c d) (k : Alike n d e) : Alike n c e :=
  ⟨k.names.trans h.names, k.here.trans h.here, fun m => (k.directories m).trans (h.directories m),
    fun m => (k.files m).trans (h.files m), fun m hm => (k.others m hm).trans (h.others m hm)⟩

theorem numberAt?_eq (h : Alike n d e) (place : List String) : e.numberAt? place = d.numberAt? place := by
  rw [numberAt?, numberAt?, h.names]

theorem step_eq (h : Alike n d e) : e.step = d.step := by
  funext place name
  have hk : ∀ k, (e.nodes[k]?).map Node.isDirectory = (d.nodes[k]?).map Node.isDirectory := h.directories
  simp only [step, nodeAt?, h.numberAt?_eq]
  cases d.numberAt? place with
  | none => rfl
  | some k =>
    have := hk k
    simp only [Option.bind_some]
    cases hd : d.nodes[k]? with
    | none => cases he : e.nodes[k]? <;> simp_all
    | some x => cases he : e.nodes[k]? with
      | none => simp_all
      | some y => cases x <;> cases y <;> simp_all [Node.isDirectory]

theorem place_eq (h : Alike n d e) (path : String) : e.place path = d.place path := by
  simp only [place, walk, h.step_eq, h.here]

theorem number_eq (h : Alike n d e) (path : String) : e.number path = d.number path := by
  simp only [number, h.place_eq, h.numberAt?_eq]
  congr 1
  funext place
  cases d.numberAt? place with
  | none => rfl
  | some k =>
    have := h.directories k
    simp only [directoryAt?] at this
    cases hd : d.nodes[k]? <;> cases he : e.nodes[k]? <;> simp_all

end Alike

/-! ## The changes a transfer makes -/

theorem nodes_setIfInBounds (d : Disk) (n k : Nat) (node : Node) :
    (d.nodes.setIfInBounds n node)[k]? =
      if k = n then (d.nodes[n]?).map fun _ => node else d.nodes[k]? := by
  rw [Array.getElem?_setIfInBounds]
  by_cases h : n = k
  · subst h
    rw [if_pos rfl, if_pos rfl]
    split
    · next hlt => rw [Array.getElem?_eq_getElem hlt]; rfl
    · next hge => rw [Array.getElem?_eq_none (Nat.le_of_not_lt hge)]; rfl
  · rw [if_neg h, if_neg (Ne.symm h)]

theorem alike_putFile {d : Disk} {n : Nat} {old : ByteArray} {stamp : Option Stamp}
    (hn : d.nodes[n]? = some (.file old stamp)) (new : ByteArray) (stamp' : Option Stamp) :
    Alike n d { d with nodes := d.nodes.setIfInBounds n (.file new stamp') } ∧
      bytesAt? { d with nodes := d.nodes.setIfInBounds n (.file new stamp') } n = some new := by
  refine ⟨⟨rfl, rfl, fun k => ?_, fun k => ?_, fun k hk => ?_⟩, ?_⟩
  · rw [directoryAt?, directoryAt?, nodes_setIfInBounds]
    split
    · next h => simp [h, hn, Node.isDirectory]
    · rfl
  · rw [bytesAt?, bytesAt?, nodes_setIfInBounds]
    split
    · next h => simp [h, hn, Node.bytes?]
    · rfl
  · rw [bytesAt?, bytesAt?, nodes_setIfInBounds, if_neg hk]
  · rw [bytesAt?, nodes_setIfInBounds, if_pos rfl, hn]
    rfl

theorem bytesAt?_eq_some {d : Disk} {n : Nat} {b : ByteArray} :
    d.bytesAt? n = some b ↔ ∃ stamp, d.nodes[n]? = some (.file b stamp) := by
  unfold bytesAt?
  cases d.nodes[n]? with
  | none => simp
  | some x => cases x <;> simp [Node.bytes?]

/-- A write that succeeds went into a file that was open for writing, within the limit of its size, and
put the bytes in their place. -/
theorem writeAt_eq_ok {d e : Disk} {h : Handle} {offset : Nat} {new : ByteArray} (hpos : 0 < new.size)
    (hw : d.writeAt h offset new = .ok e) :
    ∃ old, d.bytesAt? h.node = some old ∧ offset + new.size ≤ sizeLimit ∧ Alike h.node d e ∧
      e.bytesAt? h.node = some (overlay old offset new) := by
  simp only [writeAt, bind, Except.bind] at hw
  split at hw
  · exact nomatch hw
  · split at hw
    · next old stamp hn =>
      rw [if_neg (by simp [Bytes.isEmpty_eq_false.2 hpos])] at hw
      simp only [pure, Except.pure, throw, throwThe, MonadExceptOf.throw] at hw
      split at hw
      · exact nomatch hw
      · split at hw
        · exact nomatch hw
        · next hlim =>
          cases hw
          obtain ⟨ha, hb⟩ := alike_putFile hn (overlay old offset new) none
          exact ⟨old, bytesAt?_eq_some.2 ⟨stamp, hn⟩, Nat.le_of_not_lt hlim, ha, hb⟩
    · exact nomatch hw

theorem writeAt_empty {d e : Disk} {h : Handle} {offset : Nat} {new : ByteArray} (hz : new.size = 0)
    (hw : d.writeAt h offset new = .ok e) : e = d := by
  simp only [writeAt, bind, Except.bind] at hw
  split at hw
  · exact nomatch hw
  · split at hw
    · rw [if_pos (Bytes.isEmpty_iff.2 hz)] at hw
      exact (Except.ok.inj hw).symm
    · exact nomatch hw

theorem writeAt_isOk {d : Disk} {h : Handle} {offset : Nat} {new old : ByteArray}
    (hb : d.bytesAt? h.node = some old) (hw : h.writable) (hlim : offset + new.size ≤ sizeLimit) :
    ∃ e, d.writeAt h offset new = .ok e := by
  obtain ⟨stamp, hn⟩ := bytesAt?_eq_some.1 hb
  have hseek : d.seek h offset = .ok () := by
    simp only [seek, hn]
    exact if_neg (by omega)
  simp only [writeAt, hseek, hn, hw, bind, Except.bind, pure, Except.pure]
  rw [Bool.not_true, if_neg (Nat.not_lt.2 hlim)]
  split
  · exact ⟨_, rfl⟩
  · exact ⟨_, rfl⟩

theorem setLength_eq_ok {d e : Disk} {h : Handle} {length : Nat} (hs : d.setLength h length = .ok e) :
    ∃ old, d.bytesAt? h.node = some old ∧ length ≤ sizeLimit ∧ Alike h.node d e ∧
      e.bytesAt? h.node = some (resize old length) := by
  simp only [setLength] at hs
  split at hs
  · exact nomatch hs
  · split at hs
    · next old stamp hn =>
      split at hs
      · exact nomatch hs
      · split at hs
        · exact nomatch hs
        · next hlim =>
          cases hs
          obtain ⟨ha, hb⟩ := alike_putFile hn (resize old length) none
          exact ⟨old, bytesAt?_eq_some.2 ⟨stamp, hn⟩, Nat.le_of_not_lt hlim, ha, hb⟩
    · exact nomatch hs

theorem setLength_isOk {d : Disk} {h : Handle} {length : Nat} {old : ByteArray}
    (hb : d.bytesAt? h.node = some old) (hw : h.writable) (hlim : length ≤ sizeLimit) :
    ∃ e, d.setLength h length = .ok e := by
  obtain ⟨stamp, hn⟩ := bytesAt?_eq_some.1 hb
  have hseek : ¬ seekLimit ≤ length := by
    unfold sizeLimit at hlim
    unfold seekLimit
    omega
  exact ⟨_, by rw [setLength, if_neg hseek, hn]; simp [hw, Nat.not_lt.2 hlim]; rfl⟩

theorem bytesAt?_stampNode (d : Disk) (m : Nat) (stamp : Option Stamp) (k : Nat) :
    (d.stampNode m stamp).bytesAt? k = d.bytesAt? k := by
  unfold bytesAt? stampNode
  simp only [Array.getElem?_modify]
  split
  · cases d.nodes[k]? with
    | none => rfl
    | some x => cases x <;> rfl
  · rfl

theorem directoryAt?_stampNode (d : Disk) (m : Nat) (stamp : Option Stamp) (k : Nat) :
    (d.stampNode m stamp).directoryAt? k = d.directoryAt? k := by
  unfold directoryAt? stampNode
  simp only [Array.getElem?_modify]
  split
  · cases d.nodes[k]? with
    | none => rfl
    | some x => cases x <;> rfl
  · rfl

/-- A time of change is no byte of a file. -/
theorem alike_stampNode (n : Nat) (d : Disk) (m : Nat) (stamp : Option Stamp) :
    Alike n d (d.stampNode m stamp) ∧ ∀ k, (d.stampNode m stamp).bytesAt? k = d.bytesAt? k :=
  ⟨⟨rfl, rfl, directoryAt?_stampNode d m stamp, fun k => by rw [bytesAt?_stampNode],
    fun k _ => bytesAt?_stampNode d m stamp k⟩, bytesAt?_stampNode d m stamp⟩

/-- Setting a time of change, or failing to, changes no file. -/
theorem alike_setStamp (n : Nat) (d : Disk) (path : String) (stamp : Stamp) :
    Alike n d ((d.setStamp path stamp).toOption.getD d) ∧
      ∀ k, ((d.setStamp path stamp).toOption.getD d).bytesAt? k = d.bytesAt? k := by
  unfold setStamp
  cases d.number path with
  | error _ => exact ⟨.refl n d, fun _ => rfl⟩
  | ok m => exact alike_stampNode n d m _

/-! ## Paths that lead to a file -/

/-- The path leads to a node, which is no directory. -/
structure LeadsTo (d : Disk) (path : String) (n : Nat) : Prop where
  number : d.number path = .ok n
  plain : d.directoryAt? n = some false

theorem LeadsTo.alike {d e : Disk} {path : String} {m n : Nat} (h : d.LeadsTo path n) (ha : Alike m d e) :
    e.LeadsTo path n :=
  ⟨(ha.number_eq path).trans h.number, (ha.directories n).trans h.plain⟩

theorem LeadsTo.unique {d : Disk} {path : String} {m n : Nat} (h : d.LeadsTo path m)
    (k : d.LeadsTo path n) : m = n := Except.ok.inj (h.number.symm.trans k.number)

theorem LeadsTo.openFile {d : Disk} {path : String} {n : Nat} (h : d.LeadsTo path n) :
    d.openFile path = .ok ⟨n, false⟩ := by
  rw [Disk.openFile, h.number]
  rfl

theorem LeadsTo.read {d : Disk} {path : String} {n : Nat} (h : d.LeadsTo path n) :
    d.read path = .ok (d.content n) := by
  have hp := h.plain
  simp only [Disk.read, Disk.node, h.number, bind, Except.bind, content, bytesAt?]
  unfold directoryAt? at hp
  cases hn : d.nodes[n]? with
  | none => simp [hn] at hp
  | some x => cases x with
    | directory _ => simp [hn, Node.isDirectory] at hp
    | file _ _ => rfl
    | pipe _ => rfl

theorem readAt_eq {d : Disk} {h : Handle} (hp : d.directoryAt? h.node = some false) (offset length : Nat) :
    d.readAt h offset length = .ok ((d.content h.node).extract offset (offset + length)) := by
  simp only [directoryAt?] at hp
  unfold readAt content bytesAt?
  cases hn : d.nodes[h.node]? with
  | none => simp [hn] at hp
  | some x => cases x with
    | directory _ => simp [hn, Node.isDirectory] at hp
    | file b _ =>
      refine congrArg Except.ok (Bytes.ext_byte? fun o => ?_)
      simp only [Option.bind_some, Node.bytes?, Option.getD_some, Bytes.byte?_extract]
      congr 2
      omega
    | pipe _ => simp [Node.bytes?]

theorem sizeOf_eq {d : Disk} {h : Handle} (hp : d.directoryAt? h.node = some false) :
    d.sizeOf h = (d.content h.node).size := by
  simp only [directoryAt?] at hp
  unfold sizeOf content bytesAt?
  cases hn : d.nodes[h.node]? with
  | none => simp [hn] at hp
  | some x => cases x with
    | directory _ => simp [hn, Node.isDirectory] at hp
    | file _ _ => rfl
    | pipe _ => rfl

theorem readExact_eq {d : Disk} {h : Handle} {b : ByteArray} (hb : d.bytesAt? h.node = some b)
    {offset length : Nat} (hlen : offset + length ≤ b.size) (hlim : b.size ≤ sizeLimit) :
    d.readExact h offset length = .ok (b.extract offset (offset + length)) := by
  obtain ⟨stamp, hn⟩ := bytesAt?_eq_some.1 hb
  have hseek : d.seek h offset = .ok () := by
    simp only [seek, hn]
    exact if_neg (by omega)
  have hdir : d.directoryAt? h.node = some false := by simp [directoryAt?, hn, Node.isDirectory]
  have hread : d.readAt h offset length = .ok (b.extract offset (offset + length)) := by
    rw [readAt_eq hdir, content, hb]
    rfl
  simp only [readExact, hseek, bind, Except.bind, pure, Except.pure]
  split
  · next hz => rw [hz, Nat.add_zero, ByteArray.extract_same]
  · have hsize : (b.extract offset (offset + length)).size = length := by
      rw [ByteArray.size_extract]; omega
    rw [hread]
    simp only [hsize, if_true]

/-- The path leads to a file, node `k`, with bytes `b`. -/
structure HasFile (d : Disk) (path : String) (k : Nat) (b : ByteArray) : Prop where
  leads : d.LeadsTo path k
  bytes : d.bytesAt? k = some b

namespace HasFile

variable {d e : Disk} {path : String} {k n : Nat} {b : ByteArray}

theorem alike (h : d.HasFile path k b) (ha : Alike n d e) (hk : k ≠ n) : e.HasFile path k b :=
  ⟨h.leads.alike ha, (ha.others k hk).trans h.bytes⟩

theorem content (h : d.HasFile path k b) : d.content k = b := by
  rw [Disk.content, h.bytes]
  rfl

theorem size (h : d.HasFile path k b) : d.size path = .ok b.size := by
  obtain ⟨stamp, hn⟩ := bytesAt?_eq_some.1 h.bytes
  simp only [Disk.size, Disk.node, h.leads.number, hn, bind, Except.bind, pure, Except.pure]

theorem isFile_eq (h : d.HasFile path k b) : d.isFile path = true := by
  obtain ⟨stamp, hn⟩ := bytesAt?_eq_some.1 h.bytes
  have hnode : d.node? path = some (.file b stamp) := by
    simp only [node?, Disk.node, h.leads.number, hn, bind, Except.bind, pure, Except.pure, Except.toOption]
  rw [isFile, hnode]

theorem of_isFile (h : d.isFile path) : ∃ k b, d.HasFile path k b := by
  unfold isFile node? Disk.node at h
  cases hp : d.number path with
  | error _ => rw [hp] at h; exact nomatch h
  | ok k =>
    rw [hp] at h
    simp only [bind, Except.bind] at h
    cases hn : d.nodes[k]? with
    | none => rw [hn] at h; exact nomatch h
    | some x =>
      rw [hn] at h
      cases x with
      | file b stamp =>
        exact ⟨k, b, ⟨hp, by simp [directoryAt?, hn, Node.isDirectory]⟩, bytesAt?_eq_some.2 ⟨stamp, hn⟩⟩
      | directory _ => exact nomatch h
      | pipe _ => exact nomatch h

end HasFile

/-! ## Opening for writing -/

theorem number_of_place {d : Disk} {path : String} {place : List String} {n : Nat} {node : Node}
    (hp : d.place path = .ok place) (hn : d.numberAt? place = some n) (hnode : d.nodes[n]? = some node)
    (hs : Path.endsInSlash path = false) : d.number path = .ok n := by
  simp [number, hp, hn, hnode, hs, bind, Except.bind, pure, Except.pure]

/-- A walk goes on the same way where its steps start from directories that stay. -/
theorem foldlM_step_mono {d e : Disk} (h : ∀ p name q, d.step p name = .ok q → e.step p name = .ok q)
    {steps : List String} {p q : List String} (hw : steps.foldlM d.step p = .ok q) :
    steps.foldlM e.step p = .ok q := by
  induction steps generalizing p with
  | nil => exact hw
  | cons name steps ih =>
    rw [List.foldlM_cons] at hw ⊢
    cases hs : d.step p name with
    | error _ => rw [hs] at hw; exact nomatch hw
    | ok r =>
      rw [hs] at hw
      rw [h p name r hs]
      exact ih hw

theorem step_eq_ok {d : Disk} {p q : List String} {name : String} (h : d.step p name = .ok q) :
    (d.nodeAt? p).map Node.isDirectory = some true := by
  unfold step at h
  split at h
  · exact nomatch h
  · next hn => rw [hn]; rfl
  · exact nomatch h

theorem step_congr {d e : Disk} {p : List String} (name : String)
    (h : (d.nodeAt? p).map Node.isDirectory = some true)
    (k : (e.nodeAt? p).map Node.isDirectory = some true) : e.step p name = d.step p name := by
  unfold step
  cases hd : d.nodeAt? p with
  | none => simp [hd] at h
  | some x => cases he : e.nodeAt? p with
    | none => simp [he] at k
    | some y => cases x <;> cases y <;> simp_all [Node.isDirectory]

/-- All that was on the disk is there still, up to times of change; there may be more. -/
structure Grows (d e : Disk) : Prop where
  here : e.here = d.here
  names : ∀ p n, d.numberAt? p = some n → e.numberAt? p = some n
  directories : ∀ n b, d.directoryAt? n = some b → e.directoryAt? n = some b
  bytes : ∀ n b, d.bytesAt? n = some b → e.bytesAt? n = some b

namespace Grows

variable {c d e : Disk}

theorem refl (d : Disk) : Grows d d := ⟨rfl, fun _ _ => id, fun _ _ => id, fun _ _ => id⟩

theorem trans (h : Grows c d) (k : Grows d e) : Grows c e :=
  ⟨k.here.trans h.here, fun p n hn => k.names p n (h.names p n hn),
    fun n b hb => k.directories n b (h.directories n b hb), fun n b hb => k.bytes n b (h.bytes n b hb)⟩

theorem step_eq (h : Grows d e) {p q : List String} {name : String} (hs : d.step p name = .ok q) :
    e.step p name = .ok q := by
  have hd := step_eq_ok hs
  rw [← hs]
  refine step_congr name hd ?_
  cases hn : d.numberAt? p with
  | none => simp [nodeAt?, hn] at hd
  | some n =>
    have hdn : d.directoryAt? n = some true := by simpa [nodeAt?, hn, directoryAt?] using hd
    have := h.directories n true hdn
    simpa [nodeAt?, h.names p n hn, directoryAt?] using this

theorem place_eq (h : Grows d e) {path : String} {place : List String} (hp : d.place path = .ok place) :
    e.place path = .ok place := by
  simp only [Disk.place, walk] at hp ⊢
  rw [h.here]
  by_cases h₁ : path.contains (Char.ofNat 0) = true
  · rw [if_pos h₁] at hp; cases hp
  by_cases h₂ : (path == "") = true
  · rw [if_neg h₁, if_pos h₂] at hp; cases hp
  by_cases h₃ : pathLimit ≤ path.utf8ByteSize
  · rw [if_neg h₁, if_neg h₂, if_pos h₃] at hp; cases hp
  rw [if_neg h₁, if_neg h₂, if_neg h₃] at hp ⊢
  exact foldlM_step_mono (fun p name q hs => h.step_eq hs) hp

end Grows

theorem add_eq (d : Disk) (place : List String) (node : Node) : ∃ stamped : Disk → Disk,
    (d.add place node).1 =
      stamped { d with nodes := d.nodes.push node, names := d.names ++ [(place, d.nodes.size)] } ∧
      (∀ c, (stamped c).names = c.names ∧ (stamped c).here = c.here) ∧
      (∀ c n, (stamped c).directoryAt? n = c.directoryAt? n) ∧ ∀ c n, (stamped c).bytesAt? n = c.bytesAt? n := by
  simp only [add, putNames, List.foldl_cons, List.foldl_nil]
  cases numberAt? _ place.dropLast with
  | none => exact ⟨id, rfl, fun _ => ⟨rfl, rfl⟩, fun _ _ => rfl, fun _ _ => rfl⟩
  | some m =>
    exact ⟨(·.stampNode m none), rfl, fun _ => ⟨rfl, rfl⟩, fun c n => directoryAt?_stampNode c m none n,
      fun c n => bytesAt?_stampNode c m none n⟩

theorem add_spec (d : Disk) (place : List String) (node : Node) (hfree : d.numberAt? place = none) :
    (d.add place node).2 = d.nodes.size ∧ (d.add place node).1.numberAt? place = some d.nodes.size ∧
      (d.add place node).1.directoryAt? d.nodes.size = some node.isDirectory ∧
      (d.add place node).1.bytesAt? d.nodes.size = node.bytes? := by
  obtain ⟨stamped, heq, hsame, hdir, hbytes⟩ := add_eq d place node
  refine ⟨rfl, ?_, ?_, ?_⟩
  · rw [numberAt?, Option.map_eq_none_iff] at hfree
    rw [heq, numberAt?, (hsame _).1, List.find?_append, hfree]
    simp
  · rw [heq, hdir, directoryAt?, Array.getElem?_push_size]
    rfl
  · rw [heq, hbytes, bytesAt?, Array.getElem?_push_size]
    rfl

theorem grows_add (d : Disk) (place : List String) (node : Node) : Grows d (d.add place node).1 := by
  obtain ⟨stamped, heq, hsame, hdir, hbytes⟩ := add_eq d place node
  have hold : ∀ n x, d.nodes[n]? = some x → (d.nodes.push node)[n]? = some x := fun n x hx => by
    obtain ⟨hlt, rfl⟩ := Array.getElem?_eq_some_iff.1 hx
    rw [Array.getElem?_push_lt hlt]
  refine ⟨by rw [heq, (hsame _).2], fun p n hn => ?_, fun n b hb => ?_, fun n b hb => ?_⟩
  · obtain ⟨x, hx, rfl⟩ := Option.map_eq_some_iff.1 hn
    rw [heq, numberAt?, (hsame _).1, List.find?_append, hx]
    rfl
  · obtain ⟨x, hx, rfl⟩ := Option.map_eq_some_iff.1 hb
    rw [heq, hdir, directoryAt?, hold n x hx]
    rfl
  · obtain ⟨x, hx, hxb⟩ := Option.bind_eq_some_iff.1 hb
    rw [heq, hbytes, bytesAt?, hold n x hx]
    exact hxb

/-- A path opened for writing leads to what is open, in which there is nothing. -/
theorem openFresh_eq_ok {d e : Disk} {path : String} {h : Handle} (ho : d.openFresh path = .ok (e, h)) :
    e.LeadsTo path h.node ∧ h.writable ∧ e.content h.node = ByteArray.empty := by
  have hs : Path.endsInSlash path = false := by
    by_contra hne
    rw [Bool.not_eq_false] at hne
    simp only [openFresh, hne, if_true, bind, Except.bind] at ho
    split at ho <;> exact nomatch ho
  simp only [openFresh, hs, bind, Except.bind, pure, Except.pure, throw, throwThe,
    MonadExceptOf.throw] at ho
  cases hp : d.place path with
  | error _ => simp [hp] at ho
  | ok place =>
    simp only [hp, Bool.false_eq_true, if_false] at ho
    cases hn : d.numberAt? place with
    | none =>
      simp only [hn] at ho
      obtain ⟨rfl, rfl⟩ := Prod.mk.inj (Except.ok.inj ho)
      obtain ⟨hnum, hnew, hdir, hbytes⟩ := add_spec d place (.file ByteArray.empty none) hn
      have hnode : ∃ node, (d.add place (.file ByteArray.empty none)).1.nodes[d.nodes.size]? = some node := by
        rw [directoryAt?, Option.map_eq_some_iff] at hdir
        exact hdir.imp fun _ h => h.1
      obtain ⟨node, hnode⟩ := hnode
      rw [hnum]
      have hplace := (grows_add d place (.file ByteArray.empty none)).place_eq hp
      exact ⟨⟨number_of_place hplace hnew hnode hs, hdir⟩, rfl, by rw [content, hbytes]; rfl⟩
    | some n =>
      simp only [hn] at ho
      cases hnode : d.nodes[n]? with
      | none => simp [hnode] at ho
      | some node =>
        have hnum := number_of_place hp hn hnode hs
        cases node with
        | directory _ => simp [hnode] at ho
        | pipe _ =>
          simp only [hnode] at ho
          obtain ⟨rfl, rfl⟩ := Prod.mk.inj (Except.ok.inj ho)
          exact ⟨⟨hnum, by simp [directoryAt?, hnode, Node.isDirectory]⟩, rfl, by
            simp [content, bytesAt?, hnode, Node.bytes?]⟩
        | file old stamp =>
          simp only [hnode] at ho
          obtain ⟨rfl, rfl⟩ := Prod.mk.inj (Except.ok.inj ho)
          obtain ⟨ha, hb⟩ := alike_putFile hnode ByteArray.empty none
          have hlead : d.LeadsTo path n := ⟨hnum, by simp [directoryAt?, hnode, Node.isDirectory]⟩
          exact ⟨hlead.alike ha, rfl, by rw [content, hb]; rfl⟩

theorem openTemp_eq_ok {d e : Disk} {path : String} {h : Handle} (ho : d.openTemp path = (.ok h, e)) :
    e.LeadsTo path h.node ∧ h.writable ∧ e.content h.node = ByteArray.empty := by
  simp only [openTemp] at ho
  split at ho
  · exact nomatch (Prod.mk.inj ho).1
  · split at ho
    · next hf =>
      obtain ⟨hh, rfl⟩ := Prod.mk.inj ho
      cases hh
      exact openFresh_eq_ok hf
    · exact nomatch (Prod.mk.inj ho).1

/-! ## What opening leaves alone -/

theorem Grows.number_eq {d e : Disk} (h : Grows d e) {path : String} {n : Nat} (hn : d.number path = .ok n) :
    e.number path = .ok n := by
  simp only [number, bind, Except.bind] at hn ⊢
  cases hp : d.place path with
  | error _ => rw [hp] at hn; exact nomatch hn
  | ok place =>
    rw [hp] at hn
    rw [h.place_eq hp]
    dsimp only at hn ⊢
    cases hm : d.numberAt? place with
    | none => rw [hm] at hn; exact nomatch hn
    | some m =>
      rw [hm] at hn
      rw [h.names place m hm]
      dsimp only at hn ⊢
      cases hx : d.nodes[m]? with
      | none => rw [hx] at hn; exact nomatch hn
      | some x =>
        have hdir := h.directories m x.isDirectory (by rw [directoryAt?, hx]; rfl)
        obtain ⟨y, hy, hsame⟩ := Option.map_eq_some_iff.1 hdir
        rw [hx] at hn
        rw [hy]
        simpa only [hsame] using hn

theorem HasFile.grows {d e : Disk} {path : String} {k : Nat} {b : ByteArray} (h : d.HasFile path k b) (hg : Grows d e) :
    e.HasFile path k b :=
  ⟨⟨hg.number_eq h.leads.number, hg.directories k false h.leads.plain⟩, hg.bytes k b h.bytes⟩

theorem grows_makeDirectory {d e : Disk} {path : String} (h : d.makeDirectory path = .ok e) : Grows d e := by
  simp only [makeDirectory, bind, Except.bind, throw, throwThe, MonadExceptOf.throw, pure, Except.pure] at h
  split at h
  · exact nomatch h
  · split at h
    · exact nomatch h
    · rw [← Except.ok.inj h]
      exact grows_add d _ _

theorem grows_ensureDirectory {d e : Disk} {path : String} (h : d.ensureDirectory path = .ok e) : Grows d e := by
  unfold ensureDirectory at h
  split at h
  · next hm =>
    rw [← Except.ok.inj h]
    exact grows_makeDirectory hm
  · split at h
    · rw [← Except.ok.inj h]
      exact .refl d
    · exact nomatch h

theorem grows_makeDirectoriesUpTo (depth : Nat) (d : Disk) (path : String) :
    Grows d (d.makeDirectoriesUpTo depth path).2 := by
  induction depth generalizing path with
  | zero => exact .refl d
  | succ depth ih =>
    unfold makeDirectoriesUpTo
    split
    · exact .refl d
    · split
      · next hm => exact grows_makeDirectory hm
      · split
        · exact .refl d
        · next parent _ =>
          have habove := ih parent
          split
          · next hmade =>
            rw [hmade] at habove
            refine habove.trans ?_
            unfold attempt
            split
            · next he => exact grows_ensureDirectory he
            · exact .refl _
          · exact habove
      · exact .refl d

theorem HasFile.openFresh {d e : Disk} {path other : String} {h : Handle} {k : Nat} {b : ByteArray}
    (hf : d.HasFile other k b) (ho : d.openFresh path = .ok (e, h)) (hk : k ≠ h.node) : e.HasFile other k b := by
  simp only [Disk.openFresh, bind, Except.bind, pure, Except.pure, throw, throwThe, MonadExceptOf.throw] at ho
  split at ho
  · split at ho <;> exact nomatch ho
  · split at ho
    · exact nomatch ho
    · next place _ =>
      split at ho
      · obtain ⟨rfl, -⟩ := Prod.mk.inj (Except.ok.inj ho)
        exact hf.grows (grows_add d place _)
      · split at ho
        · next hnode =>
          obtain ⟨rfl, rfl⟩ := Prod.mk.inj (Except.ok.inj ho)
          exact hf.alike (alike_putFile hnode ByteArray.empty none).1 hk
        · obtain ⟨rfl, -⟩ := Prod.mk.inj (Except.ok.inj ho)
          exact hf
        · exact nomatch ho
        · exact nomatch ho

/-- A file stays when a temp file is opened, unless it is that one. -/
theorem HasFile.openTemp {d e : Disk} {path other : String} {h : Handle} {k : Nat} {b : ByteArray}
    (hf : d.HasFile other k b) (ho : d.openTemp path = (.ok h, e)) (hk : k ≠ h.node) : e.HasFile other k b := by
  simp only [Disk.openTemp] at ho
  split at ho
  · cases (Prod.mk.inj ho).1
  · next made hmade =>
    have hg : Grows d made := by
      split at hmade
      · obtain ⟨-, rfl⟩ := Prod.mk.inj hmade
        exact .refl d
      · obtain ⟨-, rfl⟩ := Prod.mk.inj hmade
        exact .refl d
      · next parent _ _ =>
        rw [← show (d.makeDirectories parent).2 = made from congrArg Prod.snd hmade]
        exact grows_makeDirectoriesUpTo _ d _
    split at ho
    · next hfresh =>
      obtain ⟨hh, rfl⟩ := Prod.mk.inj ho
      cases hh
      exact (hf.grows hg).openFresh hfresh hk
    · cases (Prod.mk.inj ho).1

end Disk

end FileSwarm
