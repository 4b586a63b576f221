import FileSwarm.Proofs.Delta.Matching
import FileSwarm.Proofs.Transfer.Agreement

/-!
# What a peer streams is not lost, where there is a part map

A peer that streams is told once where to start, and sends from there on what it likes to send. It cannot be asked for
what got lost.

* `joined` : a peer that is let in is told of the first needed byte; `landed`, `Delivers.available` : a chunk that comes
  where there is a part map is there from then on;
* `StreamsAlone D heard c share answers after` : a peer that streams joins alone, and delivers all it was to deliver;
* `streamed_to_the_end` : the transfer comes to its end;
* `streams_lost` : while the local copy is searched there is no part map, and what is delivered then is lost.
-/

namespace FileSwarm

namespace Course

variable {D : ByteArray} {n : Nat} {c : Course}

/-! ## The two events that matter -/

/-- A peer that is let in is told of the first needed byte. -/
theorem joined {share : Share} {answers : Nat → Bool} {offset : Nat} (h : Orderly c) (hnobody : c.transfer.shares = [])
    (htold : (c.step (.join share answers)).transfer.sent[c.transfer.sent.size]? =
      some (c.transfer.links.size, .file offset))
    (hopen : (c.step (.join share answers)).transfer.phase.isFinal = false) :
    c.transfer.target.size ≠ 0 ∧ offset = c.transfer.offset := by
  have hbefore := h.open_before hopen
  have hnew : c.transfer.isAttached share.id = false := by simp [Transfer.isAttached, hnobody]
  rw [step_eq h.emptied] at htold hopen
  change (c.operate _).1.sent[_]? = _ at htold
  change (c.operate _).1.phase.isFinal = _ at hopen
  rw [operate] at htold hopen
  cases haccept : c.transfer.admission.refusal? c.transfer.shares.length c.transfer.byParts share.caps with
  | some why =>
    -- a peer that is turned down is told nothing
    rw [Transfer.addPeer_refused hbefore (.inr ⟨why, haccept⟩)] at htold
    change c.transfer.sent[c.transfer.sent.size]? = _ at htold
    simp at htold
  | none =>
    rw [Transfer.addPeer_eq hbefore hnew haccept] at htold hopen
    split at hopen
    · have htacit := (Transfer.Tacit.refl hbefore).seat share answers
      have hcloses := Transfer.closes_complete htacit.isOpen (htacit.released.trans (h.released.trans hbefore))
      exact absurd hopen hcloses.not_open
    · next hpos =>
      refine ⟨hpos, ?_⟩
      have hseat : (c.transfer.seat share answers).phase.isFinal = false := hbefore
      obtain ⟨more, hmore, -⟩ := ((Transfer.Tacit.refl hseat).enter.ensureSignature).calls
      obtain ⟨asked, hasked⟩ := (Transfer.round_sendRequests
        (c.transfer.seat share answers).enter.ensureSignature).sent
      rw [if_neg hpos, hasked, hmore, Array.append_assoc, Array.getElem?_append_left (by simp [Transfer.seat])] at htold
      change (c.transfer.sent.push _)[c.transfer.sent.size]? = _ at htold
      rw [Array.getElem?_push_size] at htold
      exact (Call.file.inj (Prod.mk.inj (Option.some.inj htold)).2).symm

/-- A chunk of the file that comes where there is a part map is there from then on. -/
theorem landed (h : Upheld D n c) (hlimit : D.size ≤ maxOffset) {id : String} {k : Nat} {bytes : ByteArray}
    (hid : c.transfer.isAttached id) (hmapped : c.transfer.parts.isSome) (hhonest : (Event.chunk id k bytes).Honest D)
    {o : Nat} (hlo : k ≤ o) (hhi : o < k + bytes.size)
    (hopen : (c.step (.chunk id k bytes)).transfer.phase.isFinal = false) :
    (c.step (.chunk id k bytes)).transfer.stateAt o = some .available := by
  obtain ⟨m, hm⟩ := Option.isSome_iff_exists.1 hmapped
  obtain ⟨temp, htemp⟩ := Option.isSome_iff_exists.1 h.placed.handle
  have hpos : 0 < bytes.size := by omega
  have hinside : k + bytes.size ≤ D.size := by
    have hextract : D.extract k (k + bytes.size) = bytes := hhonest
    have hlen := congrArg ByteArray.size hextract
    rw [ByteArray.size_extract] at hlen
    omega
  have hreceive := Transfer.receiveChunk_mapped h.isOpen hid hpos (h.size ▸ hinside) (h.size ▸ hlimit) hm htemp
  have hreleased := h.orderly.released.trans h.isOpen
  rw [step_chunk_ok hreceive] at hopen ⊢
  cases hwrite : c.transfer.disk.writeAt temp k bytes with
  | error cause =>
    rw [hwrite] at hopen
    have hcloses := Transfer.closes_breakDown h.isOpen hreleased (.failure (.write c.transfer.target.temp cause))
    exact absurd hopen hcloses.not_open
  | ok disk =>
    rw [hwrite] at hopen
    have hmeasured : o < m.length := by
      rw [h.sized.measured m hm, h.size]
      omega
    have hthere : (Transfer.credited { c.transfer with disk } id ⟨k, bytes.size⟩ m).stateAt o = some .available :=
      PartMap.state?_set_of_mem ⟨hlo, hhi⟩ hmeasured
    exact (Transfer.grows_creditChunk _ _ _ _ hopen).available o hthere

/-! ## Streams -/

/-- The peer `id`, which is attached, delivers an honest chunk with the byte at `o`, and does so when it is heard. -/
def Delivers (D : ByteArray) (heard : Transfer → Prop) (c : Course) (events : List Event) (id : String) (o : Nat) :
    Prop :=
  ∃ before k bytes, before ++ [.chunk id k bytes] <+: events ∧ (Event.chunk id k bytes).Honest D ∧
    k ≤ o ∧ o < k + bytes.size ∧ (c.run before).transfer.isAttached id ∧ heard (c.run before).transfer

/-- A peer that answers no range requests joins when nobody else is attached. It is told where to start, and delivers
every byte from there on. -/
structure StreamsAlone (D : ByteArray) (heard : Transfer → Prop) (c : Course) (share : Share) (answers : Nat → Bool)
    (after : List Event) : Prop where
  alone : c.transfer.shares = []
  streaming : share.caps.partRequests = false
  delivers : ∃ offset,
    (c.step (.join share answers)).transfer.sent[c.transfer.sent.size]? =
      some (c.transfer.links.size, .file offset) ∧
    ∀ o, offset ≤ o → o < D.size → Delivers D heard (c.step (.join share answers)) after share.id o

/-- What is delivered where there is a part map is there at the end. -/
theorem Delivers.available {t : Transfer} {before after : List Event} {id : String} {o : Nat}
    (hd : Delivers D (fun u => u.phase.isFinal = false → u.parts.isSome) ((start t).run before) after id o)
    (hstart : Orderly (start t)) (hlimit : D.size ≤ maxOffset)
    (hupheld : ∀ done, done <+: before ++ after → ((start t).run done).transfer.phase.isFinal = false →
      Upheld D n ((start t).run done))
    (hopen : ((start t).run (before ++ after)).transfer.phase.isFinal = false) :
    ((start t).run (before ++ after)).transfer.stateAt o = some .available := by
  obtain ⟨pre, k, bytes, ⟨rest, rfl⟩, hhonest, hlo, hhi, hid, hheard⟩ := hd
  have hsplit : before ++ (pre ++ [.chunk id k bytes] ++ rest) = before ++ pre ++ [.chunk id k bytes] ++ rest := by simp
  have hpre : before ++ pre <+: before ++ (pre ++ [.chunk id k bytes] ++ rest) := ⟨.chunk id k bytes :: rest, by simp⟩
  have hbound : before ++ pre ++ [.chunk id k bytes] ++ rest <+: before ++ (pre ++ [.chunk id k bytes] ++ rest) := by
    rw [hsplit]
  -- the chunk lands, and its bytes stay
  have hearlier := hstart.open_prefix hpre hopen
  rw [← run_append] at hid hheard
  have hland := landed (hupheld _ hpre hearlier) hlimit hid (hheard hearlier) hhonest hlo hhi
  rw [← run_snoc] at hland
  have hgrown := grows_run hstart hupheld hbound (hsplit ▸ hopen)
  rw [hsplit]
  exact hgrown.available o (hland (hstart.open_prefix ((List.prefix_append _ rest).trans hbound) hopen))

/-- What a peer streams is not lost where there is a part map. A peer that answers no range requests joins when nobody
else is attached, and delivers every byte from where it was told to start, in whatever order, among whatever else
happens, and each of them at least once when there is a part map. If all that counts as there agrees with the file, and
a signature that is held does, then the transfer is over as soon as no job is under way. -/
theorem streamed_to_the_end {target : Target} {tuning : Tuning} {admission : Admission} {disk made : Disk}
    {t : Transfer} (hc : Transfer.create target tuning admission disk = (.ok t, made))
    (hlimit : target.size ≤ maxOffset) {D : ByteArray} (hsize : D.size = target.size)
    {before after : List Event} {share : Share} {answers : Nat → Bool}
    (hagree : ∀ done, done <+: before ++ .join share answers :: after → Agrees D ((start t).run done))
    (hstreams : StreamsAlone D (fun u => u.phase.isFinal = false → u.parts.isSome) ((start t).run before) share answers
      after)
    (hidle : ((start t).run (before ++ .join share answers :: after)).tasks = []) :
    ((start t).run (before ++ .join share answers :: after)).transfer.phase.isFinal := by
  by_contra hopen
  rw [Bool.not_eq_true] at hopen
  have huntouched := Transfer.create_untouched hc
  have hstart : Orderly (start t) := orderly_start huntouched
  obtain ⟨offset, htold, hdelivers⟩ := hstreams.delivers
  rw [List.append_cons] at hagree hidle hopen
  -- the peer is let in, so there is a byte to be sent
  have hbound : before ++ ([.join share answers] ++ after) <+: before ++ [.join share answers] ++ after := by simp
  have hbefore := hstart.open_prefix ((List.prefix_append _ _).trans hbound) hopen
  have hjoin := hstart.open_prefix (List.prefix_append _ after) hopen
  rw [run_snoc] at hjoin
  obtain ⟨hpos, rfl⟩ := joined (hstart.run before) hstreams.alone htold hjoin
  rw [(hstart.made_run before hbefore).target, show (start t).transfer.target = target from huntouched.target] at hpos
  obtain ⟨n, hupheld⟩ := upheld_run hc hsize hpos hagree
  have hbacked : ((start t).run before).transfer.Backed := by
    have hearly : [] ++ before <+: before ++ [.join share answers] ++ after := (List.prefix_append _ _).trans hbound
    exact (grows_run hstart hupheld hearly hbefore).backed (backed_start huntouched)
  -- every byte is there at the end: it was there when the peer joined, or it was delivered
  have hwhole : ((start t).run (before ++ [.join share answers] ++ after)).transfer.Whole := by
    intro o ho
    by_cases hlt : o < ((start t).run before).transfer.offset
    · have hgrown := grows_run hstart hupheld hbound (by simpa using hopen)
      rw [← List.append_assoc] at hgrown
      exact hgrown.available o (Transfer.available_below hbacked hstreams.alone hlt)
    · rw [(hupheld _ (List.prefix_refl _) hopen).size] at ho
      have hdelivered := hdelivers o (Nat.le_of_not_lt hlt) ho
      rw [← run_snoc] at hdelivered
      exact hdelivered.available hstart (hsize ▸ hlimit) hupheld hopen
  exact (hupheld _ (List.prefix_refl _) hopen).busy hwhole hidle

/-- A peer that answers requests joins, sends the first of two bytes and leaves; then one that streams joins. -/
def splitBefore : List Event := [.join (.fresh "a" .full 0) fun _ => true, .chunk "a" 0 ⟨#[1]⟩, .leave "a"]

theorem split_streamed_to_the_end :
    let share : Share := .fresh "s" .streaming 0
    let after : List Event := [.chunk "s" 1 ⟨#[2]⟩]
    let c := (start (plainTransfer 2 .standard .swarming)).run splitBefore
    StreamsAlone ⟨#[1, 2]⟩ (fun u => u.phase.isFinal = false → u.parts.isSome) c share (fun _ => true) after ∧
      ((start (plainTransfer 2 .standard .swarming)).run
        (splitBefore ++ .join share (fun _ => true) :: after)).transfer.phase.isFinal := by
  intro share after c
  have hstreams : StreamsAlone ⟨#[1, 2]⟩ (fun u => u.phase.isFinal = false → u.parts.isSome) c share (fun _ => true)
      after := by
    refine ⟨rfl, rfl, 1, by decide +kernel, fun o hlo hhi => ?_⟩
    exact ⟨[], 1, ⟨#[2]⟩, List.prefix_refl _, rfl, hlo, hhi, by decide +kernel, fun _ => by decide +kernel⟩
  refine ⟨hstreams, streamed_to_the_end (create_plain 2 _ _) (by decide) rfl (fun done hdone => ?_) hstreams
    (by decide +kernel)⟩
  have hsound : Sound 1 ((start (plainTransfer 2 .standard .swarming)).run done) := by
    refine sound_run (sound_plain 2 _ _) fun hm => ?_
    have hin := List.IsPrefix.subset hdone hm
    simp [splitBefore, after] at hin
  have hall : ∀ done ∈ List.inits (splitBefore ++ .join share (fun _ => true) :: after),
      ((start (plainTransfer 2 .standard .swarming)).run done).transfer.signature.isNone ∧
      ((start (plainTransfer 2 .standard .swarming)).run done).transfer.parts.all fun m =>
        m.length = 2 ∧ ∀ o < 2, m.state? o = some .available →
          Bytes.byte? (content 1 ((start (plainTransfer 2 .standard .swarming)).run done)) o =
            Bytes.byte? ⟨#[1, 2]⟩ o := by decide +kernel
  obtain ⟨hunsigned, hparts⟩ := hall done ((List.mem_inits _ _).2 hdone)
  refine ⟨fun b hb o ho => ?_, fun s hs => ?_⟩
  · obtain rfl := Except.ok.inj (hsound.assembled.symm.trans hb)
    obtain ⟨m, hm, hstate⟩ := Option.bind_eq_some_iff.1 ho
    rw [hm] at hparts
    obtain ⟨hlength, hbytes⟩ := of_decide_eq_true hparts
    exact hbytes o (hlength ▸ PartMap.lt_length hstate) hstate
  · rw [hs] at hunsigned
    exact nomatch hunsigned

/-! ## A stream that is lost -/

theorem split_copy : Path.split "c" = ["c"] := by cbv

/-- A disk with an empty local copy. -/
def copyDisk : Disk := ⟨#[.directory none, .file ByteArray.empty none], [([], 0), (["c"], 1)], []⟩

/-- The disk once the temp file is made. -/
def copyMade : Disk := ⟨#[.directory none, .file ByteArray.empty none, .file ByteArray.empty none],
  [([], 0), (["c"], 1), (["(incomplete) f"], 2)], []⟩

/-- A file of one byte, which the local copy has not. -/
def copyTarget : Target := { plainTarget 1 with candidate := some "c" }

def copyTuning : Tuning := { Tuning.standard with minDelta := 1 }

def copyTransfer : Transfer :=
  { plainTransfer 1 copyTuning .swarming with
    target := copyTarget
    delta := true
    parts := none
    temp := some ⟨2, true⟩
    disk := copyMade }

theorem create_copy : Transfer.create copyTarget copyTuning .swarming copyDisk = (.ok copyTransfer, copyMade) := by
  have hopen := openTemp_plain (d := copyDisk) (by decide +kernel) (by decide +kernel)
  have htemp : copyTarget.temp = "(incomplete) f" := temp_plain 1
  have hother : Path.same "c" "(incomplete) f" = false := by
    simp only [Path.same, Path.components, split_plain, split_copy, absolute_plain]
    decide +kernel
  have hfile : copyMade.isFile "c" := by cbv
  have hdisk : copyDisk.add ["(incomplete) f"] (.file ByteArray.empty none) = (copyMade, 2) := rfl
  rw [hdisk] at hopen
  simp only [Transfer.create, htemp, hopen]
  simp [copyTarget, plainTarget, hother, hfile, copyTuning]
  rfl

/-- A peer joins, its signature comes and it leaves while the local copy is searched. -/
def lostBefore : List Event := [.join (.fresh "a" .full 0) fun _ => true, .signature oneSignature, .leave "a"]

/-- Now one joins that streams, and sends the whole file; then the local copy is searched, and copied from. -/
def lostAfter : List Event := [.chunk "s" 0 ⟨#[1]⟩, .work 0, .work 0, .work 0, .work 0]

def lostShare : Share := .fresh "s" .streaming 0

def lostArrived : Course :=
  (start copyTransfer).run (lostBefore ++ [.join lostShare fun _ => true, .chunk "s" 0 ⟨#[1]⟩])

theorem plainScan_empty : plainScan oneSignature ByteArray.empty = [] := by
  have hwidth : oneSignature.blockLength.toNat = 1 := rfl
  have htail : plainTail oneSignature ByteArray.empty = [] := rfl
  have hwindows : plainWindows oneSignature.fullBlocks 1 ByteArray.empty 0 = [] := by
    rw [plainWindows, dif_neg (by simp)]
  rw [plainScan, htail, hwidth, hwindows, List.append_nil, List.mergeSort_nil]

/-- The local copy was searched, to no avail. -/
def lostSearched : Course := ⟨lostArrived.transfer, [.searched 0 oneSignature "c" ⟨2, true⟩ (.ok [])]⟩

theorem search_lostArrived : lostArrived.step (.work 0) = lostSearched := by
  have hfile : copyMade.HasFile "c" 1 ByteArray.empty := ⟨⟨by cbv, rfl⟩, rfl⟩
  have hdisk : lostArrived.transfer.disk = copyMade := rfl
  have htask : lostArrived.tasks[0]? = some (.search 0 oneSignature "c" ⟨2, true⟩) := rfl
  obtain ⟨u, hfound, rfl⟩ := Bench.findMatches_eq_plainScan (b := Transfer.bench 0) (P := (· = lostArrived.transfer))
    (s := oneSignature) rfl (fun t ht => by rw [ht]; exact hdisk ▸ hfile) (by decide)
    (fun p t ht => ⟨by rw [ht]; rfl, ht⟩) rfl
  rw [step_work htask, step_search, hfound, plainScan_empty]
  rfl

theorem run_lost (events : List Event) : (start copyTransfer).run (lostBefore ++ .join lostShare (fun _ => true) ::
    .chunk "s" 0 ⟨#[1]⟩ :: .work 0 :: events) = lostSearched.run events := by
  rw [← search_lostArrived]
  rfl

theorem agrees_bare {k : Nat} (hparts : c.transfer.parts = none ∨ c.transfer.parts = some (PartMap.blank k))
    (hsigned : ∀ s, c.transfer.signature = some s → s.digest = Sha256.digest D) : Agrees D c := by
  refine ⟨fun b _ o ho => ?_, hsigned⟩
  rcases hparts with hparts | hparts
  · simp [Transfer.stateAt_unmapped hparts] at ho
  · rw [Transfer.stateAt_eq hparts] at ho
    cases PartMap.eq_needed_of_blank ho

theorem agrees_lost {done : List Event} (hdone : done <+: lostBefore ++ .join lostShare (fun _ => true) :: lostAfter) :
    Agrees ⟨#[1]⟩ ((start copyTransfer).run done) := by
  have hsigned : ∀ {d : Course}, d.transfer.signature = some oneSignature →
      ∀ s, d.transfer.signature = some s → s.digest = Sha256.digest ⟨#[1]⟩ := by
    intro d hd s hs
    rw [← Option.some.inj (hd.symm.trans hs)]
    rfl
  simp only [lostBefore, lostAfter, List.cons_append, List.nil_append, List.prefix_cons_iff, List.prefix_nil] at hdone
  rcases hdone with rfl | ⟨_, rfl, rfl | ⟨_, rfl, rfl | ⟨_, rfl, rfl | ⟨_, rfl, rfl | ⟨_, rfl, rfl |
    ⟨rest, rfl, hrest⟩⟩⟩⟩⟩⟩
  · exact agrees_bare (k := 1) (.inl rfl) nofun
  · exact agrees_bare (k := 1) (.inl rfl) nofun
  · exact agrees_bare (k := 1) (.inl rfl) (hsigned rfl)
  · exact agrees_bare (k := 1) (.inl rfl) (hsigned rfl)
  · exact agrees_bare (k := 1) (.inl rfl) (hsigned rfl)
  · exact agrees_bare (k := 1) (.inl rfl) (hsigned rfl)
  · -- the local copy is searched, and everything after that happens to what was found
    have hlate := run_lost rest
    change (start copyTransfer).run (_ :: _ :: _ :: _ :: _ :: _ :: rest) = _ at hlate
    rw [hlate]
    rcases hrest with rfl | ⟨_, rfl, rfl | ⟨_, rfl, rfl | ⟨_, rfl, rfl⟩⟩⟩
    · exact agrees_bare (k := 1) (.inl rfl) (hsigned rfl)
    · exact agrees_bare (k := 1) (.inl rfl) (hsigned rfl)
    · exact agrees_bare (k := 1) (.inl rfl) (hsigned rfl)
    · exact agrees_bare (k := 1) (.inr rfl) (hsigned rfl)

/-- What a peer streams is never lost, whether or not there is a part map: once every byte from the start on was
delivered and no job is under way, a transfer that is not over needs nothing. -/
def StreamsSuffice (target : Target) (tuning : Tuning) (admission : Admission) (disk : Disk) : Prop :=
  ∀ t made, Transfer.create target tuning admission disk = (.ok t, made) →
    ∀ (D : ByteArray) (before after : List Event) (share : Share) (answers : Nat → Bool), D.size = target.size →
      (∀ done, done <+: before ++ .join share answers :: after → Agrees D ((start t).run done)) →
      StreamsAlone D (fun _ => True) ((start t).run before) share answers after →
      let c := (start t).run (before ++ .join share answers :: after)
      c.tasks = [] → c.transfer.phase.isFinal = false → ∀ o, c.transfer.stateAt o ≠ some .needed

/-- A signature came, and the local copy is being searched when the peer joins, so that there is no part map yet. The
peer sends the whole file, which is turned away; then there is a map in which all of the file is needed, no job is under
way and nobody can be asked. -/
theorem streams_lost : ¬ StreamsSuffice copyTarget copyTuning .swarming copyDisk := by
  intro h
  have hstreams : StreamsAlone ⟨#[1]⟩ (fun _ => True) ((start copyTransfer).run lostBefore) lostShare (fun _ => true)
      lostAfter := by
    refine ⟨rfl, rfl, 0, by decide +kernel, fun o hlo hhi => ?_⟩
    exact ⟨[], 0, ⟨#[1]⟩, ⟨[.work 0, .work 0, .work 0, .work 0], rfl⟩, rfl, hlo, hhi, by decide +kernel, trivial⟩
  have hneeded := h copyTransfer copyMade create_copy ⟨#[1]⟩ lostBefore lostAfter lostShare (fun _ => true) rfl
    (fun _ hdone => agrees_lost hdone) hstreams
  rw [lostAfter, run_lost] at hneeded
  exact hneeded rfl rfl 0 rfl

end Course

end FileSwarm
