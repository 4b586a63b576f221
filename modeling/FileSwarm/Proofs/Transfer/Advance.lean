import FileSwarm.Proofs.Transfer.Stages

/-!
# Every answer moves a transfer on

One lemma for each thing that a peer can do to a transfer on its way; what it comes to is an `Outcome`.

* `Vacant` : the transfer before the first peer;
* `Going.join`, `Vacant.join` : one more peer;
* `Going.fetching` : bytes are owed to a transfer that fetches them;
* `Going.peerReady`, `Going.receiveSignature`, `Going.receiveChunk` : the answers of peers.
-/

namespace FileSwarm

namespace Transfer

/-- A transfer that nobody joined yet. -/
structure Vacant (w : Scene) (t : Transfer) : Prop where
  grounded : Grounded w t
  shares : t.shares = []
  signature : t.signature = none
  owing : t.owing = none
  got_eq : t.got = 0
  parts : t.parts = if t.delta then none else some (PartMap.blank w.original.size)

section Advance

variable {w : Scene} {names : List String} {inbox : Nat → List Call} {d : Nat} {t : Transfer} {l : List Task}

/-! ## Peers that join -/

/-- A peer joins over a connection of its own. -/
def join (t : Transfer) (id : String) (caps : Capabilities) : Transfer :=
  ((t.connect (.accepting id none)).1.addPeer (.fresh id caps t.links.size)).1

/-- The transfer with a connection to one more peer. -/
def connected (t : Transfer) (id : String) : Transfer := { t with links := t.links.push (.accepting id none) }

/-- The transfer with one more peer, which is told where to start. -/
def welcome (t : Transfer) (id : String) (caps : Capabilities) : Transfer :=
  { t with
    links := t.links.push (.accepting id none)
    sent := t.sent.push (t.links.size, .file (((t.parts.bind (·.first? .needed)).map (·.start)).getD 0))
    shares := t.shares ++ [(Share.fresh id caps t.links.size).withBudget t.tuning.maxRequests] }

variable {id : String} {caps : Capabilities}

theorem join_attached (hopen : t.phase.isFinal = false) (h : t.isAttached id) : t.join id caps = t.connected id := by
  have hsame : (t.connect (.accepting id none)).1.isAttached (Share.fresh id caps t.links.size).id := h
  unfold join addPeer
  rw [if_neg (by simp [connect, hopen]), if_pos hsame]
  rfl

theorem join_refused {reason : Refusal} (hopen : t.phase.isFinal = false)
    (h : t.admission.refusal? t.shares.length t.byParts caps = some reason) : t.join id caps = t.connected id := by
  unfold join addPeer
  rw [if_neg (by simp [connect, hopen])]
  split
  · rfl
  · have hsame : (t.connect (.accepting id none)).1.admission.refusal? (t.connect (.accepting id none)).1.shares.length
        (t.connect (.accepting id none)).1.byParts (Share.fresh id caps t.links.size).caps = some reason := h
    rw [hsame]
    rfl

theorem join_welcome (hopen : t.phase.isFinal = false) (hnew : t.isAttached id = false)
    (haccept : t.admission.refusal? t.shares.length t.byParts caps = none) :
    t.join id caps = if t.target.size = 0 then (t.welcome id caps).complete
      else (if t.phase = .initial && t.parts.isSome then (t.welcome id caps).setPhase .downloading
        else t.welcome id caps).ensureSignature.sendRequests := by
  have hsame : (t.connect (.accepting id none)).1.admission.refusal? (t.connect (.accepting id none)).1.shares.length
      (t.connect (.accepting id none)).1.byParts (Share.fresh id caps t.links.size).caps = none := haccept
  have hnew' : (t.connect (.accepting id none)).1.isAttached (Share.fresh id caps t.links.size).id = false := hnew
  unfold join addPeer
  rw [if_neg (by simp [connect, hopen]), if_neg (by simp [hnew']), hsame]
  dsimp only [tell, connect]
  split <;> rfl

theorem Peers.admits (h : t.Peers d names inbox) (hswarm : t.admission = .swarming) :
    t.admission.refusal? t.shares.length t.byParts .full = none := by
  rw [hswarm]
  unfold Admission.refusal?
  cases hs : t.shares with
  | nil => rfl
  | cons s rest =>
    have hby : t.byParts := by
      rw [byParts, hs]
      show s.caps.partRequests = true
      rw [(h.able s (by rw [hs]; exact List.mem_cons_self)).1]
      rfl
    dsimp only
    rw [if_neg (by simp), hby]
    rfl

theorem Grounded.connected (h : Grounded w t) : Grounded w (t.connected id) := h.update h.isOpen h.written h.counted

theorem Grounded.welcome (h : Grounded w t) : Grounded w (t.welcome id caps) := h.update h.isOpen h.written h.counted

theorem Peers.welcome (h : t.Peers d names inbox) (hnew : t.isAttached id = false) :
    (t.welcome id .full).Peers d (names ++ [id]) inbox := by
  have hbudget : 1 ≤ ((Share.fresh id .full t.links.size).withBudget t.tuning.maxRequests).budget :=
    Nat.le_max_right _ _
  have hlinks : ∃ l : Link, (∀ k, l.answers k) ∧ (t.welcome id .full).links = t.links.push l :=
    ⟨.accepting id none, fun _ => rfl, rfl⟩
  exact h.attach (u := t.welcome id .full) hlinks ⟨_, rfl⟩ rfl rfl hnew rfl ⟨rfl, rfl, hbudget⟩ ⟨rfl, rfl⟩

theorem Unmapped.welcome (h : t.Unmapped) : (t.welcome id caps).Unmapped := by
  refine ⟨h.delta, h.parts, fun q hq => ?_, h.got_eq⟩
  rcases List.mem_append.1 hq with hq | hq
  · exact h.quiet q hq
  · obtain rfl := List.mem_singleton.1 hq
    rfl

theorem Fetching.welcome {D : ByteArray} {n : Nat} {m : PartMap} (h : t.Fetching D n m) :
    (t.welcome id caps).Fetching D n m := by
  refine ⟨h.parts, h.length_eq, h.byte_eq, fun o => ?_, fun q hq p hp => ?_, h.got_eq⟩
  · rw [← h.owed o]
    show owedAt (t.shares ++ [_]) o = owedAt t.shares o
    rw [owedAt, List.map_append, sumOf_append]
    rfl
  · rcases List.mem_append.1 hq with hq | hq
    · exact h.pos q hq p hp
    · obtain rfl := List.mem_singleton.1 hq
      exact absurd hp List.not_mem_nil

theorem Going.connected (h : Going w names inbox d t l) : Going w (names ++ [id]) inbox d (t.connected id) l := by
  refine ⟨h.grounded.connected, h.pos, h.peers.connect (fun _ => rfl) id, ?_⟩
  cases h.stage with
  | waiting hu hs ho hp => exact .waiting hu.update hs ho hp
  | asking hu hs hm hstart ho => exact .asking hu.update hs hm hstart ho
  | looking hl hlook => exact .looking (hl.update hl.unmapped.update rfl rfl) hlook
  | fetching hf hmiss hs ho => exact .fetching hf.update hmiss hs ho
  | verifying hf hall ho htask => exact .verifying hf.update hall ho htask

theorem Going.welcome (h : Going w names inbox d t l) (hnew : t.isAttached id = false) :
    Going w (names ++ [id]) inbox d (t.welcome id .full) l := by
  refine ⟨h.grounded.welcome, h.pos, h.peers.welcome hnew, ?_⟩
  cases h.stage with
  | waiting hu hs ho hp => exact .waiting hu.welcome hs ho (List.append_ne_nil_of_left_ne_nil hp _)
  | asking hu hs hm hstart ho => exact .asking hu.welcome hs (List.mem_append_left _ hm) hstart ho
  | looking hl hlook => exact .looking (hl.update hl.unmapped.welcome rfl rfl) hlook
  | fetching hf hmiss hs ho => exact .fetching hf.welcome hmiss hs ho
  | verifying hf hall ho htask => exact .verifying hf.welcome hall ho htask

theorem Going.begin (h : Going w names inbox d t l) (hjobs : t.outbox.jobs = []) (c : Bool) :
    Outcome w names inbox d (if c then t.setPhase .downloading else t).ensureSignature.sendRequests l := by
  cases c with
  | false => exact h.resume hjobs
  | true => exact (h.setPhase rfl).resume (by simpa using hjobs)

/-- What joins a transfer on its way is let in, or is there already. -/
theorem Going.join (h : Going w names inbox d t l) (hr : t.Rested) (hjobs : t.outbox.jobs = []) (id : String) :
    Outcome w (names ++ [id]) inbox d (t.join id .full) l := by
  cases hnew : t.isAttached id with
  | true =>
    rw [join_attached h.grounded.isOpen hnew]
    exact h.connected.outcome ⟨hr.signature, hr.parts⟩ hjobs
  | false =>
    have hsize : t.target.size ≠ 0 := by
      rw [h.grounded.target, w.size_eq]
      exact Nat.pos_iff_ne_zero.1 h.pos
    rw [join_welcome h.grounded.isOpen hnew (h.peers.admits h.grounded.admission), if_neg hsize]
    exact (h.welcome hnew).begin hjobs _

theorem fetching_blank {D : ByteArray} {n : Nat} (hparts : t.parts = some (PartMap.blank D.size))
    (hquiet : ∀ s ∈ t.shares, s.pending = []) (hgot : t.got = 0) : t.Fetching D n (PartMap.blank D.size) := by
  have hpending : ∀ o, (PartMap.blank D.size).state? o ≠ some .pending :=
    fun o ho => nomatch PartMap.eq_needed_of_blank ho
  have havailable : ∀ o, (PartMap.blank D.size).state? o ≠ some .available :=
    fun o ho => nomatch PartMap.eq_needed_of_blank ho
  refine ⟨hparts, PartMap.length_blank _, fun o ho => absurd ho (havailable o), fun o => ?_,
    fun s hs p hp => ?_, ?_⟩
  · rw [if_neg (hpending o)]
    apply sumOf_eq_zero.2
    intro k hk
    obtain ⟨s, hs, rfl⟩ := List.mem_map.1 hk
    rw [hquiet s hs]
    rfl
  · rw [hquiet s hs] at hp
    exact absurd hp List.not_mem_nil
  · rw [hgot, PartMap.countAll_eq_zero havailable]

theorem Vacant.empty (h : Vacant w t) (hjobs : t.outbox.jobs = []) (hsize : w.original.size = 0) :
    Finished w (t.welcome id caps).complete ∧ (t.welcome id caps).complete.outbox.jobs = [] := by
  have hcontent : t.disk.content w.node = w.original := h.grounded.written.content_eq fun o ho => by omega
  have hwelcome : Grounded w (t.welcome id caps) := h.grounded.welcome
  obtain ⟨hfinished, hsame⟩ := hwelcome.finish hcontent (h.got_eq.trans hsize.symm)
  exact ⟨hfinished, hsame.trans hjobs⟩

theorem Vacant.join (h : Vacant w t) (hp : t.Peers d names inbox) (hjobs : t.outbox.jobs = []) (id : String) :
    Outcome w (names ++ [id]) inbox d (t.join id .full) [] := by
  have hnew : t.isAttached id = false := by rw [isAttached, h.shares]; rfl
  have hg := h.grounded
  rw [join_welcome hg.isOpen hnew (hp.admits hg.admission), hg.target, w.size_eq]
  by_cases hsize : w.original.size = 0
  · rw [if_pos hsize]
    obtain ⟨hfinished, hnone⟩ := h.empty hjobs hsize
    exact .inr ⟨hfinished, by rw [hnone]; rfl⟩
  · rw [if_neg hsize]
    have hnobody : ∀ s ∈ t.shares, s.pending = [] := by
      intro s hs
      rw [h.shares] at hs
      exact absurd hs List.not_mem_nil
    have hparts := h.parts
    refine Going.begin ⟨hg.welcome, Nat.pos_of_ne_zero hsize, hp.welcome hnew, ?_⟩ hjobs _
    cases hdelta : t.delta with
    | true =>
      rw [hdelta, if_pos rfl] at hparts
      have hu : t.Unmapped := ⟨hdelta, hparts, hnobody, h.got_eq⟩
      exact .waiting hu.welcome h.signature h.owing (List.append_ne_nil_of_right_ne_nil _ (by simp))
    | false =>
      rw [hdelta, if_neg nofun] at hparts
      refine .fetching (fetching_blank hparts hnobody h.got_eq).welcome ?_
        (fun s hs => nomatch h.signature.symm.trans hs) h.owing
      show t.got ≠ _
      rw [h.got_eq]
      exact Ne.symm hsize

/-! ## Answers -/

section Answers

variable {i : Nat} {s : Share} {rest : List Call}

/-- The same transfer but for a peer that has started or not. -/
theorem Fetching.restart {D : ByteArray} {n : Nat} {m : PartMap} (h : t.Fetching D n m) (hs : t.shares[i]? = some s) :
    Fetching D n { t with shares := t.shares.set i s.start } m := by
  refine ⟨h.parts, h.length_eq, h.byte_eq, fun o => ?_, fun q hq p hp => ?_, h.got_eq⟩
  · rw [← h.owed o]
    show sumOf ((t.shares.set i s.start).map _) = sumOf (t.shares.map _)
    rw [map_set_eq (b := s.start) hs rfl]
  · rcases List.mem_or_eq_of_mem_set hq with hq | rfl
    · exact h.pos q hq p hp
    · exact h.pos s (List.mem_of_getElem? hs) p hp

theorem Unmapped.restart (h : t.Unmapped) (hs : t.shares[i]? = some s) :
    Unmapped { t with shares := t.shares.set i s.start } := by
  refine ⟨h.delta, h.parts, fun q hq => ?_, h.got_eq⟩
  rcases List.mem_or_eq_of_mem_set hq with hq | rfl
  · exact h.quiet q hq
  · exact h.quiet s (List.mem_of_getElem? hs)

theorem Going.peerReady (h : Going w names inbox t.sent.size t l) (hjobs : t.outbox.jobs = [])
    (hs : t.shares[i]? = some s) {offset : Nat} (hinbox : inbox s.link = .file offset :: rest) :
    ∃ u, t.peerReady s.id = (u, none) ∧ Outcome w names (Function.update inbox s.link rest) t.sent.size u l := by
  have hmem : s ∈ t.shares := List.mem_of_getElem? hs
  have hqueue := h.peers.awaits hs
  rw [hinbox] at hqueue
  obtain ⟨hstarted, hpending, rfl⟩ := hqueue.file
  have howing : t.owing ≠ some s.id := by
    intro howing
    rw [h.owing_started hmem howing] at hstarted
    exact nomatch hstarted
  have hready : t.peerReady s.id =
      (({ t with shares := t.shares.set i s.start } : Transfer).ensureSignature.sendRequests, none) := by
    rw [Transfer.peerReady, if_neg (by simp [isAttached_of_mem hmem]), if_neg (by simp [h.grounded.isOpen]),
      updateShare_eq h.peers.ids hs]
  have hg := h.grounded
  have hawaits : Awaits t.owing s.start [] := by
    unfold Awaits
    rw [if_pos (show s.start.started from rfl), if_neg (show t.owing ≠ some s.start.id from howing)]
    show [] = [] ++ s.pending.map _
    rw [hpending]
    rfl
  have hpeers : Peers { t with shares := t.shares.set i s.start } t.sent.size names (Function.update inbox s.link []) :=
    h.peers.answer (u := { t with shares := t.shares.set i s.start }) hs rfl rfl rfl ⟨rfl, rfl, rfl⟩ rfl rfl
      (fun _ _ _ => Iff.rfl) hawaits
  refine ⟨_, hready, Going.resume ⟨?_, h.pos, hpeers, ?_⟩ hjobs⟩
  · exact hg.update hg.isOpen hg.written hg.counted
  · cases h.stage with
    | waiting hu hsig ho hp => exact .waiting (hu.restart hs) hsig ho fun hnil => hp ((List.set_eq_nil_iff _ _).1 hnil)
    | @asking q hu hsig hm hstart ho =>
      -- the peer that was asked has started, so it is another one
      obtain ⟨j, hj⟩ := List.mem_iff_getElem?.1 hm
      have hij : i ≠ j := by
        rintro rfl
        obtain rfl := Option.some.inj (hs.symm.trans hj)
        exact howing ho
      have hm' : q ∈ t.shares.set i s.start := by
        refine List.mem_of_getElem? (i := j) ?_
        rw [List.getElem?_set_ne hij, hj]
      exact .asking (hu.restart hs) hsig hm' hstart ho
    | looking hl hlook => exact .looking (hl.update (hl.unmapped.restart hs) rfl rfl) hlook
    | fetching hf hmiss hsig ho => exact .fetching (hf.restart hs) hmiss hsig ho
    | verifying hf hall ho htask => exact .verifying (hf.restart hs) hall ho htask

/-- A signature of the file comes, and the local copy is looked at. -/
theorem Going.receiveSignature (h : Going w names inbox t.sent.size t l) (hjobs : t.outbox.jobs = [])
    (hs : t.shares[i]? = some s) (hinbox : inbox s.link = .signature :: rest) {k : Nat} (hk : 0 < k)
    (hle : k ≤ Signature.maxBlockLength) (hsafe : w.Safe k) :
    Outcome w names (Function.update inbox s.link rest) t.sent.size
      (t.receiveSignature (Signature.describe k w.original)) l := by
  have hmem : s ∈ t.shares := List.mem_of_getElem? hs
  have hqueue := h.peers.awaits hs
  rw [hinbox] at hqueue
  obtain ⟨hstarted, howing, hrest⟩ := hqueue.signature
  have hoffset : w.original.size ≤ maxOffset := Nat.le_trans w.size_le (by decide)
  have hg := h.grounded
  cases h.stage with
  | waiting _ _ ho _ => exact nomatch ho.symm.trans howing
  | looking hl _ => exact nomatch hl.owing.symm.trans howing
  | fetching _ _ _ ho => exact nomatch ho.symm.trans howing
  | verifying _ _ ho _ => exact nomatch ho.symm.trans howing
  | asking hu hsig _ _ _ =>
    obtain ⟨c, hc, hcfile⟩ := hg.delta hu.delta
    obtain ⟨m, b, hfile⟩ := Disk.HasFile.of_isFile hcfile
    have hc' : t.target.candidate = some c := by rw [hg.target, hc]
    have hreceive : t.receiveSignature (Signature.describe k w.original) =
        (({ t with signature := some (Signature.describe k w.original), owing := none } : Transfer).setPhase
          .matching).queueJob (.matchAndCopy 0 (Signature.describe k w.original) c ⟨w.node, true⟩) := by
      unfold Transfer.receiveSignature
      rw [if_neg (by simp [hg.isOpen, hsig]),
        if_neg (by simp [hg.target, w.size_eq, Signature.fileLength_describe hoffset]),
        Signature.flaw?_describe hoffset hk hle]
      dsimp only
      rw [if_neg (by simp [hu.parts]), hc', hg.temp, hg.epoch]
    obtain ⟨o, heq, ho⟩ := setPhase_eq
      { t with signature := some (Signature.describe k w.original), owing := none } .matching
    rw [hreceive, heq]
    have hpeers : Peers { t with signature := some (Signature.describe k w.original), owing := none } t.sent.size names
        (Function.update inbox s.link rest) := by
      obtain ⟨hlt, hget⟩ := List.getElem?_eq_some_iff.1 hs
      have hset : t.shares = t.shares.set i s := by rw [← hget, List.set_getElem_self]
      refine h.peers.answer (u := { t with signature := some (Signature.describe k w.original), owing := none }) hs hset
        rfl rfl ⟨rfl, rfl, rfl⟩ rfl rfl (fun q hq hne => ?_) ?_
      · show none = some q.id ↔ t.owing = some q.id
        rw [howing]
        refine ⟨nofun, fun hid => ?_⟩
        have := List.inj_on_of_nodup_map h.peers.ids hmem hq (Option.some.inj hid)
        exact absurd (congrArg Share.link this).symm hne
      · unfold Awaits
        rw [if_pos hstarted, if_neg nofun]
        exact hrest
    have hlooks : ([] : List Task) ++ (o.jobs ++ [Job.matchAndCopy 0 (Signature.describe k w.original) c
        ⟨w.node, true⟩]).map Task.ofJob = [.search 0 (Signature.describe k w.original) c ⟨w.node, true⟩] := by
      rw [ho, hjobs]
      rfl
    refine .inl ⟨⟨?_, h.pos, hpeers.update, ?_⟩, ?_⟩
    · exact hg.update (p := .matching) rfl hg.written hg.counted
    · show Stage w _ ([] ++ (o.jobs ++ [_]).map Task.ofJob)
      rw [hlooks]
      exact .looking ⟨hu.update, rfl, rfl, hk, hle, hsafe, hc, hfile⟩ .search
    · exact ⟨fun _ hnone => (nomatch hnone), fun m' hm' => (nomatch hu.parts.symm.trans hm')⟩

theorem receiveChunk_stored {id : String} {offset : Nat} {bytes : ByteArray} {m : PartMap} {temp : Handle} {e : Disk}
    (hopen : t.phase.isFinal = false) (hid : t.isAttached id) (hpos : 0 < bytes.size)
    (hinside : offset + bytes.size ≤ t.target.size) (htarget : t.target.size ≤ maxOffset) (hparts : t.parts = some m)
    (htemp : t.temp = some temp) (hwrite : t.disk.writeAt temp offset bytes = .ok e) :
    t.receiveChunk id offset bytes = .ok (({ t with disk := e } : Transfer).creditChunk id ⟨offset, bytes.size⟩ m) := by
  rw [receiveChunk_mapped hopen hid hpos hinside htarget hparts htemp, hwrite]

/-- A part of the file comes from a peer, and is written in its place. -/
theorem Grounded.receiveChunk (h : Grounded w t) (hs : s ∈ t.shares) {m : PartMap} (hparts : t.parts = some m)
    {r : ByteRange} (hpos : 0 < r.length) (hstop : r.stop ≤ w.original.size) :
    ∃ e, t.receiveChunk s.id r.start (w.original.extract r.start r.stop) =
        .ok (({ t with disk := e } : Transfer).creditChunk s.id r m) ∧ Written w.original w.node w.disk e ∧
      ∀ o < w.original.size, o ∈ r ∨ Bytes.byte? (t.disk.content w.node) o = Bytes.byte? w.original o →
        Bytes.byte? (e.content w.node) o = Bytes.byte? w.original o := by
  obtain ⟨e, he, hwritten, hbytes⟩ := h.written.write hpos hstop w.size_le
  have hsize := ByteRange.size_extract hstop
  have hinside : r.start + (w.original.extract r.start r.stop).size ≤ t.target.size := by
    rw [hsize, h.target, w.size_eq]
    exact hstop
  have htarget : t.target.size ≤ maxOffset := by
    rw [h.target, w.size_eq]
    exact Nat.le_trans w.size_le (by decide)
  refine ⟨e, ?_, hwritten, hbytes⟩
  rw [receiveChunk_stored h.isOpen (isAttached_of_mem hs) (hsize.symm ▸ hpos) hinside htarget hparts h.temp he, hsize]

/-- Bytes are owed to a transfer that fetches them, and nothing is owed when all are there. -/
theorem Going.fetching (h : Going w names inbox d t l) (hs : t.shares[i]? = some s) {r : ByteRange} {k : List ByteRange}
    (hpending : s.pending = r :: k) :
    l = [] ∧ ∃ m, t.Fetching w.original w.node m ∧ t.got ≠ w.original.size ∧
      (∀ x, t.signature = some x → x.digest = Sha256.digest w.original) ∧ t.owing = none := by
  have hunmapped : ¬ t.Unmapped := fun hu => nomatch (hu.quiet s (List.mem_of_getElem? hs)).symm.trans hpending
  cases h.stage with
  | waiting hu => exact absurd hu hunmapped
  | asking hu => exact absurd hu hunmapped
  | looking hl => exact absurd hl.unmapped hunmapped
  | fetching hf hmiss hsigned ho => exact ⟨rfl, _, hf, hmiss, hsigned, ho⟩
  | verifying hf hall =>
    obtain ⟨hpos, -, hstate, -⟩ := hf.owes hs hpending
    have hin : r.start ∈ r := ⟨Nat.le_refl _, Nat.lt_add_of_pos_right hpos⟩
    have hlt := PartMap.lt_length (hstate _ hin)
    have := PartMap.isComplete_iff.1 (hf.isComplete_iff.2 hall) _ hlt
    rw [hstate _ hin] at this
    exact nomatch this

theorem Going.receiveChunk (h : Going w names inbox t.sent.size t l) (hjobs : t.outbox.jobs = [])
    (hs : t.shares[i]? = some s) {r : ByteRange} {accepted : Bool} (hinbox : inbox s.link = .range r accepted :: rest) :
    r.stop ≤ w.original.size ∧ ∃ u, t.receiveChunk s.id r.start (w.original.extract r.start r.stop) = .ok u ∧
      Outcome w names (Function.update inbox s.link rest) t.sent.size u l := by
  have hmem : s ∈ t.shares := List.mem_of_getElem? hs
  have hqueue := h.peers.awaits hs
  rw [hinbox] at hqueue
  obtain ⟨hstarted, howing, k, hpending, hrest⟩ := hqueue.range
  have hg := h.grounded
  obtain ⟨rfl, m, hf, hmiss, hsigned, ho⟩ := h.fetching hs hpending
  obtain ⟨hpos, hstop, hstate, hreceive⟩ := hf.owes hs hpending
  obtain ⟨e, hstored, hwritten, hbytes⟩ := hg.receiveChunk hmem hf.parts hpos hstop
  -- the transfer with the bytes in their place
  let v : Transfer := { t with
    disk := e
    shares := t.shares.set i { s with pending := k }
    tally := t.tally.add r.length
    metrics := t.metrics.chunk r.length
    parts := some (m.set r .available) }
  have hcredit : ({ t with disk := e } : Transfer).creditChunk s.id r m =
      if (m.set r .available).isComplete then v.checkComplete else v.sendRequests := by
    have hupdate := updateShare_eq (t := { t with disk := e }) h.peers.ids hs (·.receive r)
    unfold creditChunk
    rw [hupdate, hreceive]
  have hcounted : v.metrics.mismatches = 0 := hg.counted
  have hvg : Grounded w v := hg.update hg.isOpen hwritten hcounted
  have hvp : v.Peers t.sent.size names (Function.update inbox s.link rest) := by
    refine h.peers.answer (v := { s with pending := k }) hs rfl rfl rfl ⟨rfl, rfl, rfl⟩ rfl rfl
      (fun _ _ _ => Iff.rfl) ?_
    show Awaits t.owing _ rest
    unfold Awaits
    rw [if_pos (show ({ s with pending := k } : Share).started from hstarted), if_neg howing]
    exact hrest
  have hvf : v.Fetching w.original w.node (m.set r .available) := by
    refine hf.credit hstop w.size_le (fun o ho => by rw [hstate o ho]; exact nofun) hbytes rfl rfl
      (hf.owed_set hs hpending) fun q hq p hp => ?_
    rcases List.mem_or_eq_of_mem_set hq with hq | rfl
    · exact hf.pos q hq p hp
    · exact hf.pos s hmem p (hpending ▸ List.mem_cons_of_mem r hp)
  refine ⟨hstop, _, hstored.trans (congrArg Except.ok hcredit), ?_⟩
  split
  · next hcomplete => exact hvg.credited h.pos hvp hvf (hvf.isComplete_iff.1 hcomplete) hsigned ho hjobs
  · next hcomplete =>
    have hmiss' : v.got ≠ w.original.size := fun hall => hcomplete (hvf.isComplete_iff.2 hall)
    have hvgoing : Going w names (Function.update inbox s.link rest) t.sent.size v [] :=
      ⟨hvg, h.pos, hvp, .fetching hvf hmiss' hsigned ho⟩
    obtain ⟨hgoing, hrested⟩ := hvgoing.send fun hnone => nomatch hnone
    exact hgoing.outcome hrested (by simpa using hjobs)

end Answers

end Advance

end Transfer

end FileSwarm
