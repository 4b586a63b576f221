import FileSwarm.Proofs.Transfer.Advance

/-!
# A transfer of which one peer streams

A peer that answers no range requests is told once where to start, and its bytes come in order. Nobody else
is let in meanwhile.

* `Flows` : the bytes before an offset are there, those from it on are still to come;
* `Vacant.stream` : such a peer is the first to join;
* `Flows.peerReady`, `Flows.receiveChunk` : it starts, and its next piece comes.
-/

namespace FileSwarm

namespace Transfer

theorem sendRequests_unasked {t : Transfer} (h : t.byParts = false) : t.sendRequests = t := by
  unfold sendRequests
  rw [if_pos (by simp [h])]

theorem first?_blank (n : Nat) : (((PartMap.blank n).first? .needed).map (·.start)).getD 0 = 0 := by
  simp only [PartMap.first?, PartMap.blank]
  split <;> rfl

theorem receive_quiet {q : Share} (h : q.pending = []) (r : ByteRange) : q.receive r = q := by
  rw [Share.receive, h]
  cases q
  subst h
  rfl

/-- One peer streams: the first `a` bytes are there, and nothing is pending. -/
structure Flows (w : Scene) (t : Transfer) (q : Share) (m : PartMap) (a : Nat) : Prop where
  grounded : Grounded w t
  shares : t.shares = [q]
  caps : q.caps = .streaming
  quiet : q.pending = []
  signature : t.signature = none
  fetching : t.Fetching w.original w.node m
  there : ∀ o, m.state? o = some .available ↔ o < a
  missing : a < w.original.size

section Flows

variable {w : Scene} {t : Transfer} {q : Share} {m : PartMap} {a : Nat}

theorem Flows.byParts (h : t.Flows w q m a) : t.byParts = false := by
  rw [Transfer.byParts, h.shares]
  show q.caps.partRequests = false
  rw [h.caps]
  rfl

theorem Flows.enter (h : t.Flows w q m a) {p : Phase} (hp : p.isFinal = false) (o : Outbox) :
    Flows w { t with phase := p, outbox := o } q m a :=
  ⟨h.grounded.update hp h.grounded.written h.grounded.counted, h.shares, h.caps, h.quiet, h.signature,
    h.fetching.update, h.there, h.missing⟩

theorem Flows.join (h : t.Flows w q m a) (id : String) (caps : Capabilities) : t.join id caps = t.connected id := by
  have hrefused : t.admission.refusal? t.shares.length t.byParts caps = some .streamInProgress := by
    rw [h.grounded.admission, h.byParts, h.shares]
    rfl
  exact join_refused h.grounded.isOpen hrefused

theorem Flows.connected (h : t.Flows w q m a) (id : String) : (t.connected id).Flows w q m a :=
  ⟨h.grounded.connected, h.shares, h.caps, h.quiet, h.signature, h.fetching.update, h.there, h.missing⟩

theorem Flows.peerReady (h : t.Flows w q m a) :
    ∃ u, t.peerReady q.id = (u, none) ∧ u.Flows w q.start m a ∧ u.sent = t.sent ∧ u.outbox.jobs = t.outbox.jobs := by
  have hids : (t.shares.map (·.id)).Nodup := by
    rw [h.shares]
    exact List.nodup_singleton _
  have hat : t.shares[0]? = some q := by rw [h.shares]; rfl
  have hset : t.shares.set 0 q.start = [q.start] := by rw [h.shares]; rfl
  have hf := h.fetching
  have hg := h.grounded
  have hu : Flows w { t with shares := [q.start] } q.start m a := by
    refine ⟨?_, rfl, h.caps, h.quiet, h.signature, ?_, h.there, h.missing⟩
    · exact hg.update hg.isOpen hg.written hg.counted
    · rw [← hset]
      exact hf.restart hat
  refine ⟨_, ?_, hu, rfl, rfl⟩
  have hmem : q ∈ t.shares := List.mem_of_getElem? hat
  rw [Transfer.peerReady, if_neg (by simp [isAttached_of_mem hmem]), if_neg (by simp [hg.isOpen]),
    updateShare_eq hids hat, hset, ensureSignature_settled (.inl (by rw [show _ = some m from hf.parts]; rfl)),
    sendRequests_unasked hu.byParts]

/-- With the next piece, all before its end is there. -/
theorem Flows.there_set (h : t.Flows w q m a) {r : ByteRange} (hstart : r.start = a) (hstop : r.stop ≤ w.original.size)
    (o : Nat) : (m.set r .available).state? o = some .available ↔ o < r.stop := by
  rw [PartMap.state?_set]
  by_cases hin : o ∈ r
  · rw [if_pos ⟨hin, Nat.lt_of_lt_of_le hin.2 (h.fetching.length_eq.symm ▸ hstop)⟩]
    exact ⟨fun _ => hin.2, fun _ => rfl⟩
  · rw [if_neg fun hc => hin hc.1, h.there, ← hstart]
    refine ⟨fun hlt => Nat.lt_of_lt_of_le hlt (Nat.le_add_right _ _), fun hlt => ?_⟩
    by_contra hge
    exact hin ⟨Nat.le_of_not_lt hge, hlt⟩

theorem Flows.receiveChunk (h : t.Flows w q m a) (hjobs : t.outbox.jobs = []) {r : ByteRange} (hstart : r.start = a)
    (hpos : 0 < r.length) (hstop : r.stop ≤ w.original.size) :
    ∃ u, t.receiveChunk q.id r.start (w.original.extract r.start r.stop) = .ok u ∧
      (u.Flows w q (m.set r .available) r.stop ∧ u.sent = t.sent ∧ u.outbox.jobs = [] ∨
        r.stop = w.original.size ∧ Finished w u ∧ u.outbox.jobs = []) := by
  have hf := h.fetching
  have hg := h.grounded
  have hids : (t.shares.map (·.id)).Nodup := by
    rw [h.shares]
    exact List.nodup_singleton _
  have hat : t.shares[0]? = some q := by rw [h.shares]; rfl
  have hset : t.shares.set 0 q = [q] := by rw [h.shares]; rfl
  have hmem : q ∈ t.shares := List.mem_of_getElem? hat
  obtain ⟨e, hstored, hwritten, hbytes⟩ := hg.receiveChunk hmem hf.parts hpos hstop
  let v : Transfer := { t with
    disk := e
    shares := [q]
    tally := t.tally.add r.length
    metrics := t.metrics.chunk r.length
    parts := some (m.set r .available) }
  have hcredit : ({ t with disk := e } : Transfer).creditChunk q.id r m =
      if (m.set r .available).isComplete then v.checkComplete else v.sendRequests := by
    have hupdate := updateShare_eq (t := { t with disk := e }) hids hat (·.receive r)
    unfold creditChunk
    rw [hupdate]
    dsimp only
    rw [receive_quiet h.quiet, hset]
  have hcounted : v.metrics.mismatches = 0 := hg.counted
  have hvg : Grounded w v := hg.update hg.isOpen hwritten hcounted
  have hnone : ∀ o, owedAt [q] o = 0 := by
    intro o
    rw [owedAt, List.map_cons, h.quiet]
    rfl
  have hvf : v.Fetching w.original w.node (m.set r .available) := by
    refine hf.credit hstop w.size_le (fun o ho hav => ?_) hbytes rfl rfl (fun o => ?_) fun s hs p hp => ?_
    · have := (h.there o).1 hav
      have := ho.1
      omega
    · show owedAt [q] o = if o ∈ r then 0 else owedAt t.shares o
      rw [h.shares, hnone, ite_self]
    · obtain rfl := List.mem_singleton.1 hs
      rw [h.quiet] at hp
      exact absurd hp List.not_mem_nil
  have hthere := h.there_set hstart hstop
  refine ⟨_, hstored.trans (congrArg Except.ok hcredit), ?_⟩
  split
  · next hcomplete =>
    have hall := hvf.isComplete_iff.1 hcomplete
    have hend : r.stop = w.original.size := by
      refine Nat.le_antisymm hstop (Nat.le_of_not_lt fun hlt => ?_)
      have hlast := PartMap.isComplete_iff.1 hcomplete r.stop (by rw [hvf.length_eq]; exact hlt)
      exact absurd ((hthere r.stop).1 hlast) (Nat.lt_irrefl _)
    exact .inr ⟨hend, hvg.finish_unsigned (Fetching.content_eq ⟨_, hvf⟩ hvg hall) hall h.signature hjobs⟩
  · next hcomplete =>
    have hlt : r.stop < w.original.size := by
      refine Nat.lt_of_le_of_ne hstop fun heq => hcomplete ?_
      refine PartMap.isComplete_iff.2 fun o ho => (hthere o).2 ?_
      rw [heq, ← hvf.length_eq]
      exact ho
    have hflows : v.Flows w q (m.set r .available) r.stop :=
      ⟨hvg, rfl, h.caps, h.quiet, h.signature, hvf, hthere, hlt⟩
    rw [sendRequests_unasked hflows.byParts]
    exact .inl ⟨hflows, rfl, hjobs⟩

/-! ## The first peer -/

section First

variable (id : String)

/-- The share of a peer that streams and has just joined. -/
def streamer (t : Transfer) (id : String) : Share :=
  (Share.fresh id .streaming t.links.size).withBudget t.tuning.maxRequests

theorem Vacant.shares_welcome (h : Vacant w t) : (t.welcome id .streaming).shares = [t.streamer id] := by
  show t.shares ++ [_] = _
  rw [h.shares]
  rfl

/-- Wherever the part map comes from, the peer is told to start at the beginning. -/
theorem Vacant.sent_welcome (h : Vacant w t) :
    (t.welcome id .streaming).sent = t.sent.push (t.links.size, .file 0) := by
  have hparts := h.parts
  cases hdelta : t.delta with
  | true =>
    rw [hdelta, if_pos rfl] at hparts
    rw [welcome, hparts]
    rfl
  | false =>
    rw [hdelta, if_neg nofun] at hparts
    rw [welcome, hparts]
    exact congrArg (fun o => t.sent.push (t.links.size, .file o)) (first?_blank w.original.size)

theorem Vacant.flows (h : Vacant w t) (hpos : 0 < w.original.size) {u : Transfer} (hu : Grounded w u)
    (hshares : u.shares = (t.welcome id .streaming).shares) (hsignature : u.signature = none) (hgot : u.got = 0)
    (hparts : u.parts = some (PartMap.blank w.original.size)) :
    u.Flows w (t.streamer id) (PartMap.blank w.original.size) 0 := by
  have hone : u.shares = [t.streamer id] := hshares.trans (h.shares_welcome id)
  have hquiet : ∀ s ∈ u.shares, s.pending = [] := by
    intro s hs
    rw [hone] at hs
    obtain rfl := List.mem_singleton.1 hs
    rfl
  refine ⟨hu, hone, rfl, rfl, hsignature, fetching_blank hparts hquiet hgot, fun o => ?_, hpos⟩
  exact ⟨fun hav => (nomatch PartMap.eq_needed_of_blank hav), fun hlt => absurd hlt (Nat.not_lt_zero o)⟩

theorem Vacant.stream_mapped (h : Vacant w t) (hpos : 0 < w.original.size) (hjobs : t.outbox.jobs = [])
    (hparts : t.parts = some (PartMap.blank w.original.size)) (c : Bool) :
    ∃ p o, (if c then (t.welcome id .streaming).setPhase .downloading
        else t.welcome id .streaming).ensureSignature.sendRequests =
        { t.welcome id .streaming with phase := p, outbox := o } ∧ o.jobs = [] ∧
      Flows w { t.welcome id .streaming with phase := p, outbox := o } (t.streamer id)
        (PartMap.blank w.original.size) 0 := by
  have hg := h.grounded
  have hphase : ∃ p o, (if c then (t.welcome id .streaming).setPhase .downloading else t.welcome id .streaming) =
      { t.welcome id .streaming with phase := p, outbox := o } ∧ p.isFinal = false ∧ o.jobs = [] := by
    split
    · obtain ⟨o, heq, ho⟩ := setPhase_eq (t.welcome id .streaming) .downloading
      exact ⟨.downloading, o, heq, rfl, ho.trans hjobs⟩
    · exact ⟨t.phase, t.outbox, rfl, hg.isOpen, hjobs⟩
  obtain ⟨p, o, heq, hp, ho⟩ := hphase
  have hwelcome : Grounded w (t.welcome id .streaming) := hg.welcome
  have hu := h.flows id hpos (u := { t.welcome id .streaming with phase := p, outbox := o })
    (hwelcome.update hp hwelcome.written hwelcome.counted) rfl h.signature h.got_eq hparts
  refine ⟨p, o, ?_, ho, hu⟩
  rw [heq, ensureSignature_settled (.inl (by rw [hu.fetching.parts]; rfl)), sendRequests_unasked hu.byParts]

/-- A peer that streams has no signature, so the local copy is not looked at and all is needed. -/
theorem Vacant.stream_unmapped (h : Vacant w t) (hpos : 0 < w.original.size) (hjobs : t.outbox.jobs = [])
    (hdelta : t.delta) (hparts : t.parts = none) :
    ∃ o, (t.welcome id .streaming).ensureSignature.sendRequests =
        { t.welcome id .streaming with
          parts := some (PartMap.blank w.original.size)
          tally := Tally.start 0 w.original.size
          phase := .downloading
          outbox := o } ∧ o.jobs = [] ∧
      Flows w { t.welcome id .streaming with
          parts := some (PartMap.blank w.original.size)
          tally := Tally.start 0 w.original.size
          phase := .downloading
          outbox := o } (t.streamer id) (PartMap.blank w.original.size) 0 := by
  have hg := h.grounded
  have hsize : (t.welcome id .streaming).target.size = w.original.size := by
    show t.target.size = _
    rw [hg.target, w.size_eq]
  have hunmapped : (t.welcome id .streaming).Unmapped := by
    refine ⟨hdelta, hparts, fun s hs => ?_, h.got_eq⟩
    rw [h.shares_welcome id] at hs
    obtain rfl := List.mem_singleton.1 hs
    rfl
  have hask : (t.welcome id .streaming).ensureSignature = (t.welcome id .streaming).fetchAll := by
    rw [ensureSignature_unowed hunmapped h.signature h.owing hg.isOpen, askSignature, h.shares_welcome id]
    rfl
  obtain ⟨o, heq, ho⟩ := setPhase_eq { t.welcome id .streaming with
    parts := some (PartMap.blank w.original.size)
    tally := Tally.start 0 w.original.size } .downloading
  have hu := h.flows id hpos (u := { t.welcome id .streaming with
    parts := some (PartMap.blank w.original.size)
    tally := Tally.start 0 w.original.size
    phase := .downloading
    outbox := o }) (hg.update (p := .downloading) rfl hg.written hg.counted) rfl h.signature h.got_eq rfl
  refine ⟨o, ?_, ho.trans hjobs, hu⟩
  rw [hask, fetchAll, hsize, heq, sendRequests_unasked hu.byParts]

/-- The first peer joins, and is told to start at the beginning. -/
theorem Vacant.stream (h : Vacant w t) (hjobs : t.outbox.jobs = []) (id : String) :
    (Finished w (t.join id .streaming) ∧ (t.join id .streaming).outbox.jobs = []) ∨
      ∃ q m, (t.join id .streaming).Flows w q m 0 ∧ q.id = id ∧
        (t.join id .streaming).sent = t.sent.push (t.links.size, .file 0) ∧
        (t.join id .streaming).outbox.jobs = [] := by
  have hg := h.grounded
  have hnew : t.isAttached id = false := by rw [isAttached, h.shares]; rfl
  have haccept : t.admission.refusal? t.shares.length t.byParts .streaming = none := by
    rw [hg.admission, h.shares]
    rfl
  rw [join_welcome hg.isOpen hnew haccept, hg.target, w.size_eq]
  by_cases hsize : w.original.size = 0
  · rw [if_pos hsize]
    exact .inl (h.empty hjobs hsize)
  · rw [if_neg hsize]
    have hpos : 0 < w.original.size := Nat.pos_of_ne_zero hsize
    have hparts := h.parts
    refine .inr ⟨t.streamer id, PartMap.blank w.original.size, ?_⟩
    cases hdelta : t.delta with
    | false =>
      rw [hdelta, if_neg (by decide)] at hparts
      obtain ⟨p, o, heq, ho, hflows⟩ := h.stream_mapped id hpos hjobs hparts
        (t.phase = .initial && t.parts.isSome)
      rw [heq]
      exact ⟨hflows, rfl, h.sent_welcome id, ho⟩
    | true =>
      rw [hdelta, if_pos rfl] at hparts
      obtain ⟨o, heq, ho, hflows⟩ := h.stream_unmapped id hpos hjobs hdelta hparts
      rw [if_neg (by rw [hparts]; simp), heq]
      exact ⟨hflows, rfl, h.sent_welcome id, ho⟩

end First

end Flows

end Transfer

end FileSwarm
