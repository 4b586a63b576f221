import Mathlib.Logic.Relation
import FileSwarm.Proofs.Transfer.Changes

/-!
# Operations as sequences of moves

An operation that does not end a transfer makes a few small moves, one after another. What a transfer
keeps from one operation to the next is shown for each kind of move, once.

* `Move t u` : one move; `Talk t u` : any number of them, none of which ends the transfer or takes in bytes
  or a verdict;
* `Over t u` : the transfer is over, and no other wrong hash was counted;
* `detach` : a peer is gone, and others were not asked yet; `removePeer_eq` : then they are;
* `talk_addPeer`, `talk_removePeer`, `talk_receiveSignature`, ... : the operations that are nothing but talk;
* `credited`, `installed`, `afresh` : the books once bytes came, once the local copy was looked at, and once
  the whole file is needed again; `creditChunk_cases`, `finishDelta_cases`, `finishVerify_wrong` : what follows.
-/

namespace FileSwarm.Transfer

/-- A peer has left. What it owes is needed again, and nobody was asked for it yet. -/
def detach (t : Transfer) (s : Share) : Transfer :=
  { t with
    shares := t.shares.eraseP (·.id == s.id)
    metrics := t.metrics.lose
    parts := t.parts.map fun m => s.pending.foldl revert m
    owing := if t.owing = some s.id then none else t.owing }

/-- One thing that can happen between a transfer that is not over and its peers. -/
inductive Move : Transfer → Transfer → Prop
  /-- Something is said; nothing that is said is owed. -/
  | say {t : Transfer} (links : Array Link) (sent : Array (Nat × Call)) (owing : Option String)
    (metrics : Metrics) : Move t { t with links, sent, owing, metrics }
  | assign {t u : Transfer} {m : PartMap} {r : ByteRange} {i : Nat} {s : Share} (h : Assigns t m r i s u) :
    Move t u
  | join {t : Transfer} {s : Share} (owes : s.pending = []) : Move t { t with shares := t.shares ++ [s] }
  | start {t : Transfer} (id : String) : Move t (t.updateShare id Share.start)
  | leave {t : Transfer} {id : String} {s : Share} (h : t.share? id = some s) : Move t (t.detach s)
  /-- Another phase, before there is a file to be assembled. -/
  | enter {t : Transfer} {p : Phase} (isOpen : t.phase.isFinal = false) (early : t.phase = .initial ∨ t.parts = none)
    (goes : p.isFinal = false) (unverified : p ≠ .verifying) : Move t (t.setPhase p)
  | fetchAll {t : Transfer} (isOpen : t.phase.isFinal = false) (unmapped : t.parts = none) : Move t t.fetchAll
  | learn {t : Transfer} {s : Signature} (unsigned : t.signature = none) :
    Move t { t with signature := some s, owing := none }
  /-- The local copy is to be looked at. -/
  | search {t : Transfer} {s : Signature} {candidate : String} {temp : Handle} (unmapped : t.parts = none) :
    Move t (t.queueJob (.matchAndCopy t.epoch s candidate temp))

/-- Any number of moves. -/
def Talk : Transfer → Transfer → Prop := Relation.ReflTransGen Move

namespace Talk

variable {t u v : Transfer}

theorem refl (t : Transfer) : Talk t t := Relation.ReflTransGen.refl

theorem trans (h : Talk t u) (k : Talk u v) : Talk t v := Relation.ReflTransGen.trans h k

theorem move (h : Talk t u) (k : Move u v) : Talk t v := Relation.ReflTransGen.tail h k

theorem keeps {P : Transfer → Prop} (h : Talk t u) (ht : P t) (hmove : ∀ {v w}, Move v w → P v → P w) : P u := by
  induction h with
  | refl => exact ht
  | tail _ hm ih => exact hmove hm ih

end Talk

theorem Move.single {t u : Transfer} (h : Move t u) : Talk t u := Relation.ReflTransGen.single h

theorem Move.frame {t u : Transfer} (h : Move t u) :
    u.tuning = t.tuning ∧ u.aborted = t.aborted ∧ u.mismatches = t.mismatches ∧ u.disk = t.disk := by
  cases h with
  | assign ha =>
    obtain ⟨-, -, -, -, links, sent, rfl⟩ := ha
    exact ⟨rfl, rfl, rfl, rfl⟩
  | enter => simp
  | fetchAll => simp
  | _ => exact ⟨rfl, rfl, rfl, rfl⟩

theorem Talk.frame {t u : Transfer} (h : Talk t u) :
    u.tuning = t.tuning ∧ u.aborted = t.aborted ∧ u.mismatches = t.mismatches ∧ u.disk = t.disk :=
  h.keeps (P := fun u => u.tuning = t.tuning ∧ u.aborted = t.aborted ∧ u.mismatches = t.mismatches ∧ u.disk = t.disk)
    ⟨rfl, rfl, rfl, rfl⟩ fun hm ⟨h₁, h₂, h₃, h₄⟩ =>
      ⟨hm.frame.1.trans h₁, hm.frame.2.1.trans h₂, hm.frame.2.2.1.trans h₃, hm.frame.2.2.2.trans h₄⟩

/-- The transfer is over, and no other wrong hash was counted. -/
structure Over (t u : Transfer) : Prop where
  final : u.phase.isFinal
  mismatches : u.mismatches = t.mismatches ∨ u.mismatches = 0

theorem over_complete (t : Transfer) : Over t t.complete := by
  unfold complete
  split
  · next h => exact ⟨h, .inl rfl⟩
  · exact ⟨by simp [notify, Phase.isFinal], .inl (by simp [notify])⟩

theorem over_breakDown (t : Transfer) (why : Breakage) : Over t (t.breakDown why) := by
  unfold breakDown
  split
  · next h => exact ⟨h, .inl rfl⟩
  · dsimp only
    rw [tellAll_eq]
    exact ⟨by simp [notify, Phase.isFinal], .inl (by simp [notify])⟩

theorem over_abort {t : Transfer} (h : t.aborted = false) : Over t t.abort := by
  unfold abort
  rw [if_neg (by simp [h])]
  dsimp only
  rw [tellAll_eq]
  dsimp only
  split
  · next hf => exact ⟨by simpa using hf, .inl (by simp)⟩
  · exact ⟨by simp [Phase.isFinal], .inl (by simp)⟩

/-! ## Requests and signatures -/

theorem Assigns.needed {t u : Transfer} {m : PartMap} {r : ByteRange} {i : Nat} {s : Share} (h : Assigns t m r i s u) :
    0 < r.length ∧ ∀ o ∈ r, m.state? o = some .needed := by
  obtain ⟨-, ⟨whole, hfirst, rfl⟩, -, hask, -⟩ := h
  obtain ⟨-, hneeded⟩ := PartMap.mem_parts (PartMap.first?_eq_some hfirst)
  refine ⟨(Share.mayAsk_iff.1 hask).1, fun o ho => hneeded o ⟨ho.1, ?_⟩⟩
  exact Nat.lt_of_lt_of_le ho.2 (Nat.add_le_add_left (Nat.min_le_left _ _) _)

theorem talk_sendRequests (t : Transfer) : Talk t t.sendRequests :=
  sendRequests_induction (P := Talk t) (fun u links sent h => h.move (.say links sent u.owing u.metrics))
    (fun h k => k.move (.assign h)) (.refl t)

theorem talk_askSignature {t : Transfer} (hw : t.Wanting) : Talk t t.askSignature := by
  obtain ⟨-, hparts, -, hopen⟩ := hw
  rcases askSignature_cases t with ⟨s, -, -, -, -, e⟩ | e | ⟨-, e⟩
  · rw [e]
    refine (Move.say _ _ _ _).single.move (.enter hopen (.inr hparts) rfl nofun)
  · rw [e]
    exact .refl t
  · rw [e]
    exact (Move.fetchAll hopen hparts).single

theorem talk_ensureSignature (t : Transfer) : Talk t t.ensureSignature := by
  rcases ensureSignature_cases t with e | ⟨hw, owing, e⟩
  · rw [e]
    exact .refl t
  · rw [e]
    exact (Move.say t.links t.sent owing t.metrics).single.trans (talk_askSignature (t := { t with owing }) hw)

theorem talk_receiveSignature (t : Transfer) (s : Signature) :
    Talk t (t.receiveSignature s) ∨ Over t (t.receiveSignature s) := by
  unfold receiveSignature
  split
  · exact .inl (.refl t)
  · next h =>
    simp only [Bool.or_eq_true, not_or, Bool.not_eq_true, Option.isSome_eq_false_iff,
      Option.isNone_iff_eq_none] at h
    obtain ⟨hopen, hsig⟩ := h
    have hlearn : Talk t { t with signature := some s, owing := none } := (Move.learn hsig).single
    split
    · exact .inr (over_breakDown t _)
    · split
      · exact .inr (over_breakDown t _)
      · dsimp only
        split
        · exact .inl hlearn
        · next hp =>
          have hnone : t.parts = none := by simpa using hp
          split
          · exact .inl ((hlearn.move (.fetchAll hopen hnone)).trans (talk_sendRequests _))
          · exact .inl hlearn
          · next candidate temp _ _ =>
            have hmatching : Talk t (({ t with signature := some s, owing := none } : Transfer).setPhase .matching) :=
              hlearn.move (.enter (p := .matching) hopen (.inr hnone) rfl nofun)
            have hsearch := @Move.search (({ t with signature := some s, owing := none } : Transfer).setPhase .matching)
              s candidate temp (by simpa using hnone)
            simp only [setPhase_frame] at hsearch
            exact .inl (hmatching.move hsearch)

/-! ## Peers come and go -/

theorem talk_connect (t : Transfer) (l : Link) : Talk t (t.connect l).1 :=
  (Move.say _ t.sent t.owing t.metrics).single

theorem talk_addPeer (t : Transfer) {s : Share} (hs : s.pending = []) :
    Talk t (t.addPeer s).1 ∨ Over t (t.addPeer s).1 := by
  unfold addPeer
  split
  · exact .inl (.refl t)
  · next hopen =>
    rw [Bool.not_eq_true] at hopen
    split
    · exact .inl (.refl t)
    · split
      · exact .inl (.refl t)
      · dsimp only
        have hjoin : ∀ c : Call, Talk t { t.tell s.link c with
            shares := t.shares ++ [s.withBudget t.tuning.maxRequests] } := fun c =>
          (Move.say t.links _ t.owing t.metrics).single.move (.join (s := s.withBudget t.tuning.maxRequests) hs)
        split
        · obtain ⟨hfinal, hcount⟩ := over_complete { t.tell s.link (.file _) with
            shares := t.shares ++ [s.withBudget t.tuning.maxRequests] }
          exact .inr ⟨hfinal, hcount⟩
        · refine .inl (Talk.trans ?_ ((talk_ensureSignature _).trans (talk_sendRequests _)))
          split
          · next hearly =>
            rw [Bool.and_eq_true, decide_eq_true_eq] at hearly
            exact (hjoin _).move (.enter hopen (.inl hearly.1) rfl nofun)
          · exact hjoin _

theorem talk_peerReady (t : Transfer) (id : String) : Talk t (t.peerReady id).1 := by
  unfold peerReady
  split
  · exact .refl t
  · split
    · exact .refl t
    · exact (Move.start id).single.trans ((talk_ensureSignature _).trans (talk_sendRequests _))

theorem id_of_share? {t : Transfer} {id : String} {s : Share} (h : t.share? id = some s) : s.id = id := by
  simpa using List.find?_some h

theorem removePeer_eq {t : Transfer} {id : String} {s : Share} (h : t.share? id = some s)
    (hopen : t.phase.isFinal = false) :
    t.removePeer id = ((t.detach s).ensureSignature.sendRequests, none) := by
  rw [removePeer, h]
  dsimp only
  rw [if_neg (by simp [hopen]), detach, id_of_share? h]

theorem talk_removePeer {t : Transfer} (hopen : t.phase.isFinal = false) (id : String) :
    Talk t (t.removePeer id).1 := by
  cases h : t.share? id with
  | none =>
    rw [removePeer, h]
    exact .refl t
  | some s =>
    rw [removePeer_eq h hopen]
    exact (Move.leave h).single.trans ((talk_ensureSignature _).trans (talk_sendRequests _))

/-! ## Bytes and verdicts -/

/-- The books once the bytes of `r` came from a peer, `m` being the map before. -/
def credited (t : Transfer) (id : String) (r : ByteRange) (m : PartMap) : Transfer :=
  { t.updateShare id (·.receive r) with
    tally := t.tally.add r.length
    metrics := t.metrics.chunk r.length
    parts := some (m.set r .available) }

/-- Bytes came: the file is assembled, or more is asked for. -/
theorem creditChunk_cases (t : Transfer) (id : String) (r : ByteRange) (m : PartMap) :
    (m.set r .available).isComplete ∧ t.creditChunk id r m = (t.credited id r m).checkComplete ∨
      Talk (t.credited id r m) (t.creditChunk id r m) := by
  unfold creditChunk
  dsimp only
  split
  · next h => exact .inl ⟨h, rfl⟩
  · exact .inr (talk_sendRequests _)

/-- An assembled file is there, or if there is a signature it is hashed. -/
theorem checkComplete_eq (t : Transfer) :
    t.signature = none ∧ Over t t.checkComplete ∨
      ∃ s, t.signature = some s ∧ t.checkComplete = (t.setPhase .verifying).queueJob (.verify t.epoch s.digest) := by
  cases hs : t.signature with
  | none =>
    obtain ⟨hfinal, hcount⟩ := over_complete (t.setPhase .verifying)
    rw [checkComplete_unsigned hs]
    exact .inl ⟨rfl, hfinal, by simpa using hcount⟩
  | some s => exact .inr ⟨s, rfl, checkComplete_signed hs⟩

/-- The books once a hash was wrong: nobody owes anything, and the whole file is needed again. -/
def afresh (t : Transfer) : Transfer :=
  { t with
    mismatches := t.mismatches + 1
    metrics := t.metrics.mismatch
    shares := t.shares.map Share.takePending
    parts := some (PartMap.blank t.target.size)
    tally := t.tally.reset }

/-- A wrong hash: it was one too many, or everything is asked for again. -/
theorem finishVerify_wrong {t : Transfer} (hopen : t.phase.isFinal = false) :
    t.tuning.maxMismatches ≤ t.mismatches + 1 ∧ (t.finishVerify (.ok false)).phase = .broken ∧
        (t.finishVerify (.ok false)).mismatches = t.mismatches + 1 ∨
      ¬ t.tuning.maxMismatches ≤ t.mismatches + 1 ∧
        t.finishVerify (.ok false) = (t.afresh.setPhase .downloading).sendRequests := by
  unfold finishVerify
  dsimp only
  split
  · next h =>
    refine .inl ⟨h, (breakDown_ends (t := { t with
      mismatches := t.mismatches + 1, metrics := t.metrics.mismatch }) hopen _).2, ?_⟩
    unfold breakDown
    rw [if_neg (by simp [hopen])]
    dsimp only
    rw [tellAll_eq]
    simp [notify]
  · next h => exact .inr ⟨h, rfl⟩

theorem over_finishVerify (t : Transfer) {r : Except Failure Bool} (hr : r ≠ .ok false) :
    Over t (t.finishVerify r) := by
  match r with
  | .error f => exact over_breakDown t _
  | .ok true =>
    obtain ⟨hfinal, hcount⟩ := over_complete { t with mismatches := 0 }
    exact ⟨hfinal, .inr (hcount.elim id id)⟩
  | .ok false => exact absurd rfl hr

/-- The books once the local copy was looked at. -/
def installed (t : Transfer) (m : PartMap) : Transfer :=
  { t with
    metrics := t.metrics.reuse (m.count m.range .available)
    tally := Tally.start (m.count m.range .available) t.target.size
    parts := some m }

theorem finishDelta_cases (t : Transfer) (m : PartMap) :
    m.isComplete ∧ t.finishDelta (.ok m) = (t.installed m).checkComplete ∨
      t.finishDelta (.ok m) = ((t.installed m).setPhase .downloading).sendRequests := by
  unfold finishDelta
  dsimp only
  split
  · next h => exact .inl ⟨h, rfl⟩
  · exact .inr rfl

end FileSwarm.Transfer
