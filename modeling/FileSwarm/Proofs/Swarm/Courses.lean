import FileSwarm.Proofs.Swarm.Swarming
import FileSwarm.Proofs.Transfer.Spending

/-!
# Swarms as courses

To the transfer of a swarm each turn is an event, or nothing at all. Nothing goes wrong in a swarm of servers that can
do everything, so the books of its transfer are in order to the end.

* `Swarm.course`, `Swarm.event?` : the course of a swarm, and what a turn is to it (`course_turn`);
* `Usual` : servers with the block length that fits the file;
* `Sound.smooth` : every turn is an event with which nothing goes wrong;
* `Thrifty` : what was asked for and what was reused; `Thrifty.play` : in every run.
-/

namespace FileSwarm

/-- What an answer of the peer `id` is to a transfer. -/
def Reply.event? (id : String) : Reply → Option Event
  | ready _ => some (.ready id)
  | chunk offset bytes => some (.chunk id offset bytes)
  | signature s => some (.signature s)
  | leave => some (.leave id)
  | stop => none

/-- The signature that a server has of the file, with the block length that fits it. -/
def Scene.signature (w : Scene) : Signature :=
  .describe (Signature.clampLength (Signature.defaultBlockLength w.original.size)) w.original

theorem Scene.fileLength_signature (w : Scene) : w.signature.fileLength.toNat = w.original.size :=
  Signature.fileLength_describe (Nat.le_trans w.size_le (by decide))

namespace Swarm

/-- The transfer and its jobs. -/
def course (s : Swarm) : Course := ⟨s.transfer, s.tasks⟩

/-- What a turn is to the transfer. -/
def event? (s : Swarm) : Turn → Option Event
  | .move (.join v) => some (.join v.share fun _ => true)
  | .move (.serve i) =>
    s.servers[i]?.bind fun v => (v.answer? s.transfer.disk s.source).bind fun (v, reply) => reply.event? v.id
  | .move (.work i) => some (.work i)
  | .abort => if s.transfer.phase.isFinal then some .abort else none
  | .dismiss _ => none

section Course

variable {s : Swarm} {i : Nat} {v v' : Server} {reply : Reply}

theorem course_settle (s : Swarm) : s.settle.course = Course.settle s.transfer s.tasks := by
  rw [settle_eq]
  rfl

theorem event?_serve (hv : s.servers[i]? = some v) (h : v.answer? s.transfer.disk s.source = some (v', reply)) :
    s.event? (.move (.serve i)) = reply.event? v'.id := by
  rw [event?, hv, Option.bind_some, h, Option.bind_some]

theorem course_serve (hempty : s.transfer.outbox = .empty) (hv : s.servers[i]? = some v)
    (h : v.answer? s.transfer.disk s.source = some (v', reply)) :
    (s.serve i).course = (reply.event? v'.id).elim s.course s.course.step := by
  have hsame : Course.settle s.transfer s.tasks = s.course := Course.settle_self (c := s.course) hempty
  rw [serve_eq hv h, answered, course_settle]
  cases reply with
  | ready stream =>
    show Course.settle (receive s.transfer v' (.ready stream)).1 s.tasks =
      Course.settle (s.transfer.peerReady v'.id).1 s.tasks
    unfold receive
    rcases s.transfer.peerReady v'.id with ⟨u, _ | _⟩ <;> rfl
  | chunk offset bytes =>
    show Course.settle (receive s.transfer v' (.chunk offset bytes)).1 s.tasks =
      s.course.step (.chunk v'.id offset bytes)
    unfold receive
    dsimp only
    cases hc : s.transfer.receiveChunk v'.id offset bytes with
    | ok u => exact (Course.step_chunk_ok (c := s.course) hc).symm
    | error f => rw [Course.step_chunk_error (c := s.course) hc]; exact hsame
  | signature x => rfl
  | leave => rfl
  | stop => exact hsame

/-- A turn is an event in the course of the transfer, or nothing. -/
theorem course_turn (hempty : s.transfer.outbox = .empty) (a : Turn) :
    (s.turn a).course = (s.event? a).elim s.course s.course.step := by
  cases a with
  | move m =>
    cases m with
    | join v =>
      show (s.join v).1.course = _
      rw [join_eq, course_settle]
      rfl
    | serve i =>
      show (s.serve i).course = _
      cases hv : s.servers[i]? with
      | none =>
        have hnone : s.event? (.move (.serve i)) = none := by
          rw [event?, hv]
          rfl
        rw [serve_silent fun v hv' => (nomatch hv.symm.trans hv'), hnone]
        rfl
      | some v =>
        cases h : v.answer? s.transfer.disk s.source with
        | none =>
          have hnone : s.event? (.move (.serve i)) = none := by rw [event?, hv, Option.bind_some, h, Option.bind_none]
          rw [serve_none fun u hu => Option.some.inj (hv.symm.trans hu) ▸ h, hnone]
          rfl
        | some r => rw [event?_serve hv h, course_serve hempty hv h]
    | work i =>
      show (s.work i).course = s.course.step (.work i)
      cases h : s.tasks[i]? with
      | none => rw [work_none h, Course.step_work_none (c := s.course) h]
      | some task =>
        rw [work_eq h, course_settle, Course.step_work (c := s.course) h]
        rfl
  | abort =>
    show (if s.transfer.phase.isFinal then { s with transfer := s.transfer.abort }.settle else s).course =
      (if s.transfer.phase.isFinal then some Event.abort else none).elim s.course s.course.step
    split
    · exact course_settle _
    · rfl
  | dismiss i =>
    show (if s.transfer.phase.isFinal then
      { s with servers := s.servers.modify i (·.hear s.now .abort) } else s).course = s.course
    split <;> rfl

end Course

/-! ## Block lengths of servers -/

/-- Servers give signatures with the block length that fits the file. -/
def Usual (s : Swarm) : Prop := ∀ v ∈ s.servers, v.blockLength = none

section Usual

variable {s : Swarm}

theorem Usual.settle (h : Usual s) : Usual s.settle := by
  rw [settle_eq]
  intro v hv
  obtain ⟨u, hu, rfl⟩ := List.mem_map.1 hv
  have hkept : (u.hearAll s.now (s.transfer.sent.toList.drop s.delivered)).blockLength = u.blockLength := by
    unfold Server.hearAll
    split <;> rfl
  rw [hkept]
  exact h u hu

theorem answer?_blockLength {v v' : Server} {d : Disk} {path : String} {reply : Reply}
    (h : v.answer? d path = some (v', reply)) : v'.blockLength = v.blockLength := by
  unfold Server.answer? at h
  split at h
  · split at h
    · exact nomatch h
    · obtain ⟨rfl, -⟩ := Prod.mk.inj (Option.some.inj h)
      rfl
  · obtain ⟨rfl, -⟩ := Prod.mk.inj (Option.some.inj h)
    rfl

theorem receive_blockLength (t : Transfer) (v : Server) (reply : Reply) :
    (receive t v reply).2.blockLength = v.blockLength := by
  unfold receive
  split
  · split <;> rfl
  · split <;> rfl
  · rfl
  · rfl
  · rfl

theorem Usual.turn (h : Usual s) {a : Turn} (hjoin : ∀ v, a = .move (.join v) → v.blockLength = none) :
    Usual (s.turn a) := by
  cases a with
  | move m =>
    cases m with
    | join v =>
      show Usual (s.join v).1
      rw [join_eq]
      refine Usual.settle fun u hu => ?_
      rcases List.mem_append.1 hu with hu | hu
      · exact h u hu
      · rw [List.mem_singleton.1 hu]
        exact hjoin v rfl
    | serve i =>
      show Usual (s.serve i)
      unfold serve
      split
      · exact h
      · next v hv =>
        dsimp only
        split
        · exact h
        · next v' reply hanswer =>
          refine Usual.settle fun u hu => ?_
          rcases List.mem_or_eq_of_mem_set hu with hu | rfl
          · exact h u hu
          · show (receive s.transfer v' reply).2.blockLength = none
            rw [receive_blockLength, answer?_blockLength hanswer]
            exact h v (List.mem_of_getElem? hv)
    | work i =>
      show Usual (s.work i)
      unfold work
      split
      · exact h
      · exact Usual.settle h
  | abort =>
    show Usual (if s.transfer.phase.isFinal then _ else s)
    split
    · exact Usual.settle h
    · exact h
  | dismiss i =>
    show Usual (if s.transfer.phase.isFinal then _ else s)
    split
    · intro v hv
      obtain ⟨k, hk⟩ := List.mem_iff_getElem?.1 hv
      rw [List.getElem?_modify] at hk
      obtain ⟨u, hu, rfl⟩ := Option.map_eq_some_iff.1 hk
      have hold := h u (List.mem_of_getElem? hu)
      split
      · exact hold
      · exact hold
    · exact h

end Usual

end Swarm

/-! ## Turns with which nothing goes wrong -/

namespace Transfer

variable {w : Scene} {names : List String} {inbox : Nat → List Call} {d i : Nat} {t : Transfer} {l : List Task}

theorem Going.length_eq (h : Going w names inbox d t l) {m : PartMap} (hm : t.parts = some m) :
    m.length = t.target.size := by
  have hfetching : ∀ {m'}, t.Fetching w.original w.node m' → m.length = t.target.size := fun hf => by
    rw [Option.some.inj (hm.symm.trans hf.parts), hf.length_eq, h.grounded.target, w.size_eq]
  cases h.stage with
  | waiting hu => exact nomatch hu.parts.symm.trans hm
  | asking hu => exact nomatch hu.parts.symm.trans hm
  | looking hl => exact nomatch hl.unmapped.parts.symm.trans hm
  | fetching hf => exact hfetching hf
  | verifying hf => exact hfetching hf

theorem Going.pending (h : Going w names inbox t.sent.size t l) {q : Share} (hq : t.shares[i]? = some q) {r : ByteRange}
    {accepted : Bool} {rest : List Call} (hinbox : inbox q.link = .range r accepted :: rest) :
    r.stop ≤ w.original.size ∧ ∀ m, t.parts = some m → ∀ o ∈ r, m.state? o = some .pending := by
  have hqueue := h.peers.awaits hq
  rw [hinbox] at hqueue
  obtain ⟨-, -, k, hpending, -⟩ := hqueue.range
  obtain ⟨-, m, hf, -⟩ := h.fetching hq hpending
  obtain ⟨-, hstop, hstate, -⟩ := hf.owes hq hpending
  refine ⟨hstop, fun n hn => ?_⟩
  rw [Option.some.inj (hn.symm.trans hf.parts)]
  exact hstate

theorem Going.meets (h : Going w names inbox d t l) {b : ByteArray}
    (hlocal : ∀ c k x, w.target.candidate = some c → w.disk.HasFile c k x → x = b) :
    ∀ task ∈ l, task.Meets b t := by
  intro task ht
  cases h.stage with
  | waiting => exact nomatch ht
  | asking => exact nomatch ht
  | fetching => exact nomatch ht
  | looking hl hlook =>
    obtain rfl := List.mem_singleton.1 ht
    cases hlook with
    | search =>
      obtain rfl := hlocal _ _ _ hl.candidate hl.file
      exact ⟨_, hl.present h.grounded⟩
    | searched => exact trivial
    | copy => exact trivial
    | copied => exact hl.unmapped.parts
  | @verifying m _ hf hall _ hhash =>
    obtain rfl := List.mem_singleton.1 ht
    rcases hhash with rfl | rfl
    · have hcontent : t.disk.content w.node = w.original := Fetching.content_eq ⟨m, hf⟩ h.grounded hall
      have hleads : t.disk.LeadsTo t.target.temp w.node := by
        rw [h.grounded.target]
        exact w.leads.alike h.grounded.written.alike
      refine ⟨w.node, hleads, ?_, ?_⟩
      · rw [hcontent]
        exact Nat.le_trans w.size_le (by decide)
      · rw [hcontent]
    · exact ⟨m, hf.parts, hf.isComplete_iff.2 hall⟩

end Transfer

namespace Swarm

variable {w : Scene} {s : Swarm} {b : ByteArray} {k : Nat}

theorem Sound.smooth_serve (h : Sound w s) (hopen : s.transfer.phase.isFinal = false) (hsource : Sourced w s)
    (husual : Usual s) {i : Nat} {v v' : Server} {reply : Reply} {e : Event} (hv : s.servers[i]? = some v)
    (hanswer : v.answer? s.transfer.disk s.source = some (v', reply)) (he : reply.event? v'.id = some e) :
    s.course.Smooth w.signature b e := by
  cases h with
  | done hdone => exact absurd hdone.finished.phase (Course.not_completed hopen).1
  | unjoined hun =>
    rw [hun.servers] at hv
    simp at hv
  | going hgoing hrested hstaffed hdelivered hjobs =>
    obtain ⟨hlink, ⟨hwork, hcaps, hstream⟩, -⟩ := hstaffed i v hv
    cases hinbox : v.inbox with
    | nil =>
      rw [Server.answer?, if_pos hstream, hinbox] at hanswer
      cases hanswer
    | cons first rest =>
      obtain ⟨time, c⟩ := first
      rw [hdelivered] at hgoing
      obtain ⟨j, q, hq, rfl, -, hqueue⟩ := exists_share hgoing.peers hv hinbox
      obtain ⟨n, hn, hfile⟩ := hsource
      have hfile : s.transfer.disk.HasFile s.source n w.original := hfile.alike hgoing.grounded.written.alike hn
      obtain ⟨-, hreply⟩ := Prod.mk.inj (Option.some.inj
        ((Server.answer?_call hstream hinbox s.transfer.disk s.source).symm.trans hanswer))
      cases c with
      | file offset =>
        rw [← hreply, Server.reply, Server.beginning_parts (by rw [hcaps]; rfl) hfile] at he
        rw [← Option.some.inj he]
        trivial
      | range r accepted =>
        obtain ⟨hstop, hpending⟩ := hgoing.pending hq hqueue
        rw [← hreply, Server.reply, Server.chunk_eq hfile w.size_le hstop] at he
        rw [← Option.some.inj he]
        intro m hm o ho
        rw [ByteRange.size_extract hstop] at ho
        rw [hpending m hm o ho]
        decide
      | signature =>
        rw [← hreply, Server.reply, v.sign_eq hfile w.size_le, husual v (List.mem_of_getElem? hv), Option.getD_none,
          ← Scene.signature] at he
        rw [← Option.some.inj he]
        exact Eq.refl w.signature
      | abort => exact absurd hqueue (hgoing.peers.not_abort hq)

/-- A turn is an event with which nothing goes wrong. -/
theorem Sound.smooth (h : Sound w s) (hopen : s.transfer.phase.isFinal = false) (hsource : Sourced w s)
    (husual : Usual s) (hlocal : ∀ c k x, w.target.candidate = some c → w.disk.HasFile c k x → x = b) {a : Turn}
    (hjoin : ∀ v, a = .move (.join v) → v.caps = .full) {e : Event} (he : s.event? a = some e) :
    s.course.Smooth w.signature b e := by
  cases a with
  | move m =>
    cases m with
    | join v =>
      rw [← Option.some.inj he]
      refine ⟨rfl, ?_⟩
      show v.caps.supportsDelta = true
      rw [hjoin v rfl]
      rfl
    | serve i =>
      obtain ⟨v, hv, hrest⟩ := Option.bind_eq_some_iff.1 he
      obtain ⟨⟨v', reply⟩, hanswer, hevent⟩ := Option.bind_eq_some_iff.1 hrest
      exact h.smooth_serve hopen hsource husual hv hanswer hevent
    | work i =>
      rw [← Option.some.inj he]
      intro task htask
      have hmem : task ∈ s.tasks := List.mem_of_getElem? htask
      cases h with
      | unjoined hun =>
        rw [hun.tasks] at hmem
        exact nomatch hmem
      | going hgoing => exact hgoing.meets hlocal task hmem
      | done hdone => exact absurd hdone.finished.phase (Course.not_completed hopen).1
  | abort =>
    rw [event?, if_neg (by simp [hopen])] at he
    exact nomatch he
  | dismiss i => exact nomatch he

theorem Sound.able (h : Sound w s) (hopen : s.transfer.phase.isFinal = false) :
    ∀ q ∈ s.transfer.shares, q.broken = false ∧ q.caps.supportsDelta := by
  intro q hq
  cases h with
  | unjoined hun =>
    rw [hun.vacant.shares] at hq
    exact nomatch hq
  | going hgoing =>
    obtain ⟨hcaps, hbroken, -⟩ := hgoing.peers.able q hq
    exact ⟨hbroken, by rw [hcaps]; rfl⟩
  | done hdone => exact absurd hdone.finished.phase (Course.not_completed hopen).1

theorem Sound.length_eq (h : Sound w s) (hopen : s.transfer.phase.isFinal = false) {m : PartMap}
    (hm : s.transfer.parts = some m) : m.length = s.transfer.target.size := by
  cases h with
  | unjoined hun =>
    rw [hun.vacant.parts] at hm
    split at hm
    · exact nomatch hm
    · rw [← Option.some.inj hm, hun.vacant.grounded.target, w.size_eq]
      exact PartMap.length_blank _
  | going hgoing => exact hgoing.length_eq hm
  | done hdone => exact absurd hdone.finished.phase (Course.not_completed hopen).1

/-! ## The books of a run -/

/-- Between two turns: the books of the transfer are in order as long as it goes on, and when it is complete they are
settled, with `k` bytes of the local copy `b` reused. -/
structure Thrifty (w : Scene) (b : ByteArray) (k : Nat) (s : Swarm) : Prop where
  sound : Sound w s
  sourced : Sourced w s
  usual : Usual s
  orderly : s.course.Orderly
  spends : s.transfer.phase.isFinal = false → s.course.Spends w.signature b k
  settled : s.transfer.phase = .completed → s.transfer.Settled k w.original.size

section Thrifty

variable (hlocal : ∀ c k x, w.target.candidate = some c → w.disk.HasFile c k x → x = b) (hb : b.size ≤ Disk.sizeLimit)
include hlocal hb

theorem Thrifty.step (h : Thrifty w b k s) {a : Turn} (hjoin : ∀ v, a = .move (.join v) → v.caps = .full) {e : Event}
    (he : s.event? a = some e) :
    ((s.course.step e).transfer.phase.isFinal = false → (s.course.step e).Spends w.signature b k) ∧
      ((s.course.step e).transfer.phase = .completed → (s.course.step e).transfer.Settled k w.original.size) := by
  have horderly := h.orderly
  cases hf : s.transfer.phase.isFinal with
  | true =>
    -- what is over stays as it is
    have hrests : s.transfer.Rests (s.course.step e).transfer := horderly.rests_step hf e
    refine ⟨fun ho => ?_, fun hc => ?_⟩
    · rw [hrests.phase, hf] at ho
      exact nomatch ho
    · exact (h.settled (hrests.phase.symm.trans hc)).rests hrests
  | false =>
    have hsmooth := h.sound.smooth hf h.sourced h.usual hlocal hjoin he
    have hspends := h.spends hf
    have hlength : ∀ m, s.course.transfer.parts = some m → m.length = s.course.transfer.target.size :=
      fun m hm => h.sound.length_eq hf hm
    have hpos : 0 < w.signature.blockLength.toNat := by
      rw [Scene.signature, Signature.blockLength_describe (Signature.clampLength_le _)]
      exact Signature.clampLength_pos _
    have hout := Course.outcome_operate (c := s.course) hf (horderly.released.trans hf) (horderly.aborted hf) e
    rw [Course.step_eq horderly.emptied]
    refine ⟨fun ho => ?_, fun hc => ?_⟩
    · exact hout.spends hf horderly.idle hspends hsmooth hlength (h.sound.able hf) hpos hb ho
    · have hphase : (s.course.operate e).1.phase = .completed := hc
      obtain ⟨hcloses, hfinish⟩ := hout.finish hf (by rw [hphase]; rfl)
      have hsettled := hfinish.settled hcloses hf hspends hsmooth hlength hphase
      rw [← hspends.size, w.fileLength_signature] at hsettled
      exact ⟨hsettled.reused, hsettled.requested⟩

theorem Thrifty.turn (h : Thrifty w b k s)
    (hsafe : w.Safe (Signature.clampLength (Signature.defaultBlockLength w.original.size))) {a : Turn}
    (hjoin : ∀ v, a = .move (.join v) → Fresh v ∧ v.caps = .full ∧ v.blockLength = none) :
    Thrifty w b k (s.turn a) := by
  have hfit : ∀ v, a = .move (.join v) → Fresh v ∧ v.caps = .full ∧ Fit w v := fun v hv => by
    obtain ⟨hfresh, hcaps, hlength⟩ := hjoin v hv
    refine ⟨hfresh, hcaps, ?_⟩
    rw [Fit, hlength, Option.getD_none]
    exact hsafe
  have hsourced : Sourced w (s.turn a) := by
    rw [Sourced, turn_source]
    exact h.sourced
  have hsound := h.sound.turn h.sourced a hfit
  have husual := h.usual.turn fun v hv => (hjoin v hv).2.2
  have hcourse := course_turn h.orderly.emptied a
  cases he : s.event? a with
  | none =>
    rw [he, Option.elim_none] at hcourse
    have htransfer : (s.turn a).transfer = s.transfer := congrArg Course.transfer hcourse
    refine ⟨hsound, hsourced, husual, ?_, fun ho => ?_, fun hc => ?_⟩
    · rw [hcourse]
      exact h.orderly
    · rw [hcourse]
      exact h.spends (htransfer ▸ ho)
    · rw [htransfer]
      exact h.settled (htransfer ▸ hc)
  | some e =>
    rw [he, Option.elim_some] at hcourse
    have htransfer : (s.turn a).transfer = (s.course.step e).transfer := congrArg Course.transfer hcourse
    obtain ⟨hspends, hsettled⟩ := h.step hlocal hb (fun v hv => (hjoin v hv).2.1) he
    refine ⟨hsound, hsourced, husual, ?_, fun ho => ?_, fun hc => ?_⟩
    · rw [hcourse]
      exact h.orderly.step e
    · rw [hcourse]
      exact hspends (htransfer ▸ ho)
    · rw [htransfer]
      exact hsettled (htransfer ▸ hc)

theorem Thrifty.play (h : Thrifty w b k s)
    (hsafe : w.Safe (Signature.clampLength (Signature.defaultBlockLength w.original.size))) (turns : List Turn)
    (hjoin : ∀ v ∈ joiners turns, Fresh v ∧ v.caps = .full ∧ v.blockLength = none) : Thrifty w b k (s.play turns) := by
  induction turns generalizing s with
  | nil => exact h
  | cons a turns ih =>
    rw [play_cons]
    exact ih (h.turn hlocal hb hsafe fun v hv => hjoin v (mem_joiners_cons.2 (.inl hv)))
      fun v hv => hjoin v (mem_joiners_cons.2 (.inr hv))

end Thrifty

/-- The books of a new transfer, with what is to be reused of the local copy, if it is looked at. -/
theorem thrifty_start {target : Target} {tuning : Tuning} {disk made : Disk} {t : Transfer} {source : String}
    (hcreate : Transfer.create target tuning .swarming disk = (.ok t, made))
    (hunjoined : Unjoined w (ofTransfer t source)) (hsourced : Sourced w (ofTransfer t source))
    (hk : k = if t.delta then w.signature.reusable b else 0) : Thrifty w b k (ofTransfer t source) := by
  have huntouched := Transfer.create_untouched hcreate
  have hcourse : (ofTransfer t source).course = Course.start t := course_settle _
  have htransfer : (ofTransfer t source).transfer = (Course.start t).transfer := congrArg Course.transfer hcourse
  have htarget : t.target = w.target := by
    rw [← hunjoined.vacant.grounded.target, htransfer]
    rfl
  have hsize : w.signature.fileLength.toNat = t.target.size := by rw [w.fileLength_signature, htarget, w.size_eq]
  refine ⟨.unjoined hunjoined, hsourced, fun v hv => ?_, ?_, fun _ => ?_, fun hc => ?_⟩
  · rw [hunjoined.servers] at hv
    exact nomatch hv
  · rw [hcourse]
    exact Course.orderly_start huntouched
  · have hle : k ≤ target.size := by
      rw [← huntouched.target, ← hsize, hk]
      split
      · exact w.signature.reusable_le b
      · exact Nat.zero_le _
    have hspent : t.Spent k := Transfer.spent_create hcreate hle fun hdelta => by rw [hk, if_neg (by simp [hdelta])]
    rw [hcourse]
    refine ⟨hspent.spares ⟨rfl, rfl, rfl, rfl, rfl⟩, fun hdelta => ⟨?_, ?_⟩, hsize, fun task ht => ?_⟩
    · have hlocal : (ofTransfer t source).transfer.delta := by
        rw [htransfer]
        exact hdelta
      obtain ⟨c, hc, -⟩ := hunjoined.vacant.grounded.delta hlocal
      show t.target.candidate.isSome
      rw [htarget, hc]
      rfl
    · rw [hk, if_pos (show t.delta = true from hdelta)]
    · rw [Course.start_tasks huntouched] at ht
      exact nomatch ht
  · exact absurd hc (Course.not_completed hunjoined.vacant.grounded.isOpen).1

end Swarm

end FileSwarm
