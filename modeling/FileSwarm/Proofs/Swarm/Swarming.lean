import FileSwarm.Proofs.Swarm.Serving
import FileSwarm.Proofs.Swarm.Turns
import FileSwarm.Proofs.Transfer.Steps

/-!
# Swarms of servers that can do everything

However servers join, answer and jobs go on, the transfer is vacant, on its way with its books in order, or
done.

* `Fit` : the signatures of a server cannot mislead; `Sound` : the invariant;
* `Sound.turn` : every turn keeps it;
* `Sound.idle` : when nothing is left to do and somebody is there, the transfer is done.
-/

namespace FileSwarm

namespace Swarm

/-- No part of the local copy passes for a block of the server's signatures by its hash alone. -/
def Fit (w : Scene) (v : Server) : Prop :=
  w.Safe (Signature.clampLength (v.blockLength.getD (Signature.defaultBlockLength w.original.size)))

/-- Between two turns: nobody joined yet, the transfer is on its way, or the file is there. -/
inductive Sound (w : Scene) (s : Swarm) : Prop
  | unjoined (h : Unjoined w s)
  | going (h : Transfer.Going w (namesOf s.servers) (inboxOf s.servers) s.delivered s.transfer s.tasks)
    (rested : s.transfer.Rested) (staffed : Staffed (Fit w) s.servers)
    (delivered : s.delivered = s.transfer.sent.size) (jobs : s.transfer.outbox.jobs = [])
  | done (h : Done w s)

section Swarming

variable {w : Scene} {s : Swarm}

theorem Sound.settle (hstaffed : Staffed (Fit w) s.servers)
    (h : Transfer.Outcome w (namesOf s.servers) (inboxOf s.servers) s.delivered s.transfer s.tasks) :
    Sound w s.settle := by
  rcases h with ⟨hgoing, hrested⟩ | ⟨hfinished, hnone⟩
  · obtain ⟨hstaffed', hpeers⟩ := hstaffed.settle (fun v inbox h => h) hgoing.peers
    have heq := settle_eq s
    have hgoing' := hgoing.enter (p := s.transfer.phase) hgoing.grounded.isOpen .empty
    refine .going ⟨?_, hgoing.pos, hpeers, ?_⟩ ?_ hstaffed' ?_ ?_
    · rw [heq]
      exact hgoing'.grounded
    · rw [heq]
      exact hgoing'.stage
    · rw [heq]
      exact ⟨hrested.signature, hrested.parts⟩
    · rw [heq]
    · rw [heq]
      rfl
  · rw [List.append_eq_nil_iff] at hnone
    obtain ⟨htasks, hjobs⟩ := hnone
    exact .done (Done.settle hfinished (List.map_eq_nil_iff.1 hjobs) htasks)

theorem inboxOf_append (l : List Server) {v : Server} (hv : v.inbox = []) : inboxOf (l ++ [v]) = inboxOf l := by
  funext i
  unfold inboxOf
  rw [List.getElem?_append]
  split
  · rfl
  · next hge =>
    rw [List.getElem?_eq_none (Nat.le_of_not_lt hge), List.getElem?_singleton]
    split
    · show v.inbox.map _ = []
      rw [hv]
      rfl
    · rfl

theorem Sound.join (h : Sound w s) {v : Server} (hv : Fresh v) (hcaps : v.caps = .full) (hfit : Fit w v) :
    Sound w (s.join v).1 := by
  have hsettle : Staffed (Fit w) s.servers →
      s.transfer.Peers s.delivered (namesOf s.servers) (inboxOf s.servers) →
      Transfer.Outcome w (namesOf s.servers ++ [v.id]) (inboxOf s.servers) s.delivered (s.transfer.join v.id .full)
        s.tasks → Sound w (s.join v).1 := by
    intro hstaffed hpeers hout
    have hlink : s.transfer.links.size = s.servers.length := by
      rw [← hpeers.size, namesOf, List.length_map]
    rw [← hcaps] at hout
    rw [join_eq]
    refine Sound.settle (hstaffed.append hlink ⟨hv.at_work, hcaps, hv.stream⟩ hfit) ?_
    dsimp only
    rw [inboxOf_append s.servers (v := { v with link := s.transfer.links.size }) hv.inbox, namesOf, List.map_append]
    exact hout
  cases h with
  | unjoined hun =>
    have hstaffed : Staffed (Fit w) s.servers := fun i x hx => by
      rw [hun.servers] at hx
      simp at hx
    refine hsettle hstaffed hun.peers ?_
    rw [hun.tasks]
    exact hun.vacant.join hun.peers hun.jobs v.id
  | going hgoing hrested hstaffed _ hjobs => exact hsettle hstaffed hgoing.peers (hgoing.join hrested hjobs v.id)
  | done hdone => exact .done (hdone.turn (.move (.join v)))

/-- The server that answers is a peer, and what it was told first is what the peer is to answer. -/
theorem exists_share {t : Transfer} {d : Nat} {l : List Server} (hp : t.Peers d (namesOf l) (inboxOf l)) {i : Nat}
    {v : Server} (hv : l[i]? = some v) {time : Nat} {c : Call} {rest : List (Nat × Call)}
    (hinbox : v.inbox = (time, c) :: rest) :
    ∃ (j : Nat) (q : Share), t.shares[j]? = some q ∧ q.link = i ∧ q.id = v.id ∧
      inboxOf l q.link = c :: rest.map (·.2) := by
  have hqueue : inboxOf l i = c :: rest.map (·.2) := by
    rw [inboxOf_eq hv, hinbox]
    rfl
  have hsome : ∃ q ∈ t.shares, q.link = i := by
    by_contra hnone
    have hsilent := hp.silent i fun q hq heq => hnone ⟨q, hq, heq⟩
    rw [hqueue, List.cons_append] at hsilent
    exact nomatch hsilent
  obtain ⟨q, hq, rfl⟩ := hsome
  obtain ⟨j, hj⟩ := List.mem_iff_getElem?.1 hq
  refine ⟨j, q, hj, rfl, ?_, hqueue⟩
  have hname := hp.named q hq
  rw [namesOf, List.getElem?_map, hv] at hname
  exact (Option.some.inj hname).symm

/-- Whatever the transfer makes of an answer, the server has one call less to answer. -/
theorem Sound.answer (hstaffed : Staffed (Fit w) s.servers) (hdelivered : s.delivered = s.transfer.sent.size) {i : Nat}
    {v : Server} (hv : s.servers[i]? = some v) {time : Nat} {c : Call} {rest : List (Nat × Call)}
    (hinbox : v.inbox = (time, c) :: rest) {u : Transfer} {stream : ByteRange} (hempty : stream.isEmpty)
    (hreceive : receive s.transfer { v with inbox := rest } (v.reply s.transfer.disk s.source c) =
      (u, { v with inbox := rest, stream }))
    (hout : Transfer.Outcome w (namesOf s.servers) (Function.update (inboxOf s.servers) i (rest.map (·.2)))
      s.transfer.sent.size u s.tasks) : Sound w (s.serve i) := by
  obtain ⟨hlink, ⟨hwork, hcaps, hstream⟩, hfit⟩ := hstaffed i v hv
  have hlt : i < s.servers.length := (List.getElem?_eq_some_iff.1 hv).1
  rw [serve_eq hv (Server.answer?_call hstream hinbox _ _), answered, hreceive]
  refine Sound.settle (hstaffed.set hlink ⟨hwork, hcaps, hempty⟩ hfit) ?_
  dsimp only
  have hnames : namesOf (s.servers.set i { v with inbox := rest, stream, free := v.due?.getD s.now }) =
      namesOf s.servers := map_set_eq hv rfl
  have hinboxes : inboxOf (s.servers.set i { v with inbox := rest, stream, free := v.due?.getD s.now }) =
      Function.update (inboxOf s.servers) i (rest.map (·.2)) := by
    funext m
    rw [inboxOf_set hlt]
    by_cases hm : m = i
    · subst hm
      rw [if_pos rfl, Function.update_self]
    · rw [if_neg hm, Function.update_of_ne hm]
  rw [hnames, hinboxes, hdelivered]
  exact hout

theorem Sound.serve (h : Sound w s) (hsource : Sourced w s) (i : Nat) : Sound w (s.serve i) := by
  cases h with
  | done hdone => exact .done (hdone.turn (.move (.serve i)))
  | unjoined hun =>
    rw [show s.serve i = s from hun.turn (a := .move (.serve i)) (by simp)]
    exact .unjoined hun
  | going hgoing hrested hstaffed hdelivered hjobs =>
    cases hv : s.servers[i]? with
    | none =>
      rw [serve_silent fun v hv' => absurd (hv.symm.trans hv') (by simp)]
      exact .going hgoing hrested hstaffed hdelivered hjobs
    | some v =>
      obtain ⟨hlink, ⟨hwork, hcaps, hstream⟩, hfit⟩ := hstaffed i v hv
      cases hinbox : v.inbox with
      | nil =>
        rw [serve_silent]
        · exact .going hgoing hrested hstaffed hdelivered hjobs
        · intro v' hv'
          obtain rfl := Option.some.inj (hv.symm.trans hv')
          rw [Server.isIdle, hstream, hinbox]
          rfl
      | cons first rest =>
        obtain ⟨time, c⟩ := first
        rw [hdelivered] at hgoing
        obtain ⟨j, q, hq, rfl, hqid, hqueue⟩ := exists_share hgoing.peers hv hinbox
        obtain ⟨k, hk, hfile⟩ := hsource
        have hfile : s.transfer.disk.HasFile s.source k w.original := hfile.alike hgoing.grounded.written.alike hk
        cases c with
        | file offset =>
          obtain ⟨u, hready, hout⟩ := hgoing.peerReady hjobs hq hqueue
          have hreply : v.reply s.transfer.disk s.source (.file offset) = .ready ⟨offset, 0⟩ :=
            Server.beginning_parts (by rw [hcaps]; rfl) hfile offset
          refine Sound.answer hstaffed hdelivered hv hinbox (show ByteRange.isEmpty ⟨offset, 0⟩ from rfl) ?_ hout
          rw [hreply]
          unfold receive
          dsimp only
          rw [← hqid, hready]
        | range r accepted =>
          obtain ⟨hstop, u, hchunk, hout⟩ := hgoing.receiveChunk hjobs hq hqueue
          have hreply : v.reply s.transfer.disk s.source (.range r accepted) =
              .chunk r.start (w.original.extract r.start r.stop) := Server.chunk_eq hfile w.size_le hstop
          refine Sound.answer hstaffed hdelivered hv hinbox hstream ?_ hout
          rw [hreply]
          unfold receive
          dsimp only
          rw [← hqid, hchunk]
        | signature =>
          have hout := hgoing.receiveSignature hjobs hq hqueue (Signature.clampLength_pos _)
            (Signature.clampLength_le _) hfit
          have hreply : v.reply s.transfer.disk s.source .signature = _ := v.sign_eq hfile w.size_le
          refine Sound.answer hstaffed hdelivered hv hinbox hstream ?_ hout
          rw [hreply]
          rfl
        | abort => exact absurd hqueue (hgoing.peers.not_abort hq)

theorem Sound.work (h : Sound w s) (i : Nat) : Sound w (s.work i) := by
  cases h with
  | done hdone => exact .done (hdone.turn (.move (.work i)))
  | unjoined hun =>
    rw [show s.work i = s from hun.turn (a := .move (.work i)) nofun]
    exact .unjoined hun
  | going hgoing hrested hstaffed hdelivered hjobs =>
    cases htask : s.tasks[i]? with
    | none =>
      rw [work_none htask]
      exact .going hgoing hrested hstaffed hdelivered hjobs
    | some task =>
      -- there is one job at most
      have hone : ∀ {l : List Task}, Transfer.Stage w s.transfer l → l[i]? = some task → i = 0 ∧ l = [task] := by
        intro l hstage hi
        cases hstage with
        | waiting _ _ _ _ => exact nomatch hi
        | asking _ _ _ _ _ => exact nomatch hi
        | fetching _ _ _ _ => exact nomatch hi
        | looking _ _ =>
          cases i with
          | zero => exact ⟨rfl, by rw [Option.some.inj hi]⟩
          | succ i => exact nomatch hi
        | verifying _ _ _ _ =>
          cases i with
          | zero => exact ⟨rfl, by rw [Option.some.inj hi]⟩
          | succ i => exact nomatch hi
      obtain ⟨rfl, htasks⟩ := hone hgoing.stage htask
      rw [htasks] at hgoing
      have hout := hgoing.step hrested hjobs
      rw [work_eq htask, htasks]
      refine Sound.settle hstaffed ?_
      simpa using hout

theorem Sound.turn (h : Sound w s) (hsource : Sourced w s) (a : Turn)
    (hjoin : ∀ v, a = .move (.join v) → Fresh v ∧ v.caps = .full ∧ Fit w v) : Sound w (s.turn a) := by
  cases a with
  | move m =>
    cases m with
    | join v =>
      obtain ⟨hfresh, hcaps, hfit⟩ := hjoin v rfl
      exact h.join hfresh hcaps hfit
    | serve i => exact h.serve hsource i
    | work i => exact h.work i
  | abort =>
    cases h with
    | unjoined hun =>
      rw [turn_abort hun.vacant.grounded.isOpen]
      exact .unjoined hun
    | going hgoing hrested hstaffed hdelivered hjobs =>
      rw [turn_abort hgoing.grounded.isOpen]
      exact .going hgoing hrested hstaffed hdelivered hjobs
    | done hdone => exact .done (hdone.turn .abort)
  | dismiss i =>
    cases h with
    | unjoined hun =>
      rw [turn_dismiss hun.vacant.grounded.isOpen i]
      exact .unjoined hun
    | going hgoing hrested hstaffed hdelivered hjobs =>
      rw [turn_dismiss hgoing.grounded.isOpen i]
      exact .going hgoing hrested hstaffed hdelivered hjobs
    | done hdone => exact .done (hdone.turn (.dismiss i))

theorem Sound.play (h : Sound w s) (hsource : Sourced w s) (turns : List Turn)
    (hjoin : ∀ v ∈ joiners turns, Fresh v ∧ v.caps = .full ∧ Fit w v) : Sound w (s.play turns) := by
  induction turns generalizing s with
  | nil => exact h
  | cons a turns ih =>
    rw [play_cons]
    refine ih (h.turn hsource a fun v hv => hjoin v (mem_joiners_cons.2 (.inl hv))) ?_
      fun v hv => hjoin v (mem_joiners_cons.2 (.inr hv))
    rw [Sourced, turn_source]
    exact hsource

/-- With somebody there and nothing left to do, the transfer is done. -/
theorem Sound.idle (h : Sound w s) (hidle : s.isIdle) (hshares : s.transfer.shares ≠ []) :
    Transfer.Finished w s.transfer := by
  rw [isIdle, Bool.and_eq_true] at hidle
  obtain ⟨htasks, hservers⟩ := hidle
  cases h with
  | done hdone => exact hdone.finished
  | unjoined hun => exact absurd hun.vacant.shares hshares
  | going hgoing hrested _ hdelivered _ =>
    rw [List.isEmpty_iff.1 htasks, hdelivered] at hgoing
    refine (hgoing.not_idle hrested hshares fun i => ?_).elim
    cases hv : s.servers[i]? with
    | none => exact inboxOf_of_le (List.getElem?_eq_none_iff.1 hv)
    | some v =>
      have hv' := List.all_eq_true.1 hservers v (List.mem_of_getElem? hv)
      rw [Server.isIdle, Bool.and_eq_true] at hv'
      rw [inboxOf_eq hv, List.isEmpty_iff.1 hv'.2]
      rfl

end Swarming

end Swarm

end FileSwarm
