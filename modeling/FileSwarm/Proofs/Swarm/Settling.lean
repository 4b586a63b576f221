import FileSwarm.Proofs.Transfer.Requests
import FileSwarm.Swarm.Basic

/-!
# Calls reach the inboxes

Between two moves every call of the transfer is in the inbox of the server at the other end.

* `Server.hearAll`, `settle_eq` : what handing out does, in one step;
* `inboxOf`, `namesOf` : the queues and names of servers by position;
* `Server.Ready`, `Staffed` : servers at work, each at the end of the connection that has its position;
* `Staffed.settle` : the books are right again after handing out.
-/

namespace FileSwarm

namespace Server

/-- The server has heard all calls to it. -/
def hearAll (now : Nat) (calls : List (Nat × Call)) (v : Server) : Server :=
  if v.retired then v
  else { v with inbox := v.inbox ++ (calls.filter (·.1 == v.link)).map fun c => (now, c.2) }

theorem hearAll_cons (now : Nat) (c : Nat × Call) (calls : List (Nat × Call)) (v : Server) :
    hearAll now calls (if v.link = c.1 && !v.retired then v.hear now c.2 else v) = hearAll now (c :: calls) v := by
  unfold hearAll hear
  by_cases hr : v.retired
  · simp [hr]
  · by_cases hl : v.link = c.1
    · simp [hr, hl]
    · simp [hr, hl, Ne.symm hl]

/-- The server answers, and has nothing to stream. -/
structure Ready (v : Server) : Prop where
  at_work : v.retired = false
  caps : v.caps = .full
  stream : v.stream.isEmpty

end Server

namespace Swarm

theorem foldl_hear (now : Nat) (calls : List (Nat × Call)) (l : List Server) :
    calls.foldl (fun l (link, c) =>
      l.map fun v => if v.link = link && !v.retired then v.hear now c else v) l = l.map (·.hearAll now calls) := by
  induction calls generalizing l with
  | nil =>
    refine (List.map_id'' (fun v => ?_) l).symm
    unfold Server.hearAll
    split
    · rfl
    · simp
  | cons c calls ih =>
    rw [List.foldl_cons, ih, List.map_map]
    exact List.map_congr_left fun v _ => Server.hearAll_cons now c calls v

theorem settle_eq (s : Swarm) :
    s.settle = { s with
      transfer := { s.transfer with outbox := .empty }
      heard := s.heard ++ s.transfer.outbox.notices.toArray
      tasks := s.tasks ++ s.transfer.outbox.jobs.map Task.ofJob
      delivered := s.transfer.sent.size
      servers := s.servers.map (·.hearAll s.now (s.transfer.sent.toList.drop s.delivered)) } := by
  have hcalls : (s.transfer.sent.extract s.delivered s.transfer.sent.size).toList =
      s.transfer.sent.toList.drop s.delivered := by
    rw [Array.toList_extract, List.extract_eq_take_drop]
    exact List.take_of_length_le (Nat.le_of_eq (by rw [List.length_drop, Array.length_toList]))
  unfold settle deliver Transfer.takeOutbox
  dsimp only
  rw [foldl_hear, hcalls]

/-- What each server was told and has not answered. -/
def inboxOf (l : List Server) (i : Nat) : List Call := ((l[i]?).map fun v => v.inbox.map (·.2)).getD []

def namesOf (l : List Server) : List String := l.map (·.id)

theorem inboxOf_eq {l : List Server} {i : Nat} {v : Server} (h : l[i]? = some v) :
    inboxOf l i = v.inbox.map (·.2) := by
  rw [inboxOf, h]
  rfl

theorem inboxOf_of_le {l : List Server} {i : Nat} (h : l.length ≤ i) : inboxOf l i = [] := by
  rw [inboxOf, List.getElem?_eq_none h]
  rfl

theorem inboxOf_set {l : List Server} {i : Nat} {v : Server} (h : i < l.length) (k : Nat) :
    inboxOf (l.set i v) k = if k = i then v.inbox.map (·.2) else inboxOf l k := by
  split
  · next hk =>
    subst hk
    exact inboxOf_eq (List.getElem?_set_self h)
  · next hk => rw [inboxOf, List.getElem?_set_ne (Ne.symm hk), ← inboxOf]

/-- Servers at work that have the property `P`, each at the end of the connection that has its position. -/
def Staffed (P : Server → Prop) (l : List Server) : Prop :=
  ∀ i v, l[i]? = some v → v.link = i ∧ v.Ready ∧ P v

section Staffed

variable {P : Server → Prop} {l : List Server}

theorem Staffed.set (h : Staffed P l) {i : Nat} {v : Server} (hlink : v.link = i) (hready : v.Ready) (hv : P v) :
    Staffed P (l.set i v) := by
  intro k w hw
  rw [List.getElem?_set] at hw
  split at hw
  · next hik =>
    split at hw
    · obtain rfl := Option.some.inj hw
      exact ⟨hlink.trans hik, hready, hv⟩
    · exact nomatch hw
  · exact h k w hw

theorem Staffed.append (h : Staffed P l) {v : Server} (hlink : v.link = l.length) (hready : v.Ready) (hv : P v) :
    Staffed P (l ++ [v]) := by
  intro k w hw
  rw [List.getElem?_append] at hw
  split at hw
  · exact h k w hw
  · rw [List.getElem?_singleton] at hw
    split at hw
    · obtain rfl := Option.some.inj hw
      exact ⟨by omega, hready, hv⟩
    · exact nomatch hw

theorem Staffed.hearAll (h : Staffed P l) (now : Nat) (calls : List (Nat × Call))
    (hP : ∀ v inbox, P v → P { v with inbox }) : Staffed P (l.map (·.hearAll now calls)) := by
  intro k w hw
  rw [List.getElem?_map] at hw
  obtain ⟨v, hv, rfl⟩ := Option.map_eq_some_iff.1 hw
  obtain ⟨hlink, ⟨hwork, hcaps, hstream⟩, hprop⟩ := h k v hv
  unfold Server.hearAll
  rw [if_neg (by simp [hwork])]
  exact ⟨hlink, ⟨hwork, hcaps, hstream⟩, hP v _ hprop⟩

theorem Staffed.inboxOf_hearAll (h : Staffed P l) (now d : Nat) (t : Transfer) {i : Nat} (hi : i < l.length) :
    inboxOf (l.map (·.hearAll now (t.sent.toList.drop d))) i = inboxOf l i ++ t.unread d i := by
  have hv : l[i]? = some l[i] := List.getElem?_eq_getElem hi
  obtain ⟨hlink, ⟨hwork, -, -⟩, -⟩ := h i l[i] hv
  have hmap : (l.map (·.hearAll now (t.sent.toList.drop d)))[i]? =
      some (l[i].hearAll now (t.sent.toList.drop d)) := by
    rw [List.getElem?_map, hv]
    rfl
  rw [inboxOf_eq hmap, inboxOf_eq hv, Server.hearAll, if_neg (by simp [hwork]), Transfer.unread]
  show List.map _ (l[i].inbox ++ _) = _
  rw [hlink, List.map_append, List.map_map]
  rfl

end Staffed

theorem namesOf_hearAll (now : Nat) (calls : List (Nat × Call)) (l : List Server) :
    namesOf (l.map (·.hearAll now calls)) = namesOf l := by
  rw [namesOf, namesOf, List.map_map]
  apply List.map_congr_left
  intro v _
  show (v.hearAll now calls).id = v.id
  unfold Server.hearAll
  split <;> rfl

end Swarm

theorem Transfer.Peers.deliver {t : Transfer} {d : Nat} {names : List String} {inbox inbox' : Nat → List Call}
    (h : t.Peers d names inbox) (hinbox : ∀ i < names.length, inbox' i = inbox i ++ t.unread d i)
    (hrest : ∀ i, names.length ≤ i → inbox' i = []) : t.Peers t.sent.size names inbox' := by
  have hunread : ∀ k, t.unread t.sent.size k = [] := by
    intro k
    rw [unread, ← Array.length_toList, List.drop_length]
    rfl
  refine ⟨Nat.le_refl _, h.accepting, h.size, h.named, h.ids, h.links, h.able, fun s hs => ?_, fun link hl => ?_⟩
  · have hlt : s.link < names.length := (List.getElem?_eq_some_iff.1 (h.named s hs)).1
    rw [hunread, List.append_nil, hinbox _ hlt]
    exact h.queue s hs
  · rw [hunread, List.append_nil]
    by_cases hlt : link < names.length
    · rw [hinbox _ hlt]
      exact h.silent link hl
    · exact hrest link (Nat.le_of_not_lt hlt)

namespace Swarm

/-- Handing out keeps the servers at work and the books right. -/
theorem Staffed.settle {P : Server → Prop} {s : Swarm} (h : Staffed P s.servers)
    (hP : ∀ v inbox, P v → P { v with inbox })
    (hp : s.transfer.Peers s.delivered (namesOf s.servers) (inboxOf s.servers)) :
    Staffed P s.settle.servers ∧
      s.settle.transfer.Peers s.settle.delivered (namesOf s.settle.servers) (inboxOf s.settle.servers) := by
  rw [settle_eq]
  refine ⟨h.hearAll _ _ hP, ?_⟩
  dsimp only
  rw [namesOf_hearAll]
  have hlength : (namesOf s.servers).length = s.servers.length := List.length_map _
  have hdeliver : s.transfer.Peers s.transfer.sent.size (namesOf s.servers) (inboxOf (s.servers.map
      (·.hearAll s.now (s.transfer.sent.toList.drop s.delivered)))) :=
    hp.deliver (fun i hi => h.inboxOf_hearAll s.now s.delivered s.transfer (hlength ▸ hi))
      (fun i hi => inboxOf_of_le (by rw [List.length_map]; omega))
  exact hdeliver.update

end Swarm

end FileSwarm
