import FileSwarm.Proofs.Transfer.Membership
import FileSwarm.Proofs.Transfer.Offers

/-!
# How work is shared out along a course

Between two ranges that are handed out a lot can happen to a transfer. None of it moves the place in the order where the
next turn begins, and so turns go in a circle all along a course, for as long as the same peers are attached and take
whatever they are asked for.

* `Numbered t` : every attached peer has a link of its own;
* `takers sent lo hi` : who took a range, among the calls from number `lo` up to `hi`; `Rotates ls lo hi t` : they did
  so in turns;
* `Interlude t u` : what all events keep apart from handing out; `Opens.interlude`, `Outcome.interlude`;
* `Rotates.turn`, `Rotates.sendRequests`, `Course.rotates_run` : a turn keeps it, and so does a course;
* `Uniform`, `Course.uniform_run` : where the first peer is not sent range requests, nobody is;
* `work_shared_out` : all of it, with what the orders alone say.
-/

namespace FileSwarm

namespace Transfer

variable {t u v : Transfer}

/-- Every attached peer has a link of its own. -/
structure Numbered (t : Transfer) : Prop where
  nodup : (t.shares.map (·.link)).Nodup
  linked : ∀ link ∈ t.shares.map (·.link), link < t.links.size

theorem Numbered.of (h : t.Numbered) (hshares : (u.shares.map (·.link)).Sublist (t.shares.map (·.link)))
    (hlinks : t.links.size ≤ u.links.size) : u.Numbered :=
  ⟨h.nodup.sublist hshares, fun link hlink => Nat.lt_of_lt_of_le (h.linked link (hshares.subset hlink)) hlinks⟩

theorem Numbered.same (h : t.Numbered) (hshares : u.shares = t.shares) (hlinks : u.links = t.links) : u.Numbered :=
  h.of (by rw [hshares]) (by rw [hlinks])

theorem Numbered.map (h : t.Numbered) {f : Share → Share} (hf : ∀ s, (f s).link = s.link)
    (hshares : u.shares = t.shares.map f) (hlinks : u.links = t.links) : u.Numbered := by
  refine h.of ?_ (by rw [hlinks])
  rw [hshares, List.map_map, show (·.link) ∘ f = (·.link) from funext hf]

theorem Numbered.seat (h : t.Numbered) (s : Share) (answers : Nat → Bool) : (t.seat s answers).Numbered := by
  have hsize : (t.seat s answers).links.size = t.links.size + 1 := Array.size_push _
  have hlinks : (t.seat s answers).shares.map (·.link) = t.shares.map (·.link) ++ [t.links.size] := List.map_append
  refine ⟨?_, fun link hlink => ?_⟩
  · rw [hlinks, List.nodup_append]
    refine ⟨h.nodup, List.nodup_singleton _, fun a ha b hb => ?_⟩
    rw [List.mem_singleton.1 hb]
    exact Nat.ne_of_lt (h.linked a ha)
  · rw [hsize]
    rw [hlinks] at hlink
    rcases List.mem_append.1 hlink with hlink | hlink
    · exact Nat.lt_succ_of_lt (h.linked link hlink)
    · rw [List.mem_singleton.1 hlink]
      exact Nat.lt_succ_self _

theorem Numbered.turn (h : t.Numbered) (hturn : t.turn? = some u) : u.Numbered := by
  obtain ⟨-, -, hlinks, hsize, -⟩ := turn_frame hturn
  exact h.of (by rw [hlinks]) (Nat.le_of_eq hsize.symm)

/-! ## Who took ranges -/

/-- The links of those who took a range, in the order in which they took it, among the calls from number `lo` up to
`hi`. -/
def takers (sent : Array (Nat × Call)) (lo hi : Nat) : List Nat :=
  ((sent.extract lo hi).toList.filter (·.2.isTaken)).map (·.1)

variable {sent more : Array (Nat × Call)} {lo hi : Nat} {ls : List Nat}

theorem takers_append (hmore : ∀ call ∈ more, call.2.isTaken = false) :
    takers (sent ++ more) lo hi = takers sent lo hi := by
  have hnone : (more.extract (lo - sent.size) (hi - sent.size)).toList.filter (·.2.isTaken) = [] := by
    rw [List.filter_eq_nil_iff]
    intro call hcall
    obtain ⟨k, hk, rfl⟩ := Array.mem_extract_iff_getElem.1 (Array.mem_toList_iff.1 hcall)
    rw [hmore _ (Array.getElem_mem _)]
    exact Bool.false_ne_true
  rw [takers, Array.extract_append, Array.toList_append, List.filter_append, hnone, List.append_nil, takers]

theorem takers_push (sent : Array (Nat × Call)) (link : Nat) (r : ByteRange) (lo hi : Nat) :
    takers (sent.push (link, .range r true)) lo hi =
      takers sent lo hi ++ if lo ≤ sent.size ∧ sent.size < hi then [link] else [] := by
  have hlast : ((#[(link, Call.range r true)].extract (lo - sent.size) (hi - sent.size)).toList.filter
      (·.2.isTaken)).map (·.1) = if lo ≤ sent.size ∧ sent.size < hi then [link] else [] := by
    split
    · next h =>
      have hstop : 1 ≤ hi - sent.size := Nat.sub_pos_of_lt h.2
      rw [Nat.sub_eq_zero_of_le h.1, Array.extract_eq_self_of_le hstop]
      rfl
    · next h =>
      rw [Array.extract_eq_empty_iff.2 (by simp; omega)]
      rfl
  rw [takers, Array.push_eq_append, Array.extract_append, Array.toList_append, List.filter_append, List.map_append,
    hlast, takers]

theorem takers_of_le (h : sent.size ≤ lo) : takers sent lo hi = [] := by
  rw [takers, Array.extract_empty_of_size_le_start h]
  rfl

/-- Ranges are taken in turns: those that took one are the peers at the links `ls`, one after another in a circle, and
the next turn is due to the next of them. -/
def Rotates (ls : List Nat) (lo hi : Nat) (t : Transfer) : Prop := ∃ c m, takers t.sent lo hi = rotation ls c m ∧
  (0 < m → ls.Nodup ∧ ls ≠ [] ∧ (t.phase.isFinal = false → t.sent.size < hi →
    t.cursor % ls.length = (c + m) % ls.length))

theorem rotates_of_none (h : takers t.sent lo hi = []) : Rotates ls lo hi t := ⟨0, 0, h, nofun⟩

theorem Rotates.quiet (h : Rotates ls lo hi t) (hsent : u.sent = t.sent ++ more)
    (hmore : ∀ call ∈ more, call.2.isTaken = false)
    (hcursor : u.phase.isFinal = false → t.phase.isFinal = false ∧ u.cursor = t.cursor) : Rotates ls lo hi u := by
  obtain ⟨c, m, htakers, hturns⟩ := h
  refine ⟨c, m, by rw [hsent, takers_append hmore, htakers], fun hm => ?_⟩
  obtain ⟨hnodup, hne, hnext⟩ := hturns hm
  refine ⟨hnodup, hne, fun hopen hsize => ?_⟩
  obtain ⟨hopen', hsame⟩ := hcursor hopen
  rw [hsame]
  refine hnext hopen' (Nat.lt_of_le_of_lt ?_ hsize)
  rw [hsent, Array.size_append]
  exact Nat.le_add_right _ _

/-- A turn where nobody turns it down goes to the peer at the cursor. -/
theorem Generous.roundRobin (h : t.Generous) (hsel : t.tuning.selection = .roundRobin) (hturn : t.turn? = some u) :
    ∃ link r, (t.shares.map (·.link))[t.cursor % t.shares.length]? = some link ∧
      u.sent = t.sent.push (link, .range r true) ∧ u.cursor = t.cursor % t.shares.length + 1 := by
  obtain ⟨r, i, links, s, hhead, hs, -, rfl⟩ := h.turn hturn
  have hloads : t.loads ≠ [] := by
    intro hnil
    have hin := List.mem_of_mem_head? hhead
    rw [Selection.mem_order_iff, hnil] at hin
    exact absurd hin (Nat.not_lt_zero _)
  rw [hsel, Selection.head_roundRobin hloads, loads, List.length_map] at hhead
  obtain rfl := Option.some.inj hhead
  exact ⟨s.link, r, by rw [List.getElem?_map, hs]; rfl, rfl, rfl⟩

/-- One more range is taken. Where it counts the same peers are attached and nobody turns it down. -/
theorem Rotates.turn (h : Rotates ls lo hi t) (hopen : t.phase.isFinal = false) (hnumbered : t.Numbered)
    (hsel : t.tuning.selection = .roundRobin) (hturn : t.turn? = some u)
    (hfair : lo < u.sent.size → u.sent.size ≤ hi → t.shares.map (·.link) = ls ∧ t.Generous) : Rotates ls lo hi u := by
  rcases Nat.lt_or_ge lo u.sent.size with hlo | hlo
  · rcases Nat.lt_or_ge hi u.sent.size with hhi | hhi
    · -- it is taken when all that count are
      obtain ⟨c, m, htakers, hturns⟩ := h
      obtain ⟨r, before, i, after, links, s, -, -, -, -, -, rfl⟩ := turn_told hturn
      have hlate : hi ≤ (t.sent ++ t.refusals r before).size := by
        have hsize : hi < ((t.sent ++ t.refusals r before).push (s.link, Call.range r true)).size := hhi
        rw [Array.size_push] at hsize
        exact Nat.le_of_lt_succ hsize
      refine ⟨c, m, ?_, fun hm => ?_⟩
      · show takers ((t.sent ++ t.refusals r before).push (s.link, .range r true)) lo hi = _
        rw [takers_push, if_neg (fun hin => absurd hin.2 (Nat.not_lt.2 hlate)), List.append_nil,
          takers_append not_taken_of_mem_refusals, htakers]
      · obtain ⟨hnodup, hne, -⟩ := hturns hm
        exact ⟨hnodup, hne, fun _ hlt => absurd hlt (Nat.lt_asymm hhi)⟩
    · obtain ⟨hlinks, hgenerous⟩ := hfair hlo hhi
      obtain ⟨link, r, hlink, hsent, hcursor⟩ := hgenerous.roundRobin hsel hturn
      have hnodup := hnumbered.nodup
      have hlength : t.shares.length = ls.length := by rw [← hlinks, List.length_map]
      rw [hlinks] at hlink hnodup
      rw [hlength] at hlink hcursor
      have hne : ls ≠ [] := by
        rintro rfl
        cases hlink
      have hsize : u.sent.size = t.sent.size + 1 := by rw [hsent, Array.size_push]
      obtain ⟨c, m, htakers, hturns⟩ := h
      have hpush : takers u.sent lo hi = rotation ls c m ++ [link] := by
        rw [hsent, takers_push, if_pos (by omega), htakers]
      cases m with
      | zero =>
        refine ⟨t.cursor, 1, ?_, fun _ => ⟨hnodup, hne, fun _ _ => ?_⟩⟩
        · rw [hpush, rotation_succ hlink]
          rfl
        · rw [hcursor, Nat.mod_add_mod]
      | succ m =>
        obtain ⟨-, -, hnext⟩ := hturns (Nat.succ_pos m)
        have hplace := hnext hopen (by omega)
        rw [hplace] at hlink
        refine ⟨c, m + 1 + 1, by rw [hpush, rotation_succ hlink], fun _ => ⟨hnodup, hne, fun _ _ => ?_⟩⟩
        rw [hcursor, hplace, Nat.mod_add_mod, Nat.add_assoc]
  · exact rotates_of_none (takers_of_le hlo)

theorem Rotates.turns (h : Rotates ls lo hi t) (hopen : t.phase.isFinal = false) (hnumbered : t.Numbered)
    (hsel : t.tuning.selection = .roundRobin) (hturns : t.Turns u)
    (hfair : ∀ v w, t.Turns v → v.turn? = some w → lo < w.sent.size → w.sent.size ≤ hi →
      v.shares.map (·.link) = ls ∧ v.Generous) : Rotates ls lo hi u ∧ u.Numbered := by
  induction hturns with
  | refl => exact ⟨h, hnumbered⟩
  | @tail v w hbefore hturn ih =>
    obtain ⟨htuning, hphase, -⟩ := Turns.frame hbefore
    exact ⟨ih.1.turn (hphase ▸ hopen) ih.2 (htuning ▸ hsel) hturn (hfair v w hbefore hturn), ih.2.turn hturn⟩

/-- Asking for what is needed, where the same peers are attached and nobody turns anything down. -/
theorem Rotates.sendRequests (h : Rotates ls lo hi t) (hopen : t.phase.isFinal = false) (hnumbered : t.Numbered)
    (hsel : t.tuning.selection = .roundRobin)
    (hfair : t.byParts → ∀ v w, t.Turns v → v.turn? = some w → lo < w.sent.size → w.sent.size ≤ hi →
      v.shares.map (·.link) = ls ∧ v.Generous) : Rotates ls lo hi t.sendRequests ∧ t.sendRequests.Numbered := by
  cases hby : t.byParts with
  | false =>
    rw [Transfer.sendRequests, hby]
    simpa using ⟨h, hnumbered⟩
  | true =>
    obtain ⟨w, hturns, hend⟩ := (distributes_sendRequests hopen hby).ends
    obtain ⟨hrotates, hw⟩ := h.turns hopen hnumbered hsel hturns (hfair hby)
    rcases hend with ⟨-, heq⟩ | ⟨r, links, -, hlinks, heq⟩
    · rw [heq]
      exact ⟨hrotates, hw⟩
    · rw [heq]
      exact ⟨hrotates.quiet rfl not_taken_of_mem_refusals fun hopen => ⟨hopen, rfl⟩,
        hw.of (List.Sublist.refl _) (Nat.le_of_eq hlinks.symm)⟩

/-! ## Everything else that happens -/

/-- No range is taken, the next turn is due to the same place, and links stay apart. -/
structure Interlude (t u : Transfer) : Prop where
  calls : ∃ more, u.sent = t.sent ++ more ∧ ∀ call ∈ more, call.2.isTaken = false
  cursor : u.cursor = t.cursor
  numbered : t.Numbered → u.Numbered

theorem interlude_same (hsent : u.sent = t.sent) (hcursor : u.cursor = t.cursor) (hshares : u.shares = t.shares)
    (hlinks : t.links.size ≤ u.links.size) : t.Interlude u :=
  ⟨⟨#[], by simpa using hsent, nofun⟩, hcursor, fun h => h.of (by rw [hshares]) hlinks⟩

theorem Interlude.trans (h : t.Interlude u) (k : u.Interlude v) : t.Interlude v := by
  obtain ⟨a, ha, ha'⟩ := h.calls
  obtain ⟨b, hb, hb'⟩ := k.calls
  refine ⟨⟨a ++ b, by rw [hb, ha, Array.append_assoc], fun call hcall => ?_⟩, k.cursor.trans h.cursor,
    fun hn => k.numbered (h.numbered hn)⟩
  exact (Array.mem_append.1 hcall).elim (ha' call) (hb' call)

theorem interlude_setPhase (t : Transfer) (p : Phase) : t.Interlude (t.setPhase p) :=
  interlude_same (by simp) (by simp) (by simp) (by simp)

theorem not_taken_of_not_range {c : Call} (h : c.isRange = false) : c.isTaken = false := by
  cases c with
  | range => cases h
  | _ => rfl

@[simp] theorem ensureSignature_cursor (t : Transfer) : t.ensureSignature.cursor = t.cursor := by
  rcases ensureSignature_cases t with e | ⟨-, owing, e⟩
  · rw [e]
  · rw [e]
    rcases askSignature_cases { t with owing } with ⟨s, -, -, -, -, e⟩ | e | ⟨-, e⟩ <;> rw [e] <;> simp

@[simp] theorem enter_cursor (t : Transfer) : t.enter.cursor = t.cursor := by
  unfold enter
  split <;> simp

theorem Numbered.ensureSignature (h : t.Numbered) : t.ensureSignature.Numbered :=
  h.same (ensureSignature_peers t).1 (ensureSignature_peers t).2

end Transfer

namespace Course

open Transfer

variable {c : Course} {e : Event} {u : Transfer} {l : List Task}

theorem Fills.interlude {v : Transfer} {m : PartMap} (h : Fills c e v m l) : c.transfer.Interlude v := by
  cases h with
  | @chunk id offset bytes =>
    refine ⟨⟨#[], by simp [Transfer.credited, Transfer.updateShare], nofun⟩, rfl, fun hn => ?_⟩
    exact hn.map (f := fun s => if s.id == id then s.receive ⟨offset, bytes.size⟩ else s) (fun s => by split <;> rfl)
      rfl rfl
  | copied => exact interlude_same rfl rfl rfl (Nat.le_refl _)

/-- What an event does before whatever is needed is asked for. -/
theorem Opens.interlude (h : Opens c e u l) (hopen : c.transfer.phase.isFinal = false) : c.transfer.Interlude u := by
  have hcalls : ∃ more, u.sent = c.transfer.sent ++ more ∧ ∀ call ∈ more, call.2.isTaken = false := by
    obtain ⟨more, hsent, hmore⟩ := (h.tacit hopen).calls
    exact ⟨more, hsent, fun call hcall => not_taken_of_not_range (hmore call hcall)⟩
  cases h with
  | @join share answers =>
    refine ⟨hcalls, by simp [Transfer.seat], fun hn => ?_⟩
    obtain ⟨-, -, hshares, hlinks⟩ := enter_frame (c.transfer.seat share answers)
    exact ((hn.seat share answers).same hshares hlinks).ensureSignature
  | @ready id =>
    refine ⟨hcalls, by simp [Transfer.updateShare], fun hn => ?_⟩
    have hready : (c.transfer.updateShare id Share.start).Numbered :=
      hn.map (f := fun s => if s.id == id then s.start else s) (fun s => by split <;> rfl) rfl rfl
    exact hready.ensureSignature
  | @leave id s =>
    refine ⟨hcalls, by simp [Transfer.detach], fun hn => ?_⟩
    have hleave : (c.transfer.detach s).Numbered := hn.of (List.eraseP_sublist.map _) (Nat.le_refl _)
    exact hleave.ensureSignature
  | chunk fills => exact fills.interlude
  | fetch => exact ⟨hcalls, by simp, fun hn => hn.same (by simp) (by simp)⟩
  | send => exact interlude_same rfl rfl rfl (Nat.le_refl _)
  | copied fills => exact fills.interlude.trans (interlude_setPhase _ _)
  | failed =>
    refine ⟨hcalls, by simp [Transfer.afresh], fun hn => ?_⟩
    have hafresh : c.transfer.afresh.Numbered := hn.map (f := Share.takePending) (fun _ => rfl) rfl rfl
    exact hafresh.same (by simp) (by simp)

/-- An event that leaves a transfer open hands nothing out, or asks for what is needed at its end. -/
theorem Outcome.interlude (h : Outcome c e u l) (hnext : u.phase.isFinal = false) :
    c.transfer.Interlude u ∨ ∃ v, Opens c e v l ∧ u = v.sendRequests := by
  have hqueue : ∀ (v : Transfer) (j : Job), v.Interlude (v.queueJob j) := fun v j =>
    interlude_same rfl rfl rfl (Nat.le_refl _)
  cases h with
  | round opens => exact .inr ⟨_, opens, rfl⟩
  | closed closes => exact absurd hnext closes.not_open
  | connected => exact .inl (interlude_same rfl rfl rfl (by simp [Transfer.connect]))
  | assembled fills => exact .inl ((fills.interlude.trans (interlude_setPhase _ _)).trans (hqueue _ _))
  | searching =>
    refine .inl (Interlude.trans (u := { c.transfer with signature := some _, owing := none }) ?_
      ((interlude_setPhase _ _).trans (hqueue _ _)))
    exact interlude_same rfl rfl rfl (Nat.le_refl _)
  | matched => exact .inl (interlude_setPhase _ _)
  | _ => exact .inl (interlude_same rfl rfl rfl (Nat.le_refl _))

/-! ## Courses -/

/-- While it asks for what is needed, which the event `e` came to, the transfer hands out a range: it is `v` before and
`w` after. -/
structure Deals (c : Course) (e : Event) (v w : Transfer) : Prop where
  isOpen : c.transfer.phase.isFinal = false
  moment : ∃ u l, Opens c e u l ∧ u.byParts ∧ u.Turns v ∧ (c.step e).transfer = { u.sendRequests with outbox := .empty }
  turn : v.turn? = some w

theorem Deals.size_le {v w : Transfer} (h : c.Deals e v w) : w.sent.size ≤ (c.step e).transfer.sent.size := by
  obtain ⟨hopen, ⟨u, l, hopens, hby, hturns, hstep⟩, hturn⟩ := h
  rw [hstep]
  exact Turns.size_le (hturns.tail hturn) (hopens.tacit hopen).isOpen hby

variable {ls : List Nat} {lo hi : Nat}

/-- Where the same peers are attached and take whatever they are asked for whenever a range is handed out that counts,
they take them in turns. -/
theorem Orderly.rotates_run (h : Orderly c) (hnumbered : c.transfer.Numbered)
    (hsel : c.transfer.tuning.selection = .roundRobin) (hrotates : Rotates ls lo hi c.transfer) {events : List Event}
    (hfair : ∀ before e v w, before ++ [e] <+: events → (c.run before).Deals e v w → lo < w.sent.size →
      w.sent.size ≤ hi → v.shares.map (·.link) = ls ∧ v.Generous) :
    Rotates ls lo hi (c.run events).transfer ∧
      ((c.run events).transfer.phase.isFinal = false → (c.run events).transfer.Numbered) := by
  induction events using List.reverseRecOn with
  | nil => exact ⟨hrotates, fun _ => hnumbered⟩
  | append_singleton events e ih =>
    obtain ⟨hbefore, hapart⟩ := ih fun before e' v w hp => hfair before e' v w (hp.trans (List.prefix_append _ _))
    have hnow := h.run events
    rw [run_snoc]
    cases hf : (c.run events).transfer.phase.isFinal with
    | true =>
      have hrests := hnow.rests_step hf e
      obtain ⟨more, hsent, habort⟩ := hrests.calls
      have hnever : ∀ {P : Prop}, ((c.run events).step e).transfer.phase.isFinal = false → P := fun hopen => by
        rw [hrests.phase, hf] at hopen
        cases hopen
      exact ⟨hbefore.quiet hsent (fun call hcall => by rw [habort call hcall]; rfl) hnever, hnever⟩
    | false =>
      have ho := outcome_operate hf (hnow.released.trans hf) (hnow.aborted hf) e
      have hstep : ((c.run events).step e).transfer = { ((c.run events).operate e).1 with outbox := .empty } := by
        rw [step_eq hnow.emptied]
        rfl
      rw [hstep]
      cases hnext : ((c.run events).operate e).1.phase.isFinal with
      | true =>
        rcases ho.calls hf with ⟨more, hsent, hmore⟩ | ⟨u, hopens, hu⟩
        · exact ⟨hbefore.quiet hsent (fun call hcall => not_taken_of_not_range (hmore call hcall))
            fun hopen => (nomatch hnext.symm.trans hopen), nofun⟩
        · rw [hu] at hnext
          simp [(hopens.tacit hf).isOpen] at hnext
      | false =>
        rcases ho.interlude hnext with ⟨⟨more, hsent, hmore⟩, hcursor, hnumbered'⟩ | ⟨u, hopens, hu⟩
        · exact ⟨hbefore.quiet hsent hmore fun _ => ⟨hf, hcursor⟩, fun _ => (hnumbered' (hapart hf)).same rfl rfl⟩
        · have htacit := hopens.tacit hf
          obtain ⟨⟨more, hsent, hmore⟩, hcursor, hnumbered'⟩ := hopens.interlude hf
          have hu' : Rotates ls lo hi u := hbefore.quiet hsent hmore fun _ => ⟨hf, hcursor⟩
          have hsel' : u.tuning.selection = .roundRobin := by
            rw [htacit.tuning, (h.made_run events hf).tuning, hsel]
          obtain ⟨hrotates', hlast⟩ := hu'.sendRequests htacit.isOpen (hnumbered' (hapart hf)) hsel'
            fun hby v w hturns hturn => hfair events e v w (List.prefix_refl _)
              ⟨hf, ⟨u, _, hopens, hby, hturns, by rw [hstep, hu]⟩, hturn⟩
          rw [hu]
          exact ⟨hrotates', fun _ => hlast.same rfl rfl⟩

/-! ## Peers of one kind -/

/-- All work by range requests, or none do. -/
def Uniform (l : List (String × Capabilities)) : Prop := ∀ p ∈ l, ∀ q ∈ l, p.2.partRequests = q.2.partRequests

theorem Uniform.byParts {t : Transfer} (h : Uniform t.roll) : ∀ p ∈ t.roll, p.2.partRequests = t.byParts := by
  intro p hp
  cases hl : t.shares with
  | nil =>
    rw [roll, hl] at hp
    exact absurd hp List.not_mem_nil
  | cons s l =>
    have hfirst : (s.id, s.caps) ∈ t.roll := by
      rw [roll, hl]
      exact List.mem_cons_self
    rw [h p hp _ hfirst, Transfer.byParts, hl]
    rfl

theorem Uniform.enrols {l : List (String × Capabilities)} (h : Uniform c.transfer.roll)
    (hrule : c.transfer.phase.isFinal = false → c.transfer.admission = .single ∨ c.transfer.admission = .swarming)
    (he : Enrols c e l) : Uniform l := by
  cases he with
  | same => exact h
  | @join share answers isOpen unknown accepted =>
    have hnew : ∀ p ∈ c.transfer.roll, p.2.partRequests = share.caps.partRequests := by
      rcases uniform_of_accepted (hrule isOpen) accepted with hnone | ⟨hby, hparts⟩
      · rw [roll, hnone]
        exact fun p hp => absurd hp List.not_mem_nil
      · intro p hp
        rw [h.byParts p hp, hby, hparts]
    intro p hp q hq
    rcases List.mem_append.1 hp with hp | hp <;> rcases List.mem_append.1 hq with hq | hq
    · exact h p hp q hq
    · rw [List.mem_singleton.1 hq, hnew p hp]
    · rw [List.mem_singleton.1 hp, hnew q hq]
    · rw [List.mem_singleton.1 hp, List.mem_singleton.1 hq]
  | leave => exact fun p hp q hq => h p (List.mem_of_mem_eraseP hp) q (List.mem_of_mem_eraseP hq)

theorem Orderly.uniform_run (h : Orderly c) (hrule : c.transfer.admission = .single ∨ c.transfer.admission = .swarming)
    (hstart : Uniform c.transfer.roll) (events : List Event) : Uniform (c.run events).transfer.roll := by
  induction events using List.reverseRecOn with
  | nil => exact hstart
  | append_singleton events e ih =>
    rw [run_snoc]
    exact ih.enrols (fun hopen => (h.made_run events hopen).admission ▸ hrule) (enrols_step (h.run events).emptied e)

/-! ## All of it -/

/-- How work is shared out. Whatever the selection, the loads and the cursor, everybody who is attached has one place in
the order; the least loaded are asked first, and of those with as many open requests the one that joined first. Asking
for what is needed goes on until nothing is needed or everybody who is attached declined the same range; it does not
begin only if nobody can be asked, under the rules for peers that are shipped. If peers are asked in turns, and the same
peers are attached, have room and take whatever they are asked for whenever one of the calls from number `lo` up to `hi`
hands out a range, then of the `k` ranges these hand out each of the `n` peers has `k / n`, rounded down or up. If the
least loaded are asked first, and all have room and take whatever they are asked for, then nobody falls behind by more
than one request while whatever is needed is asked for, if nobody does to begin with. -/
theorem work_shared_out {target : Target} {tuning : Tuning} {admission : Admission} {disk made : Disk} {t : Transfer}
    (h : Transfer.create target tuning admission disk = (.ok t, made)) (events : List Event) :
    let c := (start t).run events
    (∀ (s : Selection) (loads : List Nat) (cursor : Nat), (s.order loads cursor).Perm (List.range loads.length)) ∧
    (∀ (loads : List Nat) (cursor : Nat),
      (Selection.leastLoaded.order loads cursor).Pairwise (Selection.Before loads)) ∧
    (∀ u : Transfer, u.phase.isFinal = false → u.byParts → u.sendRequests.nextRange? = none ∨
      ∃ w r links refusals, u.Turns w ∧ w.nextRange? = some r ∧
        u.sendRequests = { w with links, sent := w.sent ++ refusals } ∧
        ∀ s ∈ w.shares, s.mayAsk r = false ∨ (s.link, .range r false) ∈ refusals) ∧
    (admission = .single ∨ admission = .swarming → c.transfer.byParts = false →
      ∀ s ∈ c.transfer.shares, s.canRequest = false) ∧
    (tuning.selection = .roundRobin → ∀ (ls : List Nat) (lo hi : Nat),
      (∀ before e v w, before ++ [e] <+: events → ((start t).run before).Deals e v w → lo < w.sent.size →
        w.sent.size ≤ hi → v.shares.map (·.link) = ls ∧ v.Generous) →
      (∀ link ∈ takers c.transfer.sent lo hi, link ∈ ls) ∧ ∀ link ∈ ls,
        (takers c.transfer.sent lo hi).count link = (takers c.transfer.sent lo hi).length / ls.length ∨
        (takers c.transfer.sent lo hi).count link =
          ((takers c.transfer.sent lo hi).length + ls.length - 1) / ls.length) ∧
    ∀ u : Transfer, u.tuning.selection = .leastLoaded → u.Even → (∀ v w, u.Turns v → v.turn? = some w → v.Generous) →
      (∀ v, u.Turns v → v.Even) ∧ u.sendRequests.Even := by
  have huntouched := create_untouched h
  have hstart : Orderly (start t) := orderly_start huntouched
  have hnobody : (start t).transfer.shares = [] := huntouched.shares
  intro c
  refine ⟨Selection.order_perm, Selection.order_leastLoaded, fun u => declined_all, fun hrule hby s hs => ?_,
    fun hsel ls lo hi hfair => ?_, fun u hsel heven hgenerous =>
      ⟨fun v hv => hv.even hsel heven hgenerous, sendRequests_even hsel heven hgenerous⟩⟩
  · have huniform : Uniform c.transfer.roll := by
      have hrule' : (start t).transfer.admission = .single ∨ (start t).transfer.admission = .swarming := by
        rwa [show (start t).transfer.admission = admission from huntouched.admission]
      refine hstart.uniform_run hrule' ?_ events
      rw [roll, hnobody]
      exact fun p hp => absurd hp List.not_mem_nil
    have hparts : s.caps.partRequests = false := (huniform.byParts (s.id, s.caps) (List.mem_map_of_mem hs)).trans hby
    rw [Share.canRequest, hparts, Bool.and_false, Bool.false_and]
  · have hnumbered : (start t).transfer.Numbered := by
      refine ⟨?_, ?_⟩ <;> rw [hnobody]
      · exact List.nodup_nil
      · exact fun link hlink => absurd hlink List.not_mem_nil
    have hnone : takers (start t).transfer.sent lo hi = [] := by
      rw [show (start t).transfer.sent = #[] from huntouched.sent]
      exact takers_of_le (Nat.zero_le _)
    obtain ⟨⟨first, m, htakers, hturns⟩, -⟩ := hstart.rotates_run hnumbered
      (by rwa [show (start t).transfer.tuning = tuning from huntouched.tuning]) (rotates_of_none hnone) hfair
    rw [htakers]
    refine ⟨fun link => mem_of_mem_rotation, fun link hlink => ?_⟩
    cases m with
    | zero => exact .inl (by simp)
    | succ m =>
      obtain ⟨hnodup, hne, -⟩ := hturns (Nat.succ_pos m)
      rw [length_rotation hne]
      exact count_rotation hnodup hlink first (m + 1)

/-- Ranges of one byte, asked for in turns. -/
def circleTuning : Tuning := { Tuning.standard with maxChunk := 1, selection := .roundRobin }

/-- A peer is asked for all three bytes of a file, two others join, and it leaves. -/
def circleEvents : List Event :=
  [.join (.fresh "c" .full 0) fun _ => true, .ready "c", .join (.fresh "a" .full 0) fun _ => true, .ready "a",
    .join (.fresh "b" .full 0) fun _ => true, .ready "b", .leave "c"]

/-- The first peer, asked for everything. -/
def circleLeaver : Share := { Share.fresh "c" .full 0 with pending := [⟨0, 1⟩, ⟨1, 1⟩, ⟨2, 1⟩], started := true }

/-- One of the others takes two of its ranges, and one takes one. -/
theorem three_shared_out :
    let c := (start (plainTransfer 3 circleTuning .swarming)).run circleEvents
    takers c.transfer.sent 6 9 = [2, 1, 2] ∧ ∀ link ∈ [1, 2],
      (takers c.transfer.sent 6 9).count link = 3 / 2 ∨ (takers c.transfer.sent 6 9).count link = (3 + 2 - 1) / 2 := by
  intro c
  have htaken : takers c.transfer.sent 6 9 = [2, 1, 2] := by decide +kernel
  obtain ⟨-, -, -, -, hcircle, -⟩ := work_shared_out (create_plain 3 circleTuning .swarming) circleEvents
  have hshared := hcircle rfl [1, 2] 6 9 fun before e v w hprefix hdeals hlo hhi => by
    have htake := List.prefix_iff_eq_take.1 hprefix
    rw [List.length_append, List.length_singleton] at htake
    rcases Nat.lt_or_ge before.length 6 with hearly | hlate
    · -- ranges that count are handed out when the first peer leaves, and not before
      have hquiet : ∀ k ≤ 6,
          ((start (plainTransfer 3 circleTuning .swarming)).run (circleEvents.take k)).transfer.sent.size ≤ 6 := by
        decide +kernel
      have hle := hdeals.size_le
      rw [← run_snoc, htake] at hle
      exact absurd (Nat.le_trans hle (hquiet _ hearly)) (Nat.not_le.2 hlo)
    · obtain ⟨rfl, rfl⟩ : before = circleEvents.take 6 ∧ e = .leave "c" := by
        rw [List.take_of_length_le (show circleEvents.length ≤ before.length + 1 from Nat.succ_le_succ hlate)] at htake
        have hlast : before ++ [e] = circleEvents.take 6 ++ [.leave "c"] := htake
        obtain ⟨hbefore, he⟩ := List.append_inj' hlast rfl
        exact ⟨hbefore, List.singleton_inj.1 he⟩
      obtain ⟨-, ⟨u, l, hopens, -, hturns, -⟩, -⟩ := hdeals
      cases hopens with
      | @leave id s share =>
        have hleaver :
            ((start (plainTransfer 3 circleTuning .swarming)).run (circleEvents.take 6)).transfer.share? "c" =
              some circleLeaver := by decide +kernel
        obtain rfl := Option.some.inj (hleaver.symm.trans share)
        refine ⟨?_, generous_turns (n := 4) ?_ ?_ hturns⟩
        · rw [(Turns.frame hturns).2.2.1]
          decide +kernel
        · decide +kernel
        · decide +kernel
  rw [htaken] at hshared ⊢
  exact ⟨rfl, hshared.2⟩

end Course

end FileSwarm
