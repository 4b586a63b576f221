import Mathlib.Data.List.Induction
import FileSwarm.Proofs.Peer.Remainders

/-!
# What is owed, told from what was done

The list of a share is changed by requests that the peer accepts, by bytes that arrive, and by taking the list. Which
bytes it owes, and how often, is told by the history of these alone: a byte is owed once for each request of it that
was granted since it last arrived and since the list was last taken.

* `Share.Act`, `Deed`, `Dealings` : what can be done with a share, what came of it, and a share with its history;
* `Dealings.act`, `run` : the peer answers the questions put to it by a script; `request_deed` : what a request
  comes to;
* `owing`, `owing_snoc` : how often a byte is owed by a history;
* `Kept`, `Kept.act` : list and history agree, and stay so;
* `pending_told_by_deeds` : for every history; what a request comes to, and when the peer is asked.
-/

namespace FileSwarm

namespace Share

/-- What can be done with a share. -/
inductive Act where
  | request (r : ByteRange)
  | receive (r : ByteRange)
  | start
  | markBroken
  | takePending
deriving DecidableEq, Repr

/-- Its range, if it has one, ends with an offset. -/
def Act.Fits : Act → Prop
  | .request r | .receive r => r.Fits
  | _ => True

instance : (a : Act) → Decidable a.Fits
  | .request r | .receive r => inferInstanceAs (Decidable r.Fits)
  | .start | .markBroken | .takePending => inferInstanceAs (Decidable True)

/-- Something that was done: what the peer answered, if it was asked, and whether a request was granted. -/
structure Deed where
  act : Act
  answer : Option Bool
  granted : Bool
deriving DecidableEq, Repr

/-- A share, and all that was done with it, oldest first. -/
structure Dealings where
  share : Share
  deeds : List Deed

namespace Dealings

/-- How many questions the peer was asked. -/
def asked (d : Dealings) : Nat := d.deeds.countP (·.answer.isSome)

/-- Ask for a range. The peer hears of it if that makes sense, and its answers follow the script. -/
def request (script : Nat → Bool) (d : Dealings) (r : ByteRange) : Dealings :=
  let answer := if d.share.mayAsk r then some (script d.asked) else none
  let (share, granted) := d.share.request r (answer.getD false)
  ⟨share, d.deeds ++ [⟨.request r, answer, granted⟩]⟩

/-- Something else was done, and the share is another now. -/
def became (d : Dealings) (a : Act) (share : Share) : Dealings := ⟨share, d.deeds ++ [⟨a, none, false⟩]⟩

def act (script : Nat → Bool) (d : Dealings) (a : Act) : Except Fault Dealings :=
  match a with
  | .request r => .ok (d.request script r)
  | .receive r => (d.share.receive? r).map (d.became a)
  | .start => .ok (d.became a d.share.start)
  | .markBroken => .ok (d.became a d.share.markBroken)
  | .takePending => .ok (d.became a d.share.takePending)

/-- One thing after another, with a share that nothing was done with. -/
def run (script : Nat → Bool) (s : Share) (acts : List Act) : Except Fault Dealings :=
  acts.foldlM (act script) ⟨s, []⟩

end Dealings

/-! ## What a request comes to -/

namespace Dealings

variable {script : Nat → Bool} {d : Dealings} {r : ByteRange}

theorem request_unasked (h : ¬d.share.mayAsk r) :
    d.request script r = ⟨d.share, d.deeds ++ [⟨.request r, none, false⟩]⟩ := by
  rw [request, if_neg h, Share.request, if_neg (by simp [h])]

theorem request_refused (h : d.share.mayAsk r) (hno : script d.asked = false) :
    d.request script r = ⟨d.share, d.deeds ++ [⟨.request r, some false, false⟩]⟩ := by
  rw [request, if_pos h, hno, Share.request, if_neg (by simp)]

theorem request_granted (h : d.share.mayAsk r) (hyes : script d.asked = true) :
    d.request script r = ⟨d.share.owe r, d.deeds ++ [⟨.request r, some true, true⟩]⟩ := by
  rw [request, if_pos h, hyes, Share.request, if_pos (by simp [h])]

/-- The peer is asked if the share can request and the range has a byte, and then its answer decides. -/
theorem request_deed (script : Nat → Bool) (d : Dealings) (r : ByteRange) :
    ∃ x, (d.request script r).deeds = d.deeds ++ [x] ∧ x.act = .request r ∧
      x.answer = (if 0 < r.length ∧ d.share.canRequest then some (script d.asked) else none) ∧
      (x.granted ↔ 0 < r.length ∧ d.share.canRequest ∧ x.answer = some true) := by
  by_cases hask : d.share.mayAsk r
  · have hboth := mayAsk_iff.1 hask
    cases hanswer : script d.asked with
    | false =>
      rw [request_refused hask hanswer, if_pos hboth]
      exact ⟨_, rfl, rfl, rfl, iff_of_false nofun nofun⟩
    | true =>
      rw [request_granted hask hanswer, if_pos hboth]
      exact ⟨_, rfl, rfl, rfl, iff_of_true rfl ⟨hboth.1, hboth.2, rfl⟩⟩
  · rw [request_unasked hask, if_neg fun hboth => hask (mayAsk_iff.2 hboth)]
    exact ⟨_, rfl, rfl, rfl, iff_of_false nofun nofun⟩

end Dealings

/-! ## How often a byte is owed -/

/-- The byte arrived, or the list was taken. -/
def Deed.clears (o : Nat) (d : Deed) : Bool :=
  match d.act with
  | .receive r => o ∈ r
  | .takePending => true
  | _ => false

/-- The byte was asked for, and that was granted. -/
def Deed.owes (o : Nat) (d : Deed) : Bool :=
  match d.act with
  | .request r => d.granted && o ∈ r
  | _ => false

/-- How many requests of a byte were granted since it last arrived and since the list was last taken. -/
def owing (o : Nat) (deeds : List Deed) : Nat := (deeds.reverse.takeWhile (!·.clears o)).countP (·.owes o)

theorem owing_snoc (o : Nat) (deeds : List Deed) (d : Deed) :
    owing o (deeds ++ [d]) = if d.clears o then 0 else owing o deeds + if d.owes o then 1 else 0 := by
  rw [owing, List.reverse_append, List.reverse_singleton, List.singleton_append, List.takeWhile_cons]
  cases hclears : d.clears o with
  | true => simp
  | false => simp [List.countP_cons, owing]

/-! ## List and history agree -/

theorem receive?_eq_ok {s : Share} {r : ByteRange} (hr : r.Fits) (hs : ∀ p ∈ s.pending, p.Fits) :
    s.receive? r = .ok (s.receive r) := by
  have hall : ∀ l : List ByteRange, (∀ p ∈ l, p.Fits) →
      l.forM (fun p => (p.intersects? r).map fun _ => ()) = .ok () := by
    intro l hl
    induction l with
    | nil => rfl
    | cons p l ih =>
      rw [List.forM, ByteRange.intersects?_eq_ok (hl p List.mem_cons_self) hr]
      exact ih fun q hq => hl q (List.mem_cons_of_mem p hq)
  rw [receive?, hall _ hs]
  rfl

/-- The list agrees with the history, no range in it is empty, and every one ends with an offset. -/
structure Kept (d : Dealings) : Prop where
  count : ∀ o, d.share.pending.countP (o ∈ ·) = owing o d.deeds
  pos : ∀ p ∈ d.share.pending, 0 < p.length
  fits : ∀ p ∈ d.share.pending, p.Fits

namespace Kept

variable {d : Dealings}

theorem fresh {s : Share} (h : s.pending = []) : Kept ⟨s, []⟩ where
  count o := by rw [h]; rfl
  pos p hp := by rw [h] at hp; exact absurd hp List.not_mem_nil
  fits p hp := by rw [h] at hp; exact absurd hp List.not_mem_nil

/-- What leaves the list alone, and neither clears a byte nor owes one. -/
theorem became (h : Kept d) {a : Act} {share : Share} (hpending : share.pending = d.share.pending)
    (hclears : ∀ o, Deed.clears o ⟨a, none, false⟩ = false) (howes : ∀ o, Deed.owes o ⟨a, none, false⟩ = false) :
    Kept (d.became a share) where
  count o := by
    rw [Dealings.became, owing_snoc, hclears, howes, hpending, h.count]
    rfl
  pos := hpending ▸ h.pos
  fits := hpending ▸ h.fits

theorem request (h : Kept d) (script : Nat → Bool) {r : ByteRange} (hr : r.Fits) : Kept (d.request script r) := by
  have hkept : ∀ answer, Kept ⟨d.share, d.deeds ++ [⟨.request r, answer, false⟩]⟩ := fun answer =>
    { h with count := fun o => by rw [owing_snoc, h.count]; rfl }
  by_cases hask : d.share.mayAsk r
  · cases hyes : script d.asked with
    | false => exact Dealings.request_refused hask hyes ▸ hkept (some false)
    | true =>
      have hpos : 0 < r.length := (mayAsk_iff.1 hask).1
      rw [Dealings.request_granted hask hyes]
      refine ⟨fun o => ?_, fun p hp => ?_, fun p hp => ?_⟩
      · rw [owing_snoc, ← h.count]
        show (d.share.pending ++ [r]).countP _ = _
        rw [List.countP_append, List.countP_singleton]
        rfl
      · rcases List.mem_append.1 hp with hp | hp
        · exact h.pos p hp
        · exact List.mem_singleton.1 hp ▸ hpos
      · rcases List.mem_append.1 hp with hp | hp
        · exact h.fits p hp
        · exact List.mem_singleton.1 hp ▸ hr
  · exact Dealings.request_unasked hask ▸ hkept none

theorem receive (h : Kept d) (r : ByteRange) : Kept (d.became (.receive r) (d.share.receive r)) where
  count o := by
    rw [Dealings.became, owing_snoc, countP_receive, h.count]
    simp [Deed.clears, Deed.owes]
  pos q hq := by
    obtain ⟨p, hp, hq⟩ := List.mem_flatMap.1 hq
    exact pos_of_mem_remainder (h.pos p hp) hq
  fits q hq := by
    obtain ⟨p, hp, hq⟩ := List.mem_flatMap.1 hq
    exact Nat.le_trans (remainder_inside hq).2 (h.fits p hp)

theorem takePending (d : Dealings) : Kept (d.became .takePending d.share.takePending) where
  count o := by
    rw [Dealings.became, owing_snoc]
    rfl
  pos p hp := absurd hp List.not_mem_nil
  fits p hp := absurd hp List.not_mem_nil

/-- Whatever is done next, list and history agree. -/
theorem act (h : Kept d) (script : Nat → Bool) {a : Act} (ha : a.Fits) :
    ∃ e, d.act script a = .ok e ∧ Kept e ∧ ∃ x, e.deeds = d.deeds ++ [x] ∧ x.act = a := by
  cases a with
  | request r => exact ⟨_, rfl, h.request script ha, _, rfl, rfl⟩
  | receive r =>
    refine ⟨_, ?_, h.receive r, _, rfl, rfl⟩
    rw [Dealings.act, receive?_eq_ok ha h.fits]
    rfl
  | start => exact ⟨_, rfl, h.became rfl (fun _ => rfl) (fun _ => rfl), _, rfl, rfl⟩
  | markBroken => exact ⟨_, rfl, h.became rfl (fun _ => rfl) (fun _ => rfl), _, rfl, rfl⟩
  | takePending => exact ⟨_, rfl, Kept.takePending d, _, rfl, rfl⟩

end Kept

theorem Dealings.run_kept (script : Nat → Bool) {s : Share} (hs : s.pending = []) {acts : List Act}
    (h : ∀ a ∈ acts, a.Fits) : ∃ d, run script s acts = .ok d ∧ Kept d ∧ d.deeds.map (·.act) = acts := by
  induction acts using List.reverseRecOn with
  | nil => exact ⟨_, rfl, Kept.fresh hs, rfl⟩
  | append_singleton acts a ih =>
    obtain ⟨d, hrun, hkept, hacts⟩ := ih fun x hx => h x (List.mem_append_left _ hx)
    obtain ⟨e, hact, hkept', x, hdeeds, hx⟩ := hkept.act script (h a (List.mem_append_right _ List.mem_cons_self))
    refine ⟨e, ?_, hkept', ?_⟩
    · rw [run] at hrun
      rw [run, List.foldlM_append, hrun]
      exact (bind_pure _).trans hact
    · rw [hdeeds, List.map_append, hacts, List.map_singleton, hx]

/-- Whatever is done with a new share, and whatever the peer answers, nothing of it is a fault. A byte stands in as many
ranges of the list as there were granted requests of it since the list was last taken and since the byte last arrived,
and no range of the list is empty. The peer is asked for a range only if the share can request and the range has a
byte, and the request is granted exactly if the peer then says yes. -/
theorem pending_told_by_deeds (id : String) (caps : Capabilities) (link budget : Nat) (script : Nat → Bool)
    {acts : List Act} (h : ∀ a ∈ acts, a.Fits) :
    ∃ d, Dealings.run script ((fresh id caps link).withBudget budget) acts = .ok d ∧ d.deeds.map (·.act) = acts ∧
      (∀ o, d.share.pending.countP (o ∈ ·) = owing o d.deeds) ∧ (∀ p ∈ d.share.pending, 0 < p.length) ∧
      ∀ r, ∃ e x, d.act script (.request r) = .ok e ∧ e.deeds = d.deeds ++ [x] ∧ x.act = .request r ∧
        x.answer = (if 0 < r.length ∧ d.share.canRequest then some (script d.asked) else none) ∧
        (x.granted ↔ 0 < r.length ∧ d.share.canRequest ∧ x.answer = some true) := by
  obtain ⟨d, hrun, hkept, hacts⟩ := Dealings.run_kept script (s := (fresh id caps link).withBudget budget) rfl h
  refine ⟨d, hrun, hacts, hkept.count, hkept.pos, fun r => ?_⟩
  obtain ⟨x, hdeeds, hx⟩ := d.request_deed script r
  exact ⟨_, x, rfl, hdeeds, hx⟩

/-- Too early a request, two that overlap, bytes in the midst of both, and a request that the peer declines. -/
def overlapActs : List Act :=
  [.request ⟨0, 5⟩, .start, .request ⟨0, 10⟩, .request ⟨5, 10⟩, .receive ⟨3, 4⟩, .request ⟨4, 2⟩]

theorem overlap_told_by_deeds : (∀ a ∈ overlapActs, a.Fits) ∧
    ∃ d, Dealings.run (· < 2) ((fresh "a" .full 0).withBudget 4) overlapActs = .ok d ∧
      d.share.pending.countP (8 ∈ ·) = 2 ∧ d.share.pending.countP (4 ∈ ·) = 0 ∧ d.share.pending.countP (2 ∈ ·) = 1 ∧
      ∀ p ∈ d.share.pending, 0 < p.length := by
  have h : ∀ a ∈ overlapActs, a.Fits := by decide
  obtain ⟨d, hrun, -, hcount, hpos, -⟩ := pending_told_by_deeds "a" .full 0 4 (· < 2) h
  have hdeeds : d.deeds = [⟨.request ⟨0, 5⟩, none, false⟩, ⟨.start, none, false⟩, ⟨.request ⟨0, 10⟩, some true, true⟩,
      ⟨.request ⟨5, 10⟩, some true, true⟩, ⟨.receive ⟨3, 4⟩, none, false⟩, ⟨.request ⟨4, 2⟩, some false, false⟩] := by
    rw [← Except.ok.inj ((show Dealings.run _ _ _ = .ok _ from rfl).symm.trans hrun)]
    rfl
  refine ⟨h, d, hrun, ?_, ?_, ?_, hpos⟩
  · rw [hcount, hdeeds]; decide
  · rw [hcount, hdeeds]; decide
  · rw [hcount, hdeeds]; decide

end Share

end FileSwarm
