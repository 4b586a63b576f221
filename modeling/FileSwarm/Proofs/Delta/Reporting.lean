import Mathlib.Data.List.Basic
import FileSwarm.Proofs.Delta.Passes

/-!
# What a listener hears

A listener can change the state of the pass with every call, the disk included, and its answers may depend
on anything in that state. To speak of its calls, a second bench notes them beside the state; the passes do
the same there.

* `Bench.Call`, `recorded` : a percentage with the answer to it, and the bench that notes them;
* `Work.Recounts w v Q` : `v` does on the recorded bench what `w` does, and `Q` holds of the calls it notes
  and of what `w` comes to; one rule for the steps with a call (`recounts_report`), without one
  (`recounts_ask`, `recounts_change`), and one after the other (`recounts_bind`);
* `Told low level calls r` : the percentages begin at `low` and never fall, and a refusal is the last call and
  cancels the pass; `Closed` : if the pass returns then it was told of 100 at its very end;
* `told_ensure`, `told_slide`, `told_eachPiece`, `told_copyEach` : the loops that read, scan and copy, each by
  its own recursion: what is reported next is at least what was reached;
* `reports_rise_and_stop` : so it is for every pass.
-/

namespace FileSwarm

theorem percentOf_mono {a b : Nat} (h : a ≤ b) (total : Nat) : percentOf a total ≤ percentOf b total := by
  unfold percentOf
  split
  · exact Nat.le_refl _
  · exact Nat.div_le_div_right (Nat.mul_le_mul_right 100 (by omega))

theorem Failure.ofRead_ne_cancelled (path : String) (cause : Cause) : ofRead path cause ≠ cancelled := by
  cases cause <;> exact nofun

namespace Scanner

theorem read_le_append (s : Scanner) (piece : ByteArray) : s.read ≤ (s.append piece).read := by
  simp only [read, append, ByteArray.size_append]
  omega

theorem read_compact (s : Scanner) {pos : Nat} (h : pos ≤ s.buffer.size) : (s.compact pos h).1.read = s.read := by
  have := s.base_compact h
  have := s.size_compact h
  simp only [read]
  omega

end Scanner

namespace Bench

variable {σ α β : Type}

/-- What a listener was told, and whether it let the pass go on. -/
structure Call where
  percent : Nat
  go : Bool
deriving DecidableEq, Repr

/-- The same bench, with a list of the calls beside the state. -/
def recorded (b : Bench σ) : Bench (σ × List Call) where
  disk s := b.disk s.1
  putDisk d s := (b.putDisk d s.1, s.2)
  listen p s := ((b.listen p s.1).1, (b.listen p s.1).2, s.2 ++ [⟨p, (b.listen p s.1).1⟩])
  granted := b.granted

end Bench

open Bench (Call)

namespace Work

variable {σ α β : Type}

/-- `v`, on a state with a list of calls beside it, does what `w` does without; `Q` holds of the calls that
are added to the list, and of what the two come to. -/
def Recounts (w : Work σ α) (v : Work (σ × List Call) α) (Q : List Call → Except Failure α → Prop) : Prop :=
  ∀ t log, ∃ calls, v.run.run (t, log) = ((w.run.run t).1, (w.run.run t).2, log ++ calls) ∧
    Q calls (w.run.run t).1

theorem recounts_pure {a : α} {Q : List Call → Except Failure α → Prop} (h : Q [] (.ok a)) :
    Recounts (pure a : Work σ α) (pure a) Q :=
  fun t log => ⟨[], by rw [run_pure, run_pure, List.append_nil], h⟩

theorem Recounts.imp {w : Work σ α} {v : Work (σ × List Call) α} {Q R : List Call → Except Failure α → Prop}
    (h : Recounts w v Q) (himp : ∀ calls r, Q calls r → R calls r) : Recounts w v R := by
  intro t log
  obtain ⟨calls, hrun, hq⟩ := h t log
  exact ⟨calls, hrun, himp calls _ hq⟩

/-- The calls of the second part follow those of the first, unless that fails. -/
theorem recounts_bind {w : Work σ α} {v : Work (σ × List Call) α} {f : α → Work σ β}
    {g : α → Work (σ × List Call) β} {Q : List Call → Except Failure α → Prop}
    {Q' : α → List Call → Except Failure β → Prop} {R : List Call → Except Failure β → Prop}
    (hw : Recounts w v Q) (hf : ∀ a, Recounts (f a) (g a) (Q' a))
    (hok : ∀ a calls more r, Q calls (.ok a) → Q' a more r → R (calls ++ more) r)
    (herror : ∀ e calls, Q calls (.error e) → R calls (.error e)) : Recounts (w >>= f) (v >>= g) R := by
  intro t log
  obtain ⟨calls, hrun, hq⟩ := hw t log
  rw [run_bind, run_bind, hrun]
  rcases h : w.run.run t with ⟨e | a, u⟩
  · rw [h] at hq
    exact ⟨calls, rfl, herror e calls hq⟩
  · rw [h] at hq
    obtain ⟨more, hmore, hq'⟩ := hf a u (log ++ calls)
    exact ⟨calls ++ more, by rw [← List.append_assoc]; exact hmore, hok a calls more _ hq hq'⟩

end Work

namespace Bench

open Work

variable {σ α β : Type} {low top total : Nat}

/-! ## Calls in order -/

/-- The calls of a pass that came to `r`: percentages from `low` on, which never fall and stay at or below
`level a` if the pass returned `a`. The listener let the pass go on each time, up to the last call if the pass
was cancelled. -/
structure Told (low : Nat) (level : α → Nat) (calls : List Call) (r : Except Failure α) : Prop where
  within : ∀ c ∈ calls, c.percent ≤ 100
  rising : (low :: calls.map Call.percent).Pairwise (· ≤ ·)
  reached : ∀ a, r = .ok a → ∀ p ∈ low :: calls.map Call.percent, p ≤ level a
  going : r ≠ .error .cancelled → ∀ c ∈ calls, c.go = true
  stopped : r = .error .cancelled → ∃ before p, calls = before ++ [⟨p, false⟩] ∧ ∀ c ∈ before, c.go = true

namespace Told

variable {level : α → Nat} {level' : β → Nat} {calls more : List Call}

theorem silent {r : Except Failure α} (hlevel : ∀ a, r = .ok a → low ≤ level a) (hr : r ≠ .error .cancelled) :
    Told low level [] r where
  within := nofun
  rising := List.pairwise_singleton _ _
  reached a ha p hp := by
    rw [List.map_nil, List.mem_singleton] at hp
    rw [hp]
    exact hlevel a ha
  going _ := nofun
  stopped h := absurd h hr

theorem call {percent : Nat} (hlow : low ≤ percent) (hle : percent ≤ 100) (go : Bool) :
    Told low (fun _ => percent) [⟨percent, go⟩] (if go then .ok () else .error .cancelled) where
  within c hc := by
    rw [List.mem_singleton.1 hc]
    exact hle
  rising := List.pairwise_pair.2 hlow
  reached _ _ p hp := by
    rw [List.map_singleton, List.mem_pair] at hp
    rcases hp with rfl | rfl
    · exact hlow
    · exact Nat.le_refl _
  going hne c hc := by
    rw [List.mem_singleton.1 hc]
    cases go with
    | true => rfl
    | false => exact absurd rfl hne
  stopped hr := by
    cases go with
    | true => exact nomatch hr
    | false => exact ⟨[], percent, rfl, nofun⟩

theorem failed {e : Failure} (h : Told low level calls (.error e)) : Told low level' calls (.error e) where
  within := h.within
  rising := h.rising
  reached := nofun
  going hne := h.going fun he => hne (by rw [Except.error.inj he])
  stopped he := h.stopped (by rw [Except.error.inj he])

theorem append {a : α} {r : Except Failure β} (h : Told low level calls (.ok a)) (h' : Told (level a) level' more r) :
    Told low level' (calls ++ more) r := by
  have hgo := h.going nofun
  have hall := h.reached a rfl
  obtain ⟨hstart, hmore⟩ := List.pairwise_cons.1 h'.rising
  -- what comes later is at least what the first part reached
  have hcross : ∀ p ∈ low :: calls.map Call.percent, ∀ q ∈ more.map Call.percent, p ≤ q :=
    fun p hp q hq => Nat.le_trans (hall p hp) (hstart q hq)
  refine ⟨fun c hc => ?_, ?_, fun b hb p hp => ?_, fun hne c hc => ?_, fun hr => ?_⟩
  · rcases List.mem_append.1 hc with hc | hc
    · exact h.within c hc
    · exact h'.within c hc
  · rw [List.map_append, ← List.cons_append, List.pairwise_append]
    exact ⟨h.rising, hmore, hcross⟩
  · have htop : level a ≤ level' b := h'.reached b hb (level a) List.mem_cons_self
    rw [List.map_append, ← List.cons_append, List.mem_append] at hp
    rcases hp with hp | hp
    · exact Nat.le_trans (hall p hp) htop
    · exact h'.reached b hb p (List.mem_cons_of_mem _ hp)
  · rcases List.mem_append.1 hc with hc | hc
    · exact hgo c hc
    · exact h'.going hne c hc
  · obtain ⟨before, p, rfl, hbefore⟩ := h'.stopped hr
    refine ⟨calls ++ before, p, (List.append_assoc ..).symm, fun c hc => ?_⟩
    rcases List.mem_append.1 hc with hc | hc
    · exact hgo c hc
    · exact hbefore c hc

end Told

/-- If the pass returned then the last it was told of is 100, and what was before is at or below `top`. -/
structure Closed (low top : Nat) (calls : List Call) (r : Except Failure α) : Prop where
  told : Told low (fun _ => 100) calls r
  ended : ∀ a, r = .ok a → ∃ before, calls = before ++ [⟨100, true⟩] ∧ ∀ c ∈ before, c.percent ≤ top

theorem Closed.after {a : α} {r : Except Failure β} {level : α → Nat} {calls more : List Call}
    (h : Told low level calls (.ok a)) (htop : level a ≤ top) (h' : Closed (level a) top more r) :
    Closed low top (calls ++ more) r := by
  refine ⟨h.append h'.told, fun b hb => ?_⟩
  obtain ⟨before, rfl, hbefore⟩ := h'.ended b hb
  refine ⟨calls ++ before, (List.append_assoc ..).symm, fun c hc => ?_⟩
  rcases List.mem_append.1 hc with hc | hc
  · exact Nat.le_trans (h.reached a rfl _ (List.mem_cons_of_mem _ (List.mem_map_of_mem hc))) htop
  · exact hbefore c hc

/-! ## Steps of a pass -/

section Steps

variable {b : Bench σ} {level : α → Nat} {level' : β → Nat}

theorem told_pure {a : α} (h : low ≤ level a) : Recounts (pure a : Work σ α) (pure a) (Told low level) :=
  recounts_pure (Told.silent (by rintro _ ⟨⟩; exact h) nofun)

theorem recounts_ask (path : String) (f : Disk → Except Cause α) :
    Recounts (b.ask path f) (b.recorded.ask path f) (Told low fun _ => low) := by
  intro t log
  rw [run_ask, run_ask]
  refine ⟨[], by rw [List.append_nil]; rfl, Told.silent (fun _ _ => Nat.le_refl _) ?_⟩
  dsimp only
  cases f (b.disk t) with
  | ok a => exact nofun
  | error cause => exact fun h => Failure.ofRead_ne_cancelled path cause (Except.error.inj h)

theorem recounts_change (path : String) (f : Disk → Except Cause Disk) :
    Recounts (b.change path f) (b.recorded.change path f) (Told low fun _ => low) := by
  intro t log
  have hdisk : b.recorded.disk (t, log) = b.disk t := rfl
  rw [run_change, run_change, hdisk]
  refine ⟨[], ?_, Told.silent (fun _ _ => Nat.le_refl _) ?_⟩
  · rw [List.append_nil]
    cases f (b.disk t) <;> rfl
  · cases f (b.disk t) <;> exact nofun

/-- One call, and the pass goes on exactly if the listener says so. -/
theorem recounts_report (percent : Nat) : Recounts (b.report percent) (b.recorded.report percent)
    fun calls r => ∃ go, calls = [⟨percent, go⟩] ∧ r = if go then .ok () else .error .cancelled := by
  intro t log
  rw [run_report, run_report]
  exact ⟨[⟨percent, (b.listen percent t).1⟩], rfl, _, rfl, rfl⟩

theorem told_report {percent : Nat} (hlow : low ≤ percent) (hle : percent ≤ 100) :
    Recounts (b.report percent) (b.recorded.report percent) (Told low fun _ => percent) := by
  refine (recounts_report percent).imp ?_
  rintro _ _ ⟨go, rfl, rfl⟩
  exact Told.call hlow hle go

theorem told_bind {w : Work σ α} {v : Work (σ × List Call) α} {f : α → Work σ β} {g : α → Work (σ × List Call) β}
    (hw : Recounts w v (Told low level)) (hf : ∀ a, Recounts (f a) (g a) (Told (level a) level')) :
    Recounts (w >>= f) (v >>= g) (Told low level') :=
  recounts_bind hw hf (fun _ _ _ _ h h' => h.append h') fun _ _ h => h.failed

theorem closed_bind {w : Work σ α} {v : Work (σ × List Call) α} {f : α → Work σ β} {g : α → Work (σ × List Call) β}
    (hw : Recounts w v (Told low level)) (htop : ∀ a, level a ≤ top)
    (hf : ∀ a, Recounts (f a) (g a) (Closed (level a) top)) : Recounts (w >>= f) (v >>= g) (Closed low top) :=
  recounts_bind hw hf (fun a _ _ _ h h' => Closed.after h (htop a) h') fun _ _ h => ⟨h.failed, nofun⟩

theorem closed_report (hlow : low ≤ 100) (a : α) :
    Recounts (do b.report 100; return a) (do b.recorded.report 100; return a) (Closed low top) := by
  refine recounts_bind (recounts_report 100)
    (fun _ => recounts_pure (Q := fun more r => more = [] ∧ r = .ok a) ⟨rfl, rfl⟩) ?_ ?_
  · rintro ⟨⟩ calls more r ⟨go, rfl, hgo⟩ ⟨rfl, rfl⟩
    cases go with
    | false => exact nomatch hgo
    | true =>
      refine ⟨?_, fun _ _ => ⟨[], rfl, nofun⟩⟩
      have hcall := Told.call hlow (Nat.le_refl 100) true
      exact hcall.append (Told.silent (fun _ _ => Nat.le_refl 100) nofun)
  · rintro e calls ⟨go, rfl, hgo⟩
    cases go with
    | true => exact nomatch hgo
    | false =>
      rw [Except.error.inj hgo]
      exact ⟨(Told.call hlow (Nat.le_refl 100) false).failed, nofun⟩

end Steps

/-! ## The loops -/

variable {b : Bench σ}

/-- How far a scanner is, as its pass reports it; where there is none the file is read to its end. -/
def scanned {base length : Nat} (total : Nat) (u : Option (Scanner.Loaded base length)) : Nat :=
  match u with
  | none => 99
  | some u => min (percentOf u.scanner.read total) 99

theorem told_ensure (path : String) (file : Handle) (total length : Nat) (s : Scanner)
    (hlow : low ≤ min (percentOf s.read total) 99) :
    Recounts (b.ensure path file total length s) (b.recorded.ensure path file total length s)
      (Told low (scanned total)) := by
  induction s using Bench.ensure.induct length generalizing low with
  | case1 s hlength =>
    rw [ensure, ensure, dif_pos hlength, dif_pos hlength]
    exact told_pure hlow
  | case2 s hlength heof =>
    rw [ensure, ensure, dif_neg hlength, dif_pos heof, dif_neg hlength, dif_pos heof]
    exact told_pure (Nat.le_trans hlow (Nat.min_le_right _ _))
  | case3 s hlength heof ih =>
    rw [ensure, ensure, dif_neg hlength, dif_neg heof, dif_neg hlength, dif_neg heof]
    refine told_bind (recounts_ask _ _) fun piece => ?_
    have hnext := percentOf_mono (s.read_le_append piece) total
    exact told_bind (told_report (by omega) (by omega)) fun _ => ih piece (Nat.le_refl _)

/-- The scan over the windows tells of 99 at most. -/
theorem told_slide (path : String) (file : Handle) (total : Nat) (table : Table) (width : Nat) (s : Scanner)
    (pos : Nat) (hfit : pos + width ≤ s.buffer.size) (sum : RollingSum) (found : Array BlockMatch)
    (hlow : low ≤ min (percentOf s.read total) 99) :
    Recounts (b.slide path file total table width s pos hfit sum found)
      (b.recorded.slide path file total table width s pos hfit sum found) (Told low fun _ => 99) := by
  have hlow' : low ≤ 99 := Nat.le_trans hlow (Nat.min_le_right _ _)
  induction hk : Disk.seekLimit - (s.base + pos) using Nat.strongRecOn generalizing s pos sum found low with
  | _ k ih =>
    subst hk
    rw [slide, slide]
    split
    · next hgo =>
      split
      · refine told_bind (told_ensure _ _ _ _ _ hlow) fun u => ?_
        cases u with
        | none => exact told_pure (Nat.le_refl _)
        | some u =>
          have hmore : pos + width + 1 ≤ u.scanner.buffer.size := u.length_le
          have hpos : pos + 1 ≤ u.scanner.buffer.size := by omega
          have hplace := u.scanner.base_compact hpos
          rw [u.base_eq] at hplace
          refine ih _ (by omega) _ _ _ _ _ ?_ (Nat.min_le_right _ _) rfl
          rw [u.scanner.read_compact hpos]
          exact Nat.le_refl _
      · split
        · rw [windows, windows]
          have hread := s.read_compact (show pos + width ≤ s.buffer.size from hfit)
          refine told_bind (told_ensure _ _ _ _ _ (by rw [hread]; exact hlow)) fun u => ?_
          cases u with
          | none => exact told_pure (Nat.le_refl _)
          | some u =>
            have hplace := s.base_compact hfit
            exact ih _ (by rw [u.base_eq]; omega) _ _ _ _ _ (Nat.le_refl _) (Nat.min_le_right _ _) rfl
        · exact told_pure hlow'
    · exact told_pure hlow'

theorem told_windows (path : String) (file : Handle) (total : Nat) (table : Table) (width : Nat) (s : Scanner)
    (pos : Nat) (found : Array BlockMatch) :
    Recounts (b.windows path file total table width s pos found)
      (b.recorded.windows path file total table width s pos found) (Told 0 fun _ => 99) := by
  rw [windows, windows]
  refine told_bind (told_ensure _ _ _ _ _ (Nat.zero_le _)) fun u => ?_
  cases u with
  | none => exact told_pure (Nat.le_refl _)
  | some u => exact told_slide _ _ _ _ _ _ _ _ _ _ (Nat.le_refl _)

theorem told_matchTail (path : String) (h : Handle) (total : Nat) (s : Signature) :
    Recounts (b.matchTail path h total s) (b.recorded.matchTail path h total s) (Told low fun _ => low) := by
  unfold matchTail
  split
  · exact told_pure (Nat.le_refl _)
  · dsimp only
    split
    · exact told_pure (Nat.le_refl _)
    · refine told_bind (recounts_ask _ _) fun bytes => ?_
      split <;> exact told_pure (Nat.le_refl _)

theorem told_eachPiece (path : String) (h : Handle) (total : Nat) (f : β → ByteArray → β) (acc : β) (offset : Nat)
    (hlow : low ≤ percentOf offset total) :
    Recounts (b.eachPiece path h total f acc offset) (b.recorded.eachPiece path h total f acc offset)
      (Told low fun _ => 100) := by
  induction hk : Disk.seekLimit - offset using Nat.strongRecOn generalizing acc offset low with
  | _ k ih =>
    subst hk
    have hlow' : low ≤ 100 := Nat.le_trans hlow (percentOf_le _ _)
    rw [eachPiece, eachPiece]
    refine told_bind (recounts_ask _ _) fun piece => ?_
    split
    · have hnext := percentOf_mono (Nat.le_add_right offset piece.size) total
      refine told_bind (told_report (Nat.le_trans hlow hnext) (percentOf_le _ _)) fun _ => ?_
      exact ih _ (by omega) _ _ (Nat.le_refl _) rfl
    · exact told_pure hlow'

theorem told_copyEach (source : String) (origin : Handle) (target : String) (into : Handle) (s : Signature)
    (total done : Nat) (parts : PartMap) (l : List BlockMatch) (hlow : low ≤ percentOf done total) :
    Recounts (b.copyEach source origin target into s total done parts l)
      (b.recorded.copyEach source origin target into s total done parts l) (Told low fun _ => 100) := by
  induction l generalizing done parts low with
  | nil => exact told_pure (Nat.le_trans hlow (percentOf_le _ _))
  | cons m l ih =>
    have hnext := percentOf_mono (Nat.le_succ done) total
    unfold copyEach
    dsimp only
    split
    · exact ih _ _ (Nat.le_trans hlow hnext)
    · refine told_bind (recounts_ask _ _) fun bytes => told_bind (recounts_change _ _) fun _ => ?_
      exact told_bind (told_report (Nat.le_trans hlow hnext) (percentOf_le _ _)) fun _ => ih _ _ (Nat.le_refl _)

/-! ## The passes -/

theorem closed_findMatches (path : String) (s : Signature) :
    Recounts (b.findMatches path s) (b.recorded.findMatches path s) (Closed 0 99) := by
  unfold findMatches
  have hrest : ∀ (h : Handle) (total low : Nat) (found : Array BlockMatch), low ≤ 99 → Recounts (do
      let tail ← b.matchTail path h total s
      b.report 100
      return (found.toList ++ tail.toList).mergeSort BlockMatch.le) (do
      let tail ← b.recorded.matchTail path h total s
      b.recorded.report 100
      return (found.toList ++ tail.toList).mergeSort BlockMatch.le) (Closed low 99) := by
    intro h total low found hlow
    exact closed_bind (told_matchTail _ _ _ _) (fun _ => hlow) fun tail => closed_report (by omega) _
  refine closed_bind (recounts_ask _ _) (fun _ => Nat.zero_le _) fun h => ?_
  refine closed_bind (recounts_ask _ _) (fun _ => Nat.zero_le _) fun total => ?_
  dsimp only
  split
  · exact closed_bind (told_pure (Nat.zero_le 99)) (fun _ => Nat.le_refl 99) fun found => hrest _ _ _ _ (Nat.le_refl _)
  · exact closed_bind (told_windows _ _ _ _ _ _ _ _) (fun _ => Nat.le_refl 99) fun found =>
      hrest _ _ _ _ (Nat.le_refl _)

theorem closed_copyMatches (source target : String) (into : Handle) (s : Signature) (matched : List BlockMatch) :
    Recounts (b.copyMatches source target into s matched) (b.recorded.copyMatches source target into s matched)
      (Closed 0 100) := by
  unfold copyMatches
  refine closed_bind (recounts_change _ _) (fun _ => Nat.zero_le _) fun _ => ?_
  dsimp only
  split
  · exact closed_report (Nat.zero_le _) _
  · refine closed_bind (recounts_ask _ _) (fun _ => Nat.zero_le _) fun origin => ?_
    refine closed_bind (told_copyEach _ _ _ _ _ _ _ _ _ (Nat.zero_le _)) (fun _ => Nat.le_refl _) fun parts => ?_
    exact closed_report (Nat.le_refl _) _

theorem told_signFile (path : String) (blockLength : Nat) :
    Recounts (b.signFile path blockLength) (b.recorded.signFile path blockLength) (Told 0 fun _ => 100) := by
  refine told_bind (recounts_ask _ _) fun h => told_bind (recounts_ask _ _) fun total => ?_
  exact told_bind (told_eachPiece _ _ _ _ _ _ (Nat.zero_le _)) fun _ => told_pure (Nat.le_refl _)

theorem told_hashFile (path : String) :
    Recounts (b.hashFile path) (b.recorded.hashFile path) (Told 0 fun _ => 100) := by
  refine told_bind (recounts_ask _ _) fun h => told_bind (recounts_ask _ _) fun total => ?_
  exact told_bind (told_eachPiece _ _ _ _ _ _ (Nat.zero_le _)) fun _ => told_pure (Nat.le_refl _)

/-! ## What a listener may rely on -/

/-- The pass `w`, begun in the state `t`, makes these calls. -/
def Hears (w : Work σ α) (v : Work (σ × List Call) α) (t : σ) (calls : List Call) : Prop :=
  v.run.run (t, []) = ((w.run.run t).1, (w.run.run t).2, calls)

/-- The calls of a pass that came to `r`, as its listener wants them: no percentage is above 100 or below the
one before, and the first refusal is the last call, exactly if the pass was cancelled. -/
structure Heeded (calls : List Call) (r : Except Failure α) : Prop where
  within : ∀ c ∈ calls, c.percent ≤ 100
  rising : (calls.map Call.percent).Pairwise (· ≤ ·)
  refused : ∀ before c after, calls = before ++ c :: after → c.go = false → after = [] ∧ r = .error .cancelled
  cancelled : r = .error .cancelled → ∃ before p, calls = before ++ [⟨p, false⟩]

theorem Told.heeded {level : α → Nat} {calls : List Call} {r : Except Failure α} (h : Told low level calls r) :
    Heeded calls r where
  within := h.within
  rising := (List.pairwise_cons.1 h.rising).2
  refused before c after hcalls hgo := by
    by_cases hr : r = .error .cancelled
    · refine ⟨?_, hr⟩
      obtain ⟨front, p, hfront, hall⟩ := h.stopped hr
      rcases List.eq_nil_or_concat after with rfl | ⟨middle, last, rfl⟩
      · rfl
      -- a refusal before the last call would be among those that let the pass go on
      have hsplit : before ++ c :: middle = front := by
        rw [hfront, List.concat_eq_append, ← List.cons_append, ← List.append_assoc] at hcalls
        exact (List.append_inj' hcalls rfl).1.symm
      have hc : c ∈ front := hsplit ▸ List.mem_append_right _ List.mem_cons_self
      exact absurd (hall c hc) (by rw [hgo]; exact Bool.false_ne_true)
    · have hc : c ∈ calls := hcalls ▸ List.mem_append_right _ List.mem_cons_self
      exact absurd (h.going hr c hc) (by rw [hgo]; exact Bool.false_ne_true)
  cancelled hr := by
    obtain ⟨before, p, hcalls, -⟩ := h.stopped hr
    exact ⟨before, p, hcalls⟩

theorem Closed.count_eq_one {calls : List Call} {r : Except Failure α} {a : α} (h : Closed low 99 calls r)
    (ha : r = .ok a) : (calls.map Call.percent).count 100 = 1 := by
  obtain ⟨before, rfl, hbefore⟩ := h.ended a ha
  have hnone : (before.map Call.percent).count 100 = 0 := by
    refine List.count_eq_zero.2 fun hmem => ?_
    obtain ⟨c, hc, hpercent⟩ := List.mem_map.1 hmem
    exact absurd (hbefore c hc) (by omega)
  rw [List.map_append, List.count_append, hnone]
  rfl

theorem Closed.last {calls : List Call} {r : Except Failure α} {a : α} (h : Closed low top calls r)
    (ha : r = .ok a) : calls.getLast? = some ⟨100, true⟩ := by
  obtain ⟨before, rfl, -⟩ := h.ended a ha
  exact List.getLast?_concat

/-- Whatever the listener answers and does with each call, whatever the files, the signature and the list of
matches: the percentages of a scan, a copy, a signing and a hashing are at most 100 and never fall, and the first
refusal is the last call and cancels the pass, which nothing else does. A scan or copy that returns has told of
100 last, and the scan only then. -/
theorem reports_rise_and_stop (b : Bench σ) (t : σ) :
    (∀ path s, ∃ calls, Hears (b.findMatches path s) (b.recorded.findMatches path s) t calls ∧
      Heeded calls ((b.findMatches path s).run.run t).1 ∧
      ∀ found, ((b.findMatches path s).run.run t).1 = .ok found →
        calls.getLast? = some ⟨100, true⟩ ∧ (calls.map Call.percent).count 100 = 1) ∧
    (∀ source target into s matched, ∃ calls,
      Hears (b.copyMatches source target into s matched) (b.recorded.copyMatches source target into s matched) t calls ∧
      Heeded calls ((b.copyMatches source target into s matched).run.run t).1 ∧
      ∀ parts, ((b.copyMatches source target into s matched).run.run t).1 = .ok parts →
        calls.getLast? = some ⟨100, true⟩) ∧
    (∀ path blockLength, ∃ calls, Hears (b.signFile path blockLength) (b.recorded.signFile path blockLength) t calls ∧
      Heeded calls ((b.signFile path blockLength).run.run t).1) ∧
    (∀ path, ∃ calls, Hears (b.hashFile path) (b.recorded.hashFile path) t calls ∧
      Heeded calls ((b.hashFile path).run.run t).1) := by
  refine ⟨fun path s => ?_, fun source target into s matched => ?_, fun path blockLength => ?_, fun path => ?_⟩
  · obtain ⟨calls, hrun, hcalls⟩ := closed_findMatches (b := b) path s t []
    exact ⟨calls, hrun, hcalls.told.heeded, fun found hfound => ⟨hcalls.last hfound, hcalls.count_eq_one hfound⟩⟩
  · obtain ⟨calls, hrun, hcalls⟩ := closed_copyMatches (b := b) source target into s matched t []
    exact ⟨calls, hrun, hcalls.told.heeded, fun parts hparts => hcalls.last hparts⟩
  · obtain ⟨calls, hrun, hcalls⟩ := told_signFile (b := b) path blockLength t []
    exact ⟨calls, hrun, hcalls.heeded⟩
  · obtain ⟨calls, hrun, hcalls⟩ := told_hashFile (b := b) path t []
    exact ⟨calls, hrun, hcalls.heeded⟩

end Bench

end FileSwarm
