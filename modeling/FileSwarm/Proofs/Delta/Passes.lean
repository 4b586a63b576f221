import FileSwarm.Delta.Copying
import FileSwarm.Delta.Reading
import FileSwarm.Proofs.Disk.Nodes
import FileSwarm.Proofs.Signature.Builder

/-!
# Passes step by step

* `Work.run_bind` : a pass goes on with what its first part returned, or ends where that failed;
* `Work.Carries P E w` : whatever `w` returns, `P` still holds of the state, and if `w` fails then `E` of the
  failure; one rule for each step (`carries_bind`, `carries_ask`, `carries_change`, `carries_report`);
  `Work.Returns w Q` : `Q` holds of what `w` returns, whatever the state was;
* `Bench.Still` : a listener that changes nothing; `Bench.Patient` : one that also never says stop;
* `Bench.Grants b P E` : what a pass can fail from satisfies `E`; `Still.heedless` : where any failure may happen;
  `Still.willing_grants` : where nobody says stop;
* `Bench.Yields b w P Q` : `w` leaves `P` true of the state, `Q` holds of what it returns, and it does
  return if the listener never says stop; one rule for each step (`yields_bind`, `yields_ask`,
  `yields_report`, `yields_read`);
* `eachPiece_spec` : reading to the end of a file, with an invariant of the bytes read so far;
* `verifyFile_spec`, `signFile_spec` : what is hashed is the file's content, and what is signed are its bytes.
-/

namespace FileSwarm

theorem Disk.size_of_readExact {d : Disk} {h : Handle} {offset length : Nat} {bytes : ByteArray}
    (hr : d.readExact h offset length = .ok bytes) : bytes.size = length := by
  simp only [readExact, bind, Except.bind, pure, Except.pure, throw, throwThe, MonadExceptOf.throw] at hr
  split at hr
  · cases hr
  · split at hr
    · next hz => cases hr; exact hz.symm
    · split at hr
      · cases hr
      · split at hr
        · next hsize => cases hr; exact hsize
        · cases hr

theorem Signature.blockRange_bounds (s : Signature) (i : UInt64) :
    (s.blockRange i).length = 0 ∨
      (s.blockRange i).start + (s.blockRange i).length ≤ s.fileLength.toNat := by
  simp only [blockRange, ByteRange.ofBounds]
  omega

namespace Work

variable {σ α β : Type}

theorem run_bind (w : Work σ α) (f : α → Work σ β) (s : σ) :
    (w >>= f).run.run s = match w.run.run s with
      | (.ok a, t) => (f a).run.run t
      | (.error e, t) => (.error e, t) := by
  rw [ExceptT.run_bind, StateT.run_bind]
  rcases w.run.run s with ⟨_ | a, t⟩ <;> rfl

@[simp] theorem run_pure (a : α) (s : σ) : (pure a : Work σ α).run.run s = (.ok a, s) := rfl

theorem run_bind_ok {w : Work σ α} {f : α → Work σ β} {s t : σ} {a : α}
    (h : w.run.run s = (.ok a, t)) : (w >>= f).run.run s = (f a).run.run t := by
  rw [run_bind, h]

/-- `P` holds of the state after the pass, also if that fails, and `E` of the failure. -/
def Carries (P : σ → Prop) (E : Failure → Prop) (w : Work σ α) : Prop :=
  ∀ s, P s → P (w.run.run s).2 ∧ ∀ f, (w.run.run s).1 = .error f → E f

section Carries

variable {P : σ → Prop} {E : Failure → Prop}

theorem carries_pure (a : α) : Carries P E (pure a : Work σ α) := fun _ h => ⟨h, nofun⟩

theorem carries_bind {w : Work σ α} {f : α → Work σ β} (hw : Carries P E w) (hf : ∀ a, Carries P E (f a)) :
    Carries P E (w >>= f) := by
  intro s hs
  obtain ⟨ht, he⟩ := hw s hs
  rw [run_bind]
  rcases h : w.run.run s with ⟨e | a, t⟩
  · rw [h] at ht he
    exact ⟨ht, fun f hf => Except.error.inj hf ▸ he e rfl⟩
  · rw [h] at ht
    exact hf a t ht

end Carries

/-- Whatever `w` returns, if it returns, satisfies `Q`. -/
def Returns (w : Work σ α) (Q : α → Prop) : Prop := ∀ s a, (w.run.run s).1 = .ok a → Q a

theorem returns_any (w : Work σ α) : Returns w fun _ => True := fun _ _ _ => trivial

theorem returns_pure {a : α} {Q : α → Prop} (h : Q a) : Returns (pure a : Work σ α) Q :=
  fun _ _ ha => Except.ok.inj ha ▸ h

theorem returns_bind {w : Work σ α} {f : α → Work σ β} {Q : α → Prop} {R : β → Prop} (hw : Returns w Q)
    (hf : ∀ a, Q a → Returns (f a) R) : Returns (w >>= f) R := by
  intro s b hb
  rw [run_bind] at hb
  rcases h : w.run.run s with ⟨e | a, t⟩
  · rw [h] at hb
    exact nomatch hb
  · rw [h] at hb
    exact hf a (hw s a (by rw [h])) t b hb

end Work

namespace Bench

open Work

variable {σ α β : Type} {b : Bench σ} {P : σ → Prop}

/-- The listener changes nothing. -/
def Still (b : Bench σ) : Prop := ∀ p s, (b.listen p s).2 = s

/-- The listener changes nothing and never says stop in the state `s`. -/
def Patient (b : Bench σ) (s : σ) : Prop := ∀ p, b.listen p s = (true, s)

/-- The listener never says stop where `P` holds. -/
def Willing (b : Bench σ) (P : σ → Prop) : Prop := ∀ p s, P s → (b.listen p s).1

theorem quiet_still : quiet.Still := fun _ _ => rfl

theorem quiet_patient (d : Disk) : quiet.Patient d := fun _ => rfl

theorem run_ask (path : String) (f : Disk → Except Cause α) (s : σ) :
    (b.ask path f).run.run s = (match f (b.disk s) with
      | .ok a => .ok a
      | .error cause => .error (.ofRead path cause), s) := by
  unfold ask
  rw [run_bind]
  show ((match f (b.disk s) with
    | .ok a => return a
    | .error cause => throw (.ofRead path cause) : Work σ α)).run.run s = _
  cases f (b.disk s) <;> rfl

theorem run_ask_ok {path : String} {f : Disk → Except Cause α} {s : σ} {a : α}
    (h : f (b.disk s) = .ok a) : (b.ask path f).run.run s = (.ok a, s) := by
  rw [run_ask, h]

theorem run_change (path : String) (f : Disk → Except Cause Disk) (s : σ) :
    (b.change path f).run.run s = match f (b.disk s) with
      | .ok d => (.ok (), b.putDisk d s)
      | .error cause => (.error (.write path cause), s) := by
  unfold change
  rw [run_bind]
  show ((match f (b.disk s) with
    | .ok d => modify (b.putDisk d)
    | .error cause => throw (.write path cause) : Work σ Unit)).run.run s = _
  cases f (b.disk s) <;> rfl

theorem run_change_ok {path : String} {f : Disk → Except Cause Disk} {s : σ} {d : Disk}
    (h : f (b.disk s) = .ok d) : (b.change path f).run.run s = (.ok (), b.putDisk d s) := by
  rw [run_change, h]

theorem run_report (percent : Nat) (s : σ) :
    (b.report percent).run.run s =
      (if (b.listen percent s).1 then .ok () else .error .cancelled, (b.listen percent s).2) := by
  unfold report
  rw [run_bind]
  show ((do set (b.listen percent s).2; unless (b.listen percent s).1 do throw .cancelled :
    Work σ Unit)).run.run s = _
  cases (b.listen percent s).1 <;> rfl

theorem run_report_ok {percent : Nat} {s : σ} (h : b.Patient s) :
    (b.report percent).run.run s = (.ok (), s) := by
  rw [run_report, h]
  rfl

/-- The listener changes nothing, and `E` holds of whatever a pass can fail from where `P` holds. -/
structure Grants (b : Bench σ) (P : σ → Prop) (E : Failure → Prop) : Prop where
  still : b.Still
  read : ∀ path cause, E (.ofRead path cause)
  write : ∀ path cause, E (.write path cause)
  stop : ∀ p s, P s → (b.listen p s).1 = false → E .cancelled

theorem Still.heedless (hb : b.Still) : b.Grants P fun _ => True :=
  ⟨hb, fun _ _ => trivial, fun _ _ => trivial, fun _ _ _ _ => trivial⟩

/-- No pass is cancelled if the listener never says stop. -/
theorem Still.willing_grants (hb : b.Still) (h : b.Willing P) : b.Grants P (· ≠ .cancelled) := by
  refine ⟨hb, fun path cause => ?_, fun _ _ => nofun, fun p s hs hstop => ?_⟩
  · cases cause <;> exact nofun
  · rw [h p s hs] at hstop
    exact nomatch hstop

section Carries

variable {E : Failure → Prop}

theorem carries_ask (hb : b.Grants P E) (path : String) (f : Disk → Except Cause α) :
    Carries P E (b.ask path f) := by
  intro s hs
  rw [run_ask]
  cases f (b.disk s) with
  | error cause => exact ⟨hs, fun e he => Except.error.inj he ▸ hb.read path cause⟩
  | ok a => exact ⟨hs, nofun⟩

theorem carries_change (hb : b.Grants P E) {path : String} {f : Disk → Except Cause Disk}
    (h : ∀ s d, P s → f (b.disk s) = .ok d → P (b.putDisk d s)) : Carries P E (b.change path f) := by
  intro s hs
  rw [run_change]
  cases hf : f (b.disk s) with
  | error cause => exact ⟨hs, fun e he => Except.error.inj he ▸ hb.write path cause⟩
  | ok d => exact ⟨h s d hs hf, nofun⟩

theorem carries_report (hb : b.Grants P E) (percent : Nat) : Carries P E (b.report percent) := by
  intro s hs
  rw [run_report, hb.still]
  refine ⟨hs, fun e he => ?_⟩
  dsimp only at he
  split at he
  · exact nomatch he
  · next hstop => exact Except.error.inj he ▸ hb.stop percent s hs (by simpa using hstop)

theorem carries_ensure (hb : b.Grants P E) (path : String) (file : Handle) (total length : Nat) (s : Scanner) :
    Carries P E (b.ensure path file total length s) := by
  induction s using Bench.ensure.induct length with
  | case1 s hlength =>
    rw [ensure, dif_pos hlength]
    exact carries_pure _
  | case2 s hlength heof =>
    rw [ensure, dif_neg hlength, dif_pos heof]
    exact carries_pure _
  | case3 s hlength heof ih =>
    rw [ensure, dif_neg hlength, dif_neg heof]
    exact carries_bind (carries_ask hb _ _) fun piece => carries_bind (carries_report hb _) fun _ => ih piece

theorem carries_slide (hb : b.Grants P E) (path : String) (file : Handle) (total : Nat) (table : Table) (width : Nat)
    (s : Scanner) (pos : Nat) (hfit : pos + width ≤ s.buffer.size) (sum : RollingSum) (found : Array BlockMatch) :
    Carries P E (b.slide path file total table width s pos hfit sum found) := by
  induction hk : Disk.seekLimit - (s.base + pos) using Nat.strongRecOn generalizing s pos sum found with
  | _ k ih =>
    subst hk
    rw [slide]
    split
    · next hgo =>
      split
      · refine carries_bind (carries_ensure hb _ _ _ _ _) fun u => ?_
        cases u with
        | none => exact carries_pure _
        | some u =>
          have hmore : pos + width + 1 ≤ u.scanner.buffer.size := u.length_le
          have hplace := u.scanner.base_compact (show pos + 1 ≤ u.scanner.buffer.size by omega)
          rw [u.base_eq] at hplace
          exact ih _ (by omega) _ _ _ _ _ rfl
      · split
        · rw [windows]
          refine carries_bind (carries_ensure hb _ _ _ _ _) fun u => ?_
          cases u with
          | none => exact carries_pure _
          | some u =>
            have hplace := s.base_compact hfit
            exact ih _ (by rw [u.base_eq]; omega) _ _ _ _ _ rfl
        · exact carries_pure _
    · exact carries_pure _

theorem carries_windows (hb : b.Grants P E) (path : String) (file : Handle) (total : Nat) (table : Table) (width : Nat)
    (s : Scanner) (pos : Nat) (found : Array BlockMatch) :
    Carries P E (b.windows path file total table width s pos found) := by
  rw [windows]
  refine carries_bind (carries_ensure hb _ _ _ _ _) fun u => ?_
  match u with
  | none => exact carries_pure _
  | some u => exact carries_slide hb _ _ _ _ _ _ _ _ _ _

theorem carries_matchTail (hb : b.Grants P E) (path : String) (h : Handle) (total : Nat) (s : Signature) :
    Carries P E (b.matchTail path h total s) := by
  unfold matchTail
  split
  · exact carries_pure _
  · dsimp only
    split
    · exact carries_pure _
    · refine carries_bind (carries_ask hb _ _) fun bytes => ?_
      split <;> exact carries_pure _

theorem carries_findMatches (hb : b.Grants P E) (path : String) (s : Signature) :
    Carries P E (b.findMatches path s) := by
  unfold findMatches
  refine carries_bind (carries_ask hb _ _) fun h => carries_bind (carries_ask hb _ _) fun total => ?_
  have hrest : ∀ found : Array BlockMatch, Carries P E (do
      let tail ← b.matchTail path h total s
      b.report 100
      return (found.toList ++ tail.toList).mergeSort BlockMatch.le) := fun found =>
    carries_bind (carries_matchTail hb _ _ _ _) fun tail =>
      carries_bind (carries_report hb _) fun _ => carries_pure _
  dsimp only
  split
  · exact carries_bind (carries_pure _) hrest
  · exact carries_bind (carries_windows hb _ _ _ _ _ _ _ _) hrest

theorem carries_eachPiece (hb : b.Grants P E) (path : String) (h : Handle) (total : Nat) (f : β → ByteArray → β)
    (acc : β) (offset : Nat) : Carries P E (b.eachPiece path h total f acc offset) := by
  induction hk : Disk.seekLimit - offset using Nat.strongRecOn generalizing acc offset with
  | _ k ih =>
    subst hk
    rw [eachPiece]
    refine carries_bind (carries_ask hb _ _) fun piece => ?_
    split
    · exact carries_bind (carries_report hb _) fun _ => ih _ (by omega) _ _ rfl
    · exact carries_pure _

theorem carries_verifyFile (hb : b.Grants P E) (path : String) (expected : Digest) :
    Carries P E (b.verifyFile path expected) := by
  refine carries_bind ?_ fun _ => carries_pure _
  refine carries_bind (carries_ask hb _ _) fun h => carries_bind (carries_ask hb _ _) fun total => ?_
  exact carries_bind (carries_eachPiece hb _ _ _ _ _ _) fun _ => carries_pure _

/-- Copying blocks keeps what no change of length and no write inside the file breaks. -/
theorem carries_copyMatches (hb : b.Grants P E) {source target : String} {into : Handle} {s : Signature}
    (hlen : ∀ c d, P c → (b.disk c).setLength into s.fileLength.toNat = .ok d → P (b.putDisk d c))
    (hwrite : ∀ c d offset bytes, P c → bytes.size = 0 ∨ offset + bytes.size ≤ s.fileLength.toNat →
      (b.disk c).writeAt into offset bytes = .ok d → P (b.putDisk d c))
    (matched : List BlockMatch) : Carries P E (b.copyMatches source target into s matched) := by
  have heach : ∀ (origin : Handle) (total done : Nat) (parts : PartMap) (l : List BlockMatch),
      Carries P E (b.copyEach source origin target into s total done parts l) := by
    intro origin total done parts l
    induction l generalizing done parts with
    | nil => exact carries_pure _
    | cons m l ih =>
      unfold copyEach
      dsimp only
      split
      · exact ih _ _
      · refine fun c hc => ?_
        rw [run_bind, run_ask]
        cases hread : (b.disk c).readExact origin m.place.start (s.blockRange m.index).length with
        | error cause => exact ⟨hc, fun f hf => Except.error.inj hf ▸ hb.read source cause⟩
        | ok bytes =>
          refine carries_bind (carries_change hb fun c d hc hd => hwrite c d _ bytes hc ?_ hd)
            (fun _ => carries_bind (carries_report hb _) fun _ => ih _ _) c hc
          rw [Disk.size_of_readExact hread]
          exact s.blockRange_bounds m.index
  unfold copyMatches
  refine carries_bind (carries_change hb hlen) fun _ => ?_
  dsimp only
  split
  · exact carries_bind (carries_report hb _) fun _ => carries_pure _
  · refine carries_bind (carries_ask hb _ _) fun origin => carries_bind (heach _ _ _ _ _) fun parts => ?_
    exact carries_bind (carries_report hb _) fun _ => carries_pure _

end Carries

/-! ## What passes come to -/

/-- The listener leaves `P` alone. -/
def Steady (b : Bench σ) (P : σ → Prop) : Prop := ∀ p s, P s → P (b.listen p s).2

theorem Still.steady (hb : b.Still) : b.Steady P := fun p s h => by rwa [hb p s]

theorem Patient.willing {s : σ} (h : b.Patient s) : b.Willing (· = s) := by
  rintro p _ rfl
  rw [h p]

/-- What a pass comes to where `P` holds, which it leaves so: `Q` of what it returns, and it does return
if nobody says stop. -/
def Yields (b : Bench σ) (w : Work σ α) (P : σ → Prop) (Q : α → Prop) : Prop :=
  ∀ s, P s → ∃ r t, w.run.run s = (r, t) ∧ P t ∧ (∀ a, r = .ok a → Q a) ∧ (b.Willing P → ∃ a, r = .ok a)

theorem Yields.run {w : Work σ α} {s : σ} {Q : α → Prop} (h : b.Yields w (· = s) Q) :
    ∃ r, w.run.run s = (r, s) ∧ (∀ a, r = .ok a → Q a) ∧ (b.Patient s → ∃ a, r = .ok a) := by
  obtain ⟨r, _, hr, rfl, hq, hgo⟩ := h s rfl
  exact ⟨r, hr, hq, fun hp => hgo hp.willing⟩

theorem yields_pure {a : α} {Q : α → Prop} (h : Q a) : b.Yields (pure a) P Q :=
  fun s hs => ⟨.ok a, s, rfl, hs, fun _ ha => Except.ok.inj ha ▸ h, fun _ => ⟨a, rfl⟩⟩

theorem yields_report (hb : b.Steady P) (percent : Nat) : b.Yields (b.report percent) P fun _ => True :=
  fun s hs => ⟨_, _, run_report percent s, hb percent s hs, fun _ _ => trivial,
    fun h => ⟨(), by rw [h percent s hs]; rfl⟩⟩

theorem yields_ask {path : String} {f : Disk → Except Cause α} {a : α} {Q : α → Prop}
    (hf : ∀ s, P s → f (b.disk s) = .ok a) (h : Q a) : b.Yields (b.ask path f) P Q :=
  fun s hs => ⟨.ok a, s, run_ask_ok (hf s hs), hs, fun _ ha => Except.ok.inj ha ▸ h, fun _ => ⟨a, rfl⟩⟩

theorem yields_bind {w : Work σ α} {f : α → Work σ β} {Q : α → Prop} {R : β → Prop}
    (hw : b.Yields w P Q) (hf : ∀ a, Q a → b.Yields (f a) P R) : b.Yields (w >>= f) P R := by
  intro s hs
  obtain ⟨r, t, hr, ht, hq, hgo⟩ := hw s hs
  cases r with
  | error e =>
    refine ⟨.error e, t, by rw [run_bind, hr], ht, nofun, fun hp => ?_⟩
    obtain ⟨a, ha⟩ := hgo hp
    exact nomatch ha
  | ok a =>
    obtain ⟨r', u, hr', hrest⟩ := hf a (hq a rfl) t ht
    exact ⟨r', u, by rw [run_bind_ok hr, hr'], hrest⟩

/-! ## Reading to the end of a file -/

theorem yields_read {path : String} {h : Handle} {content : ByteArray} {offset n : Nat}
    (hfile : ∀ s, P s → (b.disk s).directoryAt? h.node = some false ∧ (b.disk s).content h.node = content) :
    b.Yields (b.ask path (·.readAt h offset n)) P (· = content.extract offset (offset + n)) := by
  refine yields_ask (fun s hs => ?_) rfl
  obtain ⟨hdir, hc⟩ := hfile s hs
  rw [Disk.readAt_eq hdir, hc]

/-- Reading from `offset` to the end: `I` holds of what was made of the bytes read so far. -/
theorem eachPiece_spec {path : String} {h : Handle} {total : Nat} {f : β → ByteArray → β}
    {content : ByteArray} {I : Nat → β → Prop} (hb : b.Steady P)
    (hfile : ∀ s, P s → (b.disk s).directoryAt? h.node = some false ∧ (b.disk s).content h.node = content)
    (hlim : content.size ≤ Disk.seekLimit)
    (hstep : ∀ n o acc, o < content.size → I o acc →
      I (min (o + n) content.size) (f acc (content.extract o (o + n))))
    {acc : β} {offset : Nat} (hle : offset ≤ content.size) (h₀ : I offset acc) :
    b.Yields (b.eachPiece path h total f acc offset) P (I content.size) := by
  induction hk : content.size - offset using Nat.strongRecOn generalizing offset acc with
  | _ k ih =>
    subst hk
    have hpos := b.readSize_pos offset
    have hsize : (content.extract offset (offset + b.readSize offset)).size =
        min (offset + b.readSize offset) content.size - offset := ByteArray.size_extract
    rw [eachPiece]
    refine yields_bind (yields_read hfile) ?_
    rintro piece rfl
    by_cases hend : offset < content.size
    · have hnext : offset + (content.extract offset (offset + b.readSize offset)).size =
          min (offset + b.readSize offset) content.size := by omega
      rw [dif_pos ⟨by omega, by omega⟩, hnext]
      refine yields_bind (yields_report hb _) fun _ _ => ?_
      exact ih _ (by omega) (by omega) (hstep _ offset acc hend h₀) rfl
    · obtain rfl : offset = content.size := by omega
      rw [dif_neg (by omega)]
      exact yields_pure h₀

theorem hashFile_spec (hb : b.Still) {path : String} {s : σ} {n : Nat} (hp : (b.disk s).LeadsTo path n)
    (hlim : ((b.disk s).content n).size ≤ Disk.seekLimit) :
    b.Yields (b.hashFile path) (· = s) (· = Sha256.digest ((b.disk s).content n)) := by
  have hfile : ∀ t, t = s → (b.disk t).directoryAt? n = some false ∧ (b.disk t).content n = (b.disk s).content n := by
    rintro _ rfl
    exact ⟨hp.plain, rfl⟩
  refine yields_bind (yields_ask (Q := (· = ⟨n, false⟩)) (fun t ht => ?_) rfl) ?_
  · rw [ht]
    exact hp.openFile
  rintro _ rfl
  refine yields_bind (yields_ask (Q := fun _ => True) (fun t ht => by rw [ht]) trivial) fun total _ => ?_
  refine yields_bind (Q := (· = (b.disk s).content n)) ?_ fun content hcontent => yields_pure (by rw [hcontent])
  have hall : b.Yields (b.eachPiece path ⟨n, false⟩ total (· ++ ·) ByteArray.empty 0) (· = s)
      (fun acc => acc = ((b.disk s).content n).extract 0 ((b.disk s).content n).size) := by
    refine eachPiece_spec (I := fun o acc => acc = ((b.disk s).content n).extract 0 o) hb.steady hfile hlim ?_
      (Nat.zero_le _) ?_
    · rintro k o _ ho rfl
      exact Bytes.extract_append_next _ o k
    · exact (ByteArray.extract_same).symm
  rwa [ByteArray.extract_zero_size] at hall

theorem verifyFile_spec (hb : b.Still) {path : String} {s : σ} {n : Nat} (hp : (b.disk s).LeadsTo path n)
    (hlim : ((b.disk s).content n).size ≤ Disk.seekLimit) (expected : Digest) :
    b.Yields (b.verifyFile path expected) (· = s)
      (· = (Sha256.digest ((b.disk s).content n) == expected)) :=
  yields_bind (hashFile_spec hb hp hlim) fun _ h => yields_pure (by rw [h])

theorem signFile_spec (hb : b.Steady P) {path : String} {k : Nat} {D : ByteArray}
    (hf : ∀ t, P t → (b.disk t).HasFile path k D) (hlim : D.size ≤ Disk.seekLimit) (blockLength : Nat) :
    b.Yields (b.signFile path blockLength) P (· = Signature.describe (Signature.clampLength blockLength) D) := by
  have hfile : ∀ t, P t → (b.disk t).directoryAt? k = some false ∧ (b.disk t).content k = D := fun t ht =>
    ⟨(hf t ht).leads.plain, (hf t ht).content⟩
  refine yields_bind (yields_ask (Q := (· = ⟨k, false⟩)) (fun t ht => (hf t ht).leads.openFile) rfl) ?_
  rintro _ rfl
  have hsize : ∀ t, P t → (Except.ok ((b.disk t).sizeOf ⟨k, false⟩) : Except Cause Nat) = .ok D.size := fun t ht => by
    rw [Disk.sizeOf_eq (hfile t ht).1, (hfile t ht).2]
  refine yields_bind (yields_ask (Q := fun _ => True) hsize trivial) fun total _ => ?_
  -- the builder has taken what was read so far
  have hall : b.Yields (b.eachPiece path ⟨k, false⟩ total Signature.Builder.update
      (Signature.Builder.start blockLength) 0) P fun acc : Signature.Builder =>
        acc.Took (D.extract 0 D.size) ∧ acc.blockLength = Signature.clampLength blockLength := by
    refine eachPiece_spec (I := fun o (acc : Signature.Builder) => acc.Took (D.extract 0 o) ∧
      acc.blockLength = Signature.clampLength blockLength) hb hfile hlim ?_ (Nat.zero_le _) ?_
    · rintro n o acc ho ⟨htook, hlength⟩
      refine ⟨?_, (Signature.Builder.update_blockLength _ _).trans hlength⟩
      rw [← Bytes.extract_append_next]
      exact htook.update _
    · rw [ByteArray.extract_same]
      exact ⟨Signature.Builder.took_start blockLength, rfl⟩
  refine yields_bind hall fun acc hacc => yields_pure ?_
  have hfinish := hacc.1.finish
  rwa [ByteArray.extract_zero_size, hacc.2] at hfinish

theorem signFile_quiet {d : Disk} {path : String} {k : Nat} {D : ByteArray} (hf : d.HasFile path k D)
    (hlim : D.size ≤ Disk.sizeLimit) (blockLength : Nat) :
    (quiet.signFile path blockLength).on d = .ok (Signature.describe (Signature.clampLength blockLength) D) := by
  have hthere : ∀ e, e = d → (quiet.disk e).HasFile path k D := by
    rintro _ rfl
    exact hf
  have hseek : D.size ≤ Disk.seekLimit := Nat.le_trans hlim (by decide)
  obtain ⟨r, hr, hok, hgo⟩ := (signFile_spec quiet_still.steady hthere hseek blockLength).run
  obtain ⟨s, rfl⟩ := hgo (quiet_patient d)
  rw [Work.on, hr, hok s rfl]

end Bench

end FileSwarm
