/-!
# Programs on a cursor

A program reads at a cursor, moves it and may throw; an exception leaves the
cursor where it is. `Goes` says that a program never moves the cursor back and
throws allowed exceptions only, `Answers` that another one does the same unless
the first gives up.
-/

namespace Hostely.Lib

abbrev Scan (ε α : Type) := ExceptT ε (StateM Nat) α

namespace Scan

variable {ε α β : Type}

/-- What the program returns or throws at the cursor, and where it leaves it. -/
def runAt (m : Scan ε α) (pos : Nat) : Except ε α × Nat := (m.run.run pos).run

@[simp] theorem runAt_pure (a : α) (pos : Nat) : (pure a : Scan ε α).runAt pos = (.ok a, pos) := rfl

@[simp] theorem runAt_throw (e : ε) (pos : Nat) : (throw e : Scan ε α).runAt pos = (.error e, pos) := rfl

@[simp] theorem runAt_get (pos : Nat) : (get : Scan ε Nat).runAt pos = (.ok pos, pos) := rfl

@[simp] theorem runAt_modify (f : Nat → Nat) (pos : Nat) : (modify f : Scan ε Unit).runAt pos = (.ok (), f pos) := rfl

theorem runAt_bind (m : Scan ε α) (f : α → Scan ε β) (pos : Nat) :
    (m >>= f).runAt pos =
      match m.runAt pos with
      | (.ok a, pos') => (f a).runAt pos'
      | (.error e, pos') => (.error e, pos') := by
  unfold runAt
  rw [ExceptT.run_bind, StateT.run_bind]
  show StateT.run _ _ = _
  rcases hm : (m.run.run pos).run with ⟨_ | a, pos'⟩ <;> simp only [Id.run] at hm <;> rw [hm] <;> rfl

theorem runAt_bind_ok {m : Scan ε α} {a : α} {pos pos' : Nat} (h : m.runAt pos = (.ok a, pos')) (f : α → Scan ε β) :
    (m >>= f).runAt pos = (f a).runAt pos' := by
  rw [runAt_bind, h]

theorem runAt_bind_error {m : Scan ε α} {e : ε} {pos pos' : Nat} (h : m.runAt pos = (.error e, pos')) (f : α → Scan ε β) :
    (m >>= f).runAt pos = (.error e, pos') := by
  rw [runAt_bind, h]

/-! ## Conditions -/

/-- `a && b` -/
def both (a b : Scan ε Bool) : Scan ε Bool := do if ← a then b else return false

/-- `a || b` -/
def either (a b : Scan ε Bool) : Scan ε Bool := do if ← a then return true else b

theorem runAt_both {a b : Scan ε Bool} {x : Bool} {pos : Nat} (ha : a.runAt pos = (.ok x, pos)) :
    (both a b).runAt pos = if x then b.runAt pos else (.ok false, pos) := by
  unfold both
  rw [runAt_bind_ok ha]
  cases x <;> rfl

theorem runAt_either {a b : Scan ε Bool} {x : Bool} {pos : Nat} (ha : a.runAt pos = (.ok x, pos)) :
    (either a b).runAt pos = if x then (.ok true, pos) else b.runAt pos := by
  unfold either
  rw [runAt_bind_ok ha]
  cases x <;> rfl

/-! ## The cursor never goes back -/

section
variable (allowed : ε → Prop)

/-- The program ends at the cursor or behind it, and throws nothing else. -/
structure Goes (m : Scan ε α) (pos : Nat) : Prop where
  forward : pos ≤ (m.runAt pos).2
  throws : ∀ e, (m.runAt pos).1 = .error e → allowed e

variable {allowed}

theorem Goes.pure (a : α) (pos : Nat) : Goes allowed (Pure.pure a : Scan ε α) pos := ⟨Nat.le_refl _, fun _ h => by cases h⟩

theorem Goes.throw {e : ε} (h : allowed e) (pos : Nat) : Goes allowed (MonadExcept.throw e : Scan ε α) pos :=
  ⟨Nat.le_refl _, fun _ he => by cases he; exact h⟩

theorem Goes.bind {m : Scan ε α} {f : α → Scan ε β} {pos : Nat} (hm : Goes allowed m pos)
    (hf : ∀ a pos', pos ≤ pos' → Goes allowed (f a) pos') : Goes allowed (m >>= f) pos := by
  obtain ⟨hforward, hthrows⟩ := hm
  rcases hr : m.runAt pos with ⟨e | a, pos'⟩
  · rw [hr] at hforward hthrows
    constructor
    · rwa [runAt_bind_error hr]
    · rw [runAt_bind_error hr]
      exact fun _ he => hthrows _ (by cases he; rfl)
  · rw [hr] at hforward
    obtain ⟨hforward', hthrows'⟩ := hf a pos' hforward
    constructor
    · rw [runAt_bind_ok hr]
      exact Nat.le_trans hforward hforward'
    · rwa [runAt_bind_ok hr]

/-- A program whose first part is known to return. -/
theorem Goes.after {m : Scan ε α} {a : α} {f : α → Scan ε β} {pos pos' : Nat} (hm : m.runAt pos = (.ok a, pos'))
    (hle : pos ≤ pos') (hf : Goes allowed (f a) pos') : Goes allowed (m >>= f) pos := by
  obtain ⟨hforward, hthrows⟩ := hf
  constructor
  · rw [runAt_bind_ok hm]
    exact Nat.le_trans hle hforward
  · rwa [runAt_bind_ok hm]

end

/-! ## Giving up -/

/-- The second program does what the first one does, unless that one gives up. -/
def Answers (stuck : ε) (m m' : Scan ε α) : Prop :=
  ∀ pos, (m.runAt pos).1 = .error stuck ∨ m'.runAt pos = m.runAt pos

section
variable {stuck : ε}

theorem Answers.refl (m : Scan ε α) : Answers stuck m m := fun _ => .inr rfl

theorem Answers.throw (m' : Scan ε α) : Answers stuck (MonadExcept.throw stuck) m' := fun _ => .inl rfl

theorem Answers.bind {m m' : Scan ε α} {f f' : α → Scan ε β} (hm : Answers stuck m m')
    (hf : ∀ a, Answers stuck (f a) (f' a)) : Answers stuck (m >>= f) (m' >>= f') := by
  intro pos
  rcases hm pos with hstuck | hsame
  · refine .inl ?_
    rcases hr : m.runAt pos with ⟨e | a, pos'⟩ <;> rw [hr] at hstuck
    · obtain rfl := Except.error.inj hstuck
      rw [runAt_bind_error hr]
    · cases hstuck
  · rcases hr : m.runAt pos with ⟨e | a, pos'⟩
    · exact .inr (by rw [runAt_bind_error hr, runAt_bind_error (hsame.trans hr)])
    · rw [runAt_bind_ok hr, runAt_bind_ok (hsame.trans hr)]
      exact hf a pos'

/-- What each step of the fuel keeps, any more of it keeps. -/
theorem Answers.more {m : Nat → Scan ε α} (hstep : ∀ fuel, Answers stuck (m fuel) (m (fuel + 1))) {fuel fuel' pos : Nat}
    (hle : fuel ≤ fuel') (h : ((m fuel).runAt pos).1 ≠ .error stuck) : (m fuel').runAt pos = (m fuel).runAt pos := by
  induction hle with
  | refl => rfl
  | step _ ih =>
    rcases hstep _ pos with hstuck | hsame
    · rw [ih] at hstuck
      exact absurd hstuck h
    · rw [hsame, ih]

end

end Scan

end Hostely.Lib
