import Mathlib.Logic.Basic
/-!
# Programs that take mutexes

A program of one thread over a state it shares with others. A mutex is held for
a scope, as with `std::lock_guard`, so the mutexes held are known at every point.
Taking one that the thread holds already ends the program: the mutexes are not
recursive.
-/

namespace Hostely.Lib

variable {κ σ α β : Type}

/-- From the mutexes held and the state to a result and the state after, or to the
mutex taken twice. -/
def Locks (κ σ α : Type) : Type := List κ → σ → Except κ (α × σ)

namespace Locks

instance : Monad (Locks κ σ) where
  pure a := fun _ s => .ok (a, s)
  bind x k := fun held s => (x held s).bind fun r => k r.1 held r.2

def look : Locks κ σ σ := fun _ s => .ok (s, s)

def change (f : σ → σ) : Locks κ σ Unit := fun _ s => .ok ((), f s)

section Rules
variable {held : List κ} {s s' : σ} {m : κ} {x : Locks κ σ α} {k : α → Locks κ σ β}

@[simp] theorem pure_run (a : α) : (pure a : Locks κ σ α) held s = .ok (a, s) := rfl
@[simp] theorem look_run : (look : Locks κ σ σ) held s = .ok (s, s) := rfl
@[simp] theorem change_run (f : σ → σ) : (change f : Locks κ σ Unit) held s = .ok ((), f s) := rfl
@[simp] theorem look_bind (k : σ → Locks κ σ β) : (look >>= k) held s = k s held s := rfl
@[simp] theorem change_bind (f : σ → σ) (k : Unit → Locks κ σ β) : (change f >>= k) held s = k () held (f s) := rfl

theorem bind_ok {a : α} (h : x held s = .ok (a, s')) : (x >>= k) held s = k a held s' :=
  congrArg (fun r => Except.bind r fun r => k r.1 held r.2) h

theorem bind_error (h : x held s = .error m) : (x >>= k) held s = .error m :=
  congrArg (fun r => Except.bind r fun r => k r.1 held r.2) h

end Rules

section Guard
variable [DecidableEq κ] {held : List κ} {s : σ} {m : κ} {x : Locks κ σ α}

/-- `x` in the scope of a lock of `m`. -/
def lock_guard (m : κ) (x : Locks κ σ α) : Locks κ σ α := fun held s =>
  if m ∈ held then .error m else x (m :: held) s

theorem lock_guard_free (h : m ∉ held) : lock_guard m x held s = x (m :: held) s := if_neg h

theorem lock_guard_held (h : m ∈ held) : lock_guard m x held s = .error m := if_pos h

end Guard

/-! ## What a program keeps -/

/-- A program that ends leaves a state in relation to the one it started in. -/
def Keeps (R : σ → σ → Prop) (x : Locks κ σ α) : Prop :=
  ∀ held s a s', x held s = .ok (a, s') → R s s'

section Keeps
variable {R : σ → σ → Prop} {x : Locks κ σ α} {k : α → Locks κ σ β}

theorem Keeps.pure (hrefl : ∀ s, R s s) (a : α) : Keeps R (Pure.pure a : Locks κ σ α) := by
  intro held s b s' h
  obtain ⟨-, rfl⟩ := Prod.mk.inj (Except.ok.inj h)
  exact hrefl s

theorem Keeps.look (hrefl : ∀ s, R s s) : Keeps R (Locks.look : Locks κ σ σ) := by
  intro held s b s' h
  obtain ⟨-, rfl⟩ := Prod.mk.inj (Except.ok.inj h)
  exact hrefl s

theorem Keeps.change {f : σ → σ} (hf : ∀ s, R s (f s)) : Keeps R (Locks.change f : Locks κ σ Unit) := by
  intro held s b s' h
  obtain ⟨-, rfl⟩ := Prod.mk.inj (Except.ok.inj h)
  exact hf s

theorem Keeps.bind (htrans : ∀ s t u, R s t → R t u → R s u) (hx : Keeps R x) (hk : ∀ a, Keeps R (k a)) :
    Keeps R (x >>= k) := by
  intro held s b s' h
  cases hr : x held s with
  | error m =>
    rw [bind_error hr] at h
    cases h
  | ok r =>
    obtain ⟨a, t⟩ := r
    rw [bind_ok hr] at h
    exact htrans _ _ _ (hx held s a t hr) (hk a held t b s' h)

theorem Keeps.lock_guard [DecidableEq κ] (m : κ) (hx : Keeps R x) : Keeps R (lock_guard m x) := by
  intro held s a s' h
  unfold Locks.lock_guard at h
  split at h
  · cases h
  · exact hx _ s a s' h

end Keeps

end Locks

end Hostely.Lib
