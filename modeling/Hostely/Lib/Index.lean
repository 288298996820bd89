import Mathlib.Logic.Function.Basic
import Mathlib.Data.List.Basic
/-!
# A map and its index by value

A partial map `m` and a second one, kept by hand, that lists for each value the
keys `m` sends to it. Adding a key on both sides and erasing all keys of one
value keep the two inverse to each other.
-/

namespace Hostely.Lib

variable {κ ν : Type}

/-- `index v` lists `k`. -/
def Lists (index : ν → Option (List κ)) (v : ν) (k : κ) : Prop := ∃ ks, index v = some ks ∧ k ∈ ks

def Inverse (m : κ → Option ν) (index : ν → Option (List κ)) : Prop := ∀ k v, m k = some v ↔ Lists index v k

/-- `m.erase(k)` for each of the keys. -/
def eraseAll [DecidableEq κ] (m : κ → Option ν) (ks : List κ) : κ → Option ν := ks.foldl (fun m k => Function.update m k none) m

theorem eraseAll_apply [DecidableEq κ] (m : κ → Option ν) (ks : List κ) (k : κ) :
    eraseAll m ks k = if k ∈ ks then none else m k := by
  induction ks generalizing m with
  | nil => simp [eraseAll]
  | cons x ks ih =>
    have htail : eraseAll m (x :: ks) = eraseAll (Function.update m x none) ks := rfl
    rw [htail, ih]
    by_cases hk : k ∈ ks
    · simp [hk]
    · by_cases hx : k = x
      · simp [hx]
      · simp [hk, hx]

variable {m : κ → Option ν} {index : ν → Option (List κ)} {k : κ} {v : ν}

/-- The keys of one value grow by one, those of the others stay. -/
theorem lists_insert [BEq κ] [LawfulBEq κ] [DecidableEq ν] (index : ν → Option (List κ)) (k : κ) (v v' : ν) (k' : κ) :
    Lists (Function.update index v (some (((index v).getD []).insert k))) v' k' ↔
      (v' = v ∧ k' = k) ∨ Lists index v' k' := by
  unfold Lists
  by_cases hv : v' = v
  · subst hv
    cases index v' <;> simp
  · simp [hv]

theorem lists_erase [DecidableEq ν] (index : ν → Option (List κ)) (v v' : ν) (k' : κ) :
    Lists (Function.update index v none) v' k' ↔ v' ≠ v ∧ Lists index v' k' := by
  unfold Lists
  by_cases hv : v' = v
  · simp [hv]
  · simp [hv]

namespace Inverse

theorem empty : Inverse (fun _ : κ => (none : Option ν)) (fun _ => none) := by
  intro k v
  simp [Lists]

/-- A key has one value. -/
theorem unique (h : Inverse m index) {v' : ν} (hv : Lists index v k) (hv' : Lists index v' k) : v = v' :=
  Option.some.inj (((h k v).2 hv).symm.trans ((h k v').2 hv'))

variable [DecidableEq κ] [DecidableEq ν]

theorem insert [BEq κ] [LawfulBEq κ] (h : Inverse m index) (hk : m k = none) (v : ν) :
    Inverse (Function.update m k (some v)) (Function.update index v (some (((index v).getD []).insert k))) := by
  intro k' v'
  rw [lists_insert, ← h k' v']
  by_cases hk' : k' = k
  · subst hk'
    simp [hk, eq_comm]
  · simp [hk']

/-- Erasing the keys that the index lists for a value. -/
theorem erase (h : Inverse m index) {ks : List κ} (hv : index v = some ks) :
    Inverse (eraseAll m ks) (Function.update index v none) := by
  intro k' v'
  have hks : k' ∈ ks ↔ m k' = some v := by
    rw [h k' v]
    simp [Lists, hv]
  rw [eraseAll_apply, lists_erase, ← h k' v']
  by_cases hk' : m k' = some v
  · rw [if_pos (hks.2 hk'), hk']
    simp [eq_comm]
  · rw [if_neg fun hm => hk' (hks.1 hm)]
    constructor
    · intro hm
      exact ⟨fun hvv => hk' (hvv ▸ hm), hm⟩
    · exact And.right

end Inverse

end Hostely.Lib
