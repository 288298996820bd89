import Mathlib.Data.List.Basic
/-!
# Records kept in generations

A record is written entry by entry into the newest of a few generations, the newest
first. When a new one is opened, all but the `n` newest of the old ones are dropped. What
is kept is always the end of the record.
-/

namespace Hostely.Lib

universe u
variable {α : Type u}

/-- What the generations hold, the oldest entry first. -/
def kept (g : List (List α)) : List α := g.reverse.flatten

def write (a : α) : List (List α) → List (List α)
  | [] => [[a]]
  | c :: g => (c ++ [a]) :: g

/-- A new generation for `a`, with the `n` newest of the old ones. -/
def turn (n : Nat) (a : α) (g : List (List α)) : List (List α) := [a] :: g.take n

@[simp] theorem kept_nil : kept ([] : List (List α)) = [] := rfl

theorem kept_cons (c : List α) (g : List (List α)) : kept (c :: g) = kept g ++ c := by
  unfold kept
  rw [List.reverse_cons, List.flatten_append, List.flatten_singleton]

theorem kept_append (g g' : List (List α)) : kept (g ++ g') = kept g' ++ kept g := by
  unfold kept
  rw [List.reverse_append, List.flatten_append]

theorem kept_write (a : α) (g : List (List α)) : kept (write a g) = kept g ++ [a] := by
  cases g with
  | nil => rfl
  | cons c g => rw [write, kept_cons, kept_cons, List.append_assoc]

theorem kept_turn (n : Nat) (a : α) (g : List (List α)) : kept (turn n a g) = kept (g.take n) ++ [a] := by rw [turn, kept_cons]

/-- What is dropped are the oldest generations. -/
theorem kept_split (n : Nat) (g : List (List α)) : kept g = kept (g.drop n) ++ kept (g.take n) := by
  rw [← kept_append, List.take_append_drop]

theorem write_length {a : α} {g : List (List α)} (hg : g ≠ []) : (write a g).length = g.length := by
  cases g with
  | nil => exact absurd rfl hg
  | cons c g => rfl

theorem turn_length (n : Nat) (a : α) (g : List (List α)) : (turn n a g).length ≤ n + 1 := by
  rw [turn, List.length_cons, List.length_take]
  exact Nat.succ_le_succ (Nat.min_le_left _ _)

/-- With at most one generation over what is kept, the last one is dropped. -/
theorem drop_last {n : Nat} {g : List (List α)} (hg : g.length ≤ n + 1) : kept (g.drop n) = (g[n]?).getD [] := by
  rcases Nat.lt_or_ge n g.length with hlt | hge
  · rw [List.drop_eq_getElem_cons hlt, List.drop_eq_nil_of_le (by omega), kept_cons, kept_nil, List.nil_append,
      List.getElem?_eq_getElem hlt]
    rfl
  · rw [List.drop_eq_nil_of_le hge, List.getElem?_eq_none hge]
    rfl

end Hostely.Lib
