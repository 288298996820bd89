import Mathlib.Data.List.Nodup
import Mathlib.Logic.Relation
/-!
# Topological orders

A list in which everything comes after what it needs: `R x y` says that `x` needs
`y`. What stands in such a list needs nothing that needs it.
-/

namespace Hostely.Lib

variable {α : Type} {R : α → α → Prop}

/-- What an element needs is before it. -/
def Topological (R : α → α → Prop) (l : List α) : Prop := ∀ pre x post, l = pre ++ x :: post → ∀ y, R x y → y ∈ pre

theorem Topological.nil : Topological R [] := fun _ _ _ h => absurd h (by simp)

/-- An element comes last when all that it needs is there. -/
theorem Topological.concat {l : List α} {x : α} (h : Topological R l) (hx : ∀ y, R x y → y ∈ l) : Topological R (l ++ [x]) := by
  intro pre z post heq y hzy
  rcases List.eq_nil_or_concat post with rfl | ⟨post, w, rfl⟩
  · obtain ⟨rfl, hz⟩ := List.append_inj' heq rfl
    obtain rfl := List.singleton_inj.1 hz
    exact hx y hzy
  · have hsplit : l ++ [x] = (pre ++ z :: post) ++ [w] := by simpa using heq
    exact h pre z post (List.append_inj' hsplit rfl).1 y hzy

/-- All that an element needs, directly or not, is before it. -/
theorem Topological.transGen {l : List α} (h : Topological R l) {x y : α} (hxy : Relation.TransGen R x y) {pre post : List α}
    (heq : l = pre ++ x :: post) : y ∈ pre := by
  induction hxy using Relation.TransGen.head_induction_on generalizing pre post with
  | single hxy => exact h pre _ post heq y hxy
  | head hxz _ ih =>
    obtain ⟨before, between, rfl⟩ := List.append_of_mem (h pre _ post heq _ hxz)
    exact List.mem_append_left _ (ih (by rw [heq, List.append_assoc]; rfl))

/-- Nothing in the list needs itself. -/
theorem Topological.acyclic {l : List α} (h : Topological R l) (hl : l.Nodup) {x : α} (hx : x ∈ l) : ¬ Relation.TransGen R x x := by
  intro hcycle
  obtain ⟨pre, post, rfl⟩ := List.append_of_mem hx
  exact (List.nodup_append.1 hl).2.2 x (h.transGen hcycle rfl) x List.mem_cons_self rfl

/-- What needs an element comes after it. -/
theorem Topological.after {l : List α} (h : Topological R l) (hl : l.Nodup) {pre post : List α} {x y : α}
    (heq : l = pre ++ y :: post) (hxy : Relation.TransGen R x y) (hx : x ∈ l) : x ∈ post := by
  obtain ⟨before, between, hsplit⟩ := List.append_of_mem hx
  by_contra hpost
  -- otherwise `x` is among those up to `y`, and `y` stands both before and not before it
  have hy := h.transGen hxy hsplit
  rw [heq] at hsplit hl
  rcases List.append_eq_append_iff.1 hsplit with ⟨mid, rfl, hmid⟩ | ⟨mid, rfl, hmid⟩
  · cases mid with
    | nil =>
      rw [List.nil_append, List.cons.injEq] at hmid
      exact (List.nodup_append.1 hl).2.2 y (by simpa using hy) y List.mem_cons_self rfl
    | cons z mid =>
      rw [List.cons_append, List.cons.injEq] at hmid
      exact hpost (hmid.2 ▸ by simp)
  · exact (List.nodup_append.1 hl).2.2 y (List.mem_append_left _ hy) y List.mem_cons_self rfl

/-- What is not in the first of two lists is in the second. -/
theorem after_of_not_mem {l l' pre post : List α} {c : α} (h : l ++ l' = pre ++ c :: post) (hc : c ∉ l) :
    ∃ mid, pre = l ++ mid ∧ l' = mid ++ c :: post := by
  rcases List.append_eq_append_iff.1 h with hmid | ⟨mid, rfl, hmid⟩
  · exact hmid
  · cases mid with
    | nil => exact ⟨[], by simp, by simpa using hmid.symm⟩
    | cons x mid =>
      obtain ⟨rfl, -⟩ := List.cons.inj hmid
      exact absurd (by simp) hc

end Hostely.Lib
