import Mathlib.Data.List.Basic
/-!
# Sorting by a comparison

A sort is handed a comparison that tells which of two elements comes first. Where the
comparison is a strict weak order, and tells any two different elements of the list
apart, the list has one sorted order.
-/

namespace Hostely.Lib

variable {α : Type}

/-- The comparison does not tell the two apart. -/
structure Tied (before : α → α → Bool) (a b : α) : Prop where
  left : before a b = false
  right : before b a = false

/-- A comparison that a sort can be handed. -/
structure StrictWeak (before : α → α → Bool) : Prop where
  irrefl : ∀ a, before a a = false
  trans : ∀ a b c, before a b = true → before b c = true → before a c = true
  tied : ∀ a b c, Tied before a b → Tied before b c → Tied before a c

/-- No element comes before an earlier one. -/
def Sorted (before : α → α → Bool) (l : List α) : Prop := l.Pairwise fun a b => before b a = false

/-- By the first comparison, and by the second where the first does not tell. -/
def thenBy (first second : α → α → Bool) (a b : α) : Bool := if first a b || first b a then first a b else second a b

namespace StrictWeak

variable {before : α → α → Bool}

theorem asymm (h : StrictWeak before) {a b : α} (hab : before a b = true) : before b a = false := by
  rw [Bool.eq_false_iff]
  intro hba
  have := h.trans a b a hab hba
  rw [h.irrefl] at this
  cases this

/-- Not to come before is transitive. -/
theorem negative (h : StrictWeak before) {a b c : α} (hba : before b a = false) (hcb : before c b = false) :
    before c a = false := by
  rw [Bool.eq_false_iff]
  intro hca
  cases hab : before a b with
  | true =>
    have := h.trans c a b hca hab
    rw [hcb] at this
    cases this
  | false =>
    cases hbc : before b c with
    | true =>
      have := h.trans b c a hbc hca
      rw [hba] at this
      cases this
    | false =>
      have := (h.tied a b c ⟨hab, hba⟩ ⟨hbc, hcb⟩).right
      rw [hca] at this
      cases this

/-- What is tied compares in the same way with everything. -/
theorem tied_left (h : StrictWeak before) {a b : α} (hab : Tied before a b) (c : α) : before a c = before b c := by
  cases hac : before a c with
  | false => exact (h.negative hac hab.right).symm
  | true =>
    cases hbc : before b c with
    | false => exact absurd hac (by rw [h.negative hbc hab.left]; decide)
    | true => rfl

theorem tied_right (h : StrictWeak before) {a b : α} (hab : Tied before a b) (c : α) : before c a = before c b := by
  cases hca : before c a with
  | false => exact (h.negative hab.left hca).symm
  | true =>
    cases hcb : before c b with
    | false => exact absurd hca (by rw [h.negative hab.right hcb]; decide)
    | true => rfl

theorem flip (h : StrictWeak before) : StrictWeak fun a b => before b a := by
  constructor
  · exact h.irrefl
  · exact fun a b c hab hbc => h.trans c b a hbc hab
  · intro a b c hab hbc
    obtain ⟨hca, hac⟩ := h.tied c b a ⟨hbc.left, hbc.right⟩ ⟨hab.left, hab.right⟩
    exact ⟨hca, hac⟩

/-- Elements compared by what a linear order says of them. -/
theorem of_lt {β : Type} [LT β] [DecidableLT β] [LE β] [Std.IsLinearOrder β] [Std.LawfulOrderLT β] (f : α → β) :
    StrictWeak fun a b => decide (f a < f b) := by
  constructor
  · intro a
    exact decide_eq_false Std.lt_irrefl
  · intro a b c hab hbc
    exact decide_eq_true (Std.lt_trans (of_decide_eq_true hab) (of_decide_eq_true hbc))
  · rintro a b c ⟨hab, hba⟩ ⟨hbc, hcb⟩
    simp only [decide_eq_false_iff_not, Std.not_lt] at hab hba hbc hcb
    exact ⟨decide_eq_false (Std.not_lt.2 (Std.le_trans hbc hab)), decide_eq_false (Std.not_lt.2 (Std.le_trans hba hcb))⟩

end StrictWeak

section ThenBy
variable {first second : α → α → Bool}

theorem thenBy_tied {a b : α} (hab : Tied (thenBy first second) a b) : Tied first a b ∧ Tied second a b := by
  obtain ⟨hleft, hright⟩ := hab
  unfold thenBy at hleft hright
  cases hf : first a b <;> cases hg : first b a <;> simp only [hf, hg] at hleft hright
  · exact ⟨⟨hf, hg⟩, hleft, hright⟩
  all_goals simp at hleft hright

theorem StrictWeak.thenBy (h₁ : StrictWeak first) (h₂ : StrictWeak second) : StrictWeak (thenBy first second) := by
  constructor
  · intro a
    simp only [Lib.thenBy, h₁.irrefl, h₂.irrefl, ite_self]
  · intro a b c hab hbc
    unfold Lib.thenBy at hab hbc ⊢
    cases hfirst : first a b || first b a with
    | true =>
      rw [hfirst, if_pos rfl] at hab
      have hac : first a c = true := by
        cases hother : first b c || first c b with
        | true =>
          rw [hother, if_pos rfl] at hbc
          exact h₁.trans a b c hab hbc
        | false =>
          rw [Bool.or_eq_false_iff] at hother
          rw [← h₁.tied_right ⟨hother.1, hother.2⟩ a]
          exact hab
      rw [hac, Bool.true_or, if_pos rfl]
    | false =>
      rw [hfirst, if_neg Bool.false_ne_true] at hab
      rw [Bool.or_eq_false_iff] at hfirst
      rw [h₁.tied_left ⟨hfirst.1, hfirst.2⟩ c, h₁.tied_right ⟨hfirst.1, hfirst.2⟩ c]
      split at hbc
      · rename_i hother
        rw [if_pos hother]
        exact hbc
      · rename_i hother
        rw [if_neg hother]
        exact h₂.trans a b c hab hbc
  · intro a b c hab hbc
    obtain ⟨hab₁, hab₂⟩ := thenBy_tied hab
    obtain ⟨hbc₁, hbc₂⟩ := thenBy_tied hbc
    obtain ⟨hac, hca⟩ := h₁.tied a b c hab₁ hbc₁
    obtain ⟨hac₂, hca₂⟩ := h₂.tied a b c hab₂ hbc₂
    constructor <;> unfold Lib.thenBy
    · rw [hac, hca]
      exact hac₂
    · rw [hac, hca]
      exact hca₂

/-- A comparison as it is written: the greater first, then by the second comparison. -/
theorem thenBy_greater {β : Type} [LT β] [DecidableLT β] [DecidableEq β] [LE β] [Std.IsLinearOrder β] [Std.LawfulOrderLT β]
    (f : α → β) (second : α → α → Bool) (a b : α) :
    thenBy (fun a b => decide (f b < f a)) second a b = if f a ≠ f b then decide (f b < f a) else second a b := by
  unfold thenBy
  by_cases hfab : f a = f b
  · simp [hfab, Std.lt_irrefl]
  · rcases Std.lt_trichotomy (f a) (f b) with hlt | heq | hlt
    · simp [hfab, hlt]
    · exact absurd heq hfab
    · simp [hfab, hlt]

/-- The same for what is to come last. -/
theorem thenBy_last (last : α → Bool) (second : α → α → Bool) (a b : α) :
    thenBy (fun a b => decide (last a < last b)) second a b = if last a ≠ last b then last b else second a b := by
  have hall : ∀ x y z : Bool, (if decide (x < y) || decide (y < x) then decide (x < y) else z) = if x ≠ y then y else z := by
    decide
  exact hall (last a) (last b) (second a b)

end ThenBy

/-! ## The sorted order -/

section
variable {before : α → α → Bool} (h : StrictWeak before)
include h

theorem sorted_mergeSort (l : List α) : Sorted before (l.mergeSort fun a b => !before b a) := by
  refine (List.pairwise_mergeSort (fun a b c hab hbc => ?_) (fun a b => ?_) l).imp fun hab => by simpa using hab
  · rw [Bool.not_eq_true'] at hab hbc ⊢
    exact h.negative hab hbc
  · cases hba : before b a with
    | false => rfl
    | true => rw [h.asymm hba]; rfl

omit h in
/-- A list whose elements are told apart has one sorted order. -/
theorem sorted_unique {l l' : List α} (hapart : ∀ a ∈ l, ∀ b ∈ l, Tied before a b → a = b) (hperm : l'.Perm l)
    (hl : Sorted before l) (hl' : Sorted before l') : l' = l :=
  hperm.eq_of_pairwise (fun a b ha hb hba hab => hapart a (hperm.subset ha) b hb ⟨hab, hba⟩) hl' hl

end

/-- What comes last in a sorted list, if it is not before the rest. -/
theorem last_of_pairwise {last : α → Bool} {l : List α} (h : l.Pairwise fun a b => last a = true → last b = true) :
    l = l.filter (fun a => !last a) ++ l.filter last := by
  induction l with
  | nil => rfl
  | cons a l ih =>
    obtain ⟨ha, hl⟩ := List.pairwise_cons.1 h
    cases hlast : last a with
    | false => rw [List.filter_cons_of_pos (by simp [hlast]), List.filter_cons_of_neg (by simp [hlast]), List.cons_append, ← ih hl]
    | true =>
      have hall : ∀ b ∈ a :: l, last b = true := List.forall_mem_cons.2 ⟨hlast, fun b hb => ha b hb hlast⟩
      rw [List.filter_eq_self.2 hall, List.filter_eq_nil_iff.2 fun b hb => by simp [hall b hb], List.nil_append]

end Hostely.Lib
