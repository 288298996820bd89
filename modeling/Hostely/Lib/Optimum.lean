import Mathlib.Data.List.MinMax
/-!
# The first of the best

A loop that keeps the best element so far, and takes another only if it is better, ends
with the first of those with the greatest key. `List.argmax` is that loop; here it runs
over some elements of a list with their indices.
-/

namespace Hostely.Lib

variable {α β : Type} [LinearOrder β]

/-- The index of the first element with the property whose key none exceeds. -/
def FirstMax (key : α → β) (P : α → Prop) (l : List α) (i : Nat) : Prop :=
  ∃ a, l[i]? = some a ∧ P a ∧ ∀ j b, l[j]? = some b → P b → key b ≤ key a ∧ (j < i → key b < key a)

variable {key : α → β} {P : α → Prop} {l : List α}

theorem FirstMax.unique {i j : Nat} (hi : FirstMax key P l i) (hj : FirstMax key P l j) : i = j := by
  obtain ⟨a, ha, hPa, hmaxa⟩ := hi
  obtain ⟨b, hb, hPb, hmaxb⟩ := hj
  rcases Nat.lt_trichotomy i j with hlt | heq | hlt
  · exact absurd ((hmaxb i a ha hPa).2 hlt) (not_lt.2 (hmaxa j b hb hPb).1)
  · exact heq
  · exact absurd ((hmaxa j b hb hPb).2 hlt) (not_lt.2 (hmaxb i a ha hPa).1)

/-- In the order of their indices. -/
theorem argmax_first {f : α × Nat → β} {m : α × Nat} {l : List (α × Nat)} (hl : l.Pairwise fun a b => a.2 < b.2)
    (hm : l.argmax f = some m) : ∀ a ∈ l, f a ≤ f m ∧ (a.2 < m.2 → f a < f m) := by
  induction l using List.reverseRecOn generalizing m with
  | nil => nofun
  | append_singleton l b ih =>
    obtain ⟨hinit, -, hlast⟩ := List.pairwise_append.1 hl
    have hafter (a : α × Nat) (ha : a ∈ l) : a.2 < b.2 := hlast a ha b (List.mem_singleton_self b)
    rw [List.argmax_concat] at hm
    cases hc : l.argmax f with
    | none =>
      rw [hc] at hm
      obtain rfl := Option.some.inj hm
      rw [List.argmax_eq_none.1 hc]
      simp
    | some c =>
      have hkept := ih hinit hc
      rw [hc] at hm
      dsimp only at hm
      intro a ha
      rcases List.mem_append.1 ha with ha | ha
      · split at hm
        · rename_i hbetter
          obtain rfl := Option.some.inj hm
          have hlt := (hkept a ha).1.trans_lt hbetter
          exact ⟨hlt.le, fun _ => hlt⟩
        · obtain rfl := Option.some.inj hm
          exact hkept a ha
      · obtain rfl := List.mem_singleton.1 ha
        split at hm
        · obtain rfl := Option.some.inj hm
          exact ⟨le_rfl, fun h => absurd h (Nat.lt_irrefl _)⟩
        · rename_i hworse
          obtain rfl := Option.some.inj hm
          exact ⟨not_lt.1 hworse, fun h => absurd h (Nat.lt_asymm (hafter _ (List.argmax_mem hc)))⟩

theorem zipIdx_filter_sorted (p : α × Nat → Bool) (l : List α) : (l.zipIdx.filter p).Pairwise fun a b => a.2 < b.2 := by
  refine List.Pairwise.filter p (List.pairwise_map.1 ?_)
  rw [List.zipIdx_map_snd]
  exact List.pairwise_lt_range'

/-- The best of those with the property. -/
theorem firstMax_argmax {p : α → Bool} (hp : ∀ a, p a = true ↔ P a) {m : α × Nat}
    (hm : (l.zipIdx.filter fun a => p a.1).argmax (fun a => key a.1) = some m) : FirstMax key P l m.2 := by
  obtain ⟨hmem, hpm⟩ := List.mem_filter.1 (List.argmax_mem hm)
  refine ⟨m.1, List.mem_zipIdx_iff_getElem?.1 hmem, (hp _).1 hpm, fun j b hb hPb => ?_⟩
  exact argmax_first (zipIdx_filter_sorted _ l) hm (b, j)
    (List.mem_filter.2 ⟨List.mem_zipIdx_iff_getElem?.2 hb, (hp b).2 hPb⟩)

theorem argmax_map {γ : Type} (g : α → γ) (f : γ → β) (l : List α) : (l.map g).argmax f = (l.argmax fun a => f (g a)).map g := by
  induction l using List.reverseRecOn with
  | nil => rfl
  | append_singleton l a ih =>
    rw [List.map_append, List.map_singleton, List.argmax_concat, List.argmax_concat, ih]
    cases l.argmax fun a => f (g a) with
    | none => rfl
    | some c =>
      dsimp only [Option.map_some]
      split <;> rfl

end Hostely.Lib
