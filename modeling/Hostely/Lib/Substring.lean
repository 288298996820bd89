import Mathlib.Data.List.Infix
/-!
# The first occurrence of a list in another

`findSub? pat text` is `std::string::find`: the least index at which `pat`
occurs in `text`.
-/

namespace Hostely.Lib

variable {α : Type} [DecidableEq α]

def findSub? (pat : List α) : List α → Option Nat
  | [] => if pat = [] then some 0 else none
  | a :: text => if pat.isPrefixOf (a :: text) then some 0 else (findSub? pat text).map (· + 1)

/-- It finds an occurrence exactly when there is one. -/
theorem findSub?_eq_none {pat text : List α} : findSub? pat text = none ↔ ¬ pat <:+: text := by
  induction text with
  | nil => by_cases h : pat = [] <;> simp [findSub?, h]
  | cons a text ih =>
    rw [List.infix_cons_iff, not_or, ← ih]
    simp only [findSub?]
    split
    · simp_all
    · simp_all

theorem findSub?_isSome {pat text : List α} : (findSub? pat text).isSome = true ↔ pat <:+: text := by
  rw [Option.isSome_iff_ne_none, ne_eq, findSub?_eq_none, not_not]

/-- The place it finds is the first. -/
theorem findSub?_eq_some {pat text : List α} {n : Nat} (h : findSub? pat text = some n) :
    n + pat.length ≤ text.length ∧ pat <+: text.drop n ∧ ∀ m < n, ¬ pat <+: text.drop m := by
  induction text generalizing n with
  | nil =>
    unfold findSub? at h
    split at h
    · subst pat
      obtain rfl := Option.some.inj h
      simp
    · cases h
  | cons a text ih =>
    unfold findSub? at h
    split at h
    · rename_i hpre
      obtain rfl := Option.some.inj h
      have hpre := List.isPrefixOf_iff_prefix.1 hpre
      exact ⟨by simpa using hpre.length_le, by simpa using hpre, fun m hm => absurd hm (Nat.not_lt_zero m)⟩
    · rename_i hpre
      obtain ⟨k, hk, rfl⟩ := Option.map_eq_some_iff.1 h
      obtain ⟨hlen, hat, hfirst⟩ := ih hk
      refine ⟨by rw [List.length_cons]; omega, by simpa using hat, fun m hm => ?_⟩
      cases m with
      | zero => simpa using mt List.isPrefixOf_iff_prefix.2 hpre
      | succ m => simpa using hfirst m (by omega)

/-- A beginning of the text that ends before the place has no occurrence. -/
theorem not_infix_of_findSub? {pat text pre : List α} {n : Nat} (h : findSub? pat text = some n) (hpre : pre <+: text)
    (hlen : pre.length < n + pat.length) : ¬ pat <:+: pre := by
  rintro ⟨a, b, hab⟩
  obtain ⟨rest, rfl⟩ := hpre
  have hshort : a.length < n := by
    have := congrArg List.length hab
    simp only [List.length_append] at this
    omega
  refine (findSub?_eq_some h).2.2 a.length hshort ?_
  rw [← hab]
  simp [List.append_assoc]

/-- The first place is the one that is found. -/
theorem findSub?_of_first {pat text : List α} {n : Nat} (hat : pat <+: text.drop n)
    (hfirst : ∀ m < n, ¬ pat <+: text.drop m) : findSub? pat text = some n := by
  have hin : pat <:+: text := hat.isInfix.trans (List.drop_suffix n text).isInfix
  obtain ⟨k, hk⟩ := Option.isSome_iff_exists.1 (findSub?_isSome.2 hin)
  obtain ⟨-, hkat, hkfirst⟩ := findSub?_eq_some hk
  have hle : k ≤ n := Nat.le_of_not_lt fun h => hkfirst n h hat
  have hge : n ≤ k := Nat.le_of_not_lt fun h => hfirst k h hkat
  rw [hk, Nat.le_antisymm hle hge]

/-- What follows has no say in it, once the pattern has been found. -/
theorem findSub?_append {pat pre : List α} {n : Nat} (h : findSub? pat pre = some n) (rest : List α) :
    findSub? pat (pre ++ rest) = some n := by
  obtain ⟨hlen, hat, hfirst⟩ := findSub?_eq_some h
  refine findSub?_of_first ?_ fun m hm hpre => hfirst m hm ?_
  · rw [List.drop_append]
    exact hat.trans (List.prefix_append _ _)
  · rw [List.drop_append] at hpre
    refine List.prefix_of_prefix_length_le hpre (List.prefix_append _ _) ?_
    rw [List.length_drop]
    omega

/-- A beginning of the text that has the occurrence is enough. -/
theorem findSub?_beginning {pat text pre : List α} {n : Nat} (h : findSub? pat text = some n) (hpre : pre <+: text)
    (hlen : n + pat.length ≤ pre.length) : findSub? pat pre = some n := by
  obtain ⟨rest, rfl⟩ := hpre
  obtain ⟨-, hat, hfirst⟩ := findSub?_eq_some h
  rw [List.drop_append] at hat
  refine findSub?_of_first ?_ fun m hm hat' => hfirst m hm ?_
  · refine List.prefix_of_prefix_length_le hat (List.prefix_append _ _) ?_
    rw [List.length_drop]
    omega
  · rw [List.drop_append]
    exact hat'.trans (List.prefix_append _ _)

/-- Text in which the first character of the pattern does not occur is passed over. -/
theorem findSub?_skip {c : α} {pat a : List α} (h : c ∉ a) (text : List α) :
    findSub? (c :: pat) (a ++ text) = (findSub? (c :: pat) text).map (· + a.length) := by
  induction a with
  | nil => simp
  | cons x a ih =>
    obtain ⟨hx, ha⟩ := not_or.1 (mt List.mem_cons.2 h)
    have hpre : (c :: pat).isPrefixOf (x :: (a ++ text)) = false := by
      simp [List.isPrefixOf, hx]
    rw [List.cons_append, findSub?, if_neg (by simp [hpre]), ih ha, Option.map_map]
    rfl

end Hostely.Lib
