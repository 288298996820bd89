import Hostely.Lib.Keyed
import Mathlib.Data.List.Perm.Basic
/-!
# Maps kept sorted by key

`std::map` as the list of its entries in the order of their keys. Assignment
replaces the entry of a key or puts a new one in its place; assigning a list of
entries with different keys leaves these entries, sorted.
-/

namespace Hostely.Lib

variable {κ α : Type} [LT κ] [DecidableLT κ]

/-- `m[k] = v` -/
def assign (k : κ) (v : α) : List (κ × α) → List (κ × α)
  | [] => [(k, v)]
  | e :: m => if k < e.1 then (k, v) :: e :: m else if e.1 < k then e :: assign k v m else (k, v) :: m

def Ascending (m : List (κ × α)) : Prop := m.Pairwise fun a b => a.1 < b.1

/-- The entries in the order of their keys. -/
def sortKeys (l : List (κ × α)) : List (κ × α) := l.mergeSort fun a b => !decide (b.1 < a.1)

theorem mem_assign {k : κ} {v : α} {m : List (κ × α)} {e : κ × α} (h : e ∈ assign k v m) : e = (k, v) ∨ e ∈ m := by
  induction m with
  | nil => exact .inl (List.mem_singleton.1 h)
  | cons x m ih =>
    unfold assign at h
    split at h
    · exact List.mem_cons.1 h
    · split at h
      · rcases List.mem_cons.1 h with rfl | h
        · exact .inr List.mem_cons_self
        · exact (ih h).imp_right (List.mem_cons_of_mem _)
      · exact (List.mem_cons.1 h).imp_right (List.mem_cons_of_mem _)

section Laws
variable [LE κ] [Std.IsLinearOrder κ] [Std.LawfulOrderLT κ] {k : κ} {v : α} {m : List (κ × α)}

theorem keys_assign (k : κ) (v : α) (m : List (κ × α)) (k' : κ) :
    k' ∈ (assign k v m).map Prod.fst ↔ k' = k ∨ k' ∈ m.map Prod.fst := by
  induction m with
  | nil => simp [assign]
  | cons e m ih =>
    unfold assign
    split
    · simp
    · split
      · simp only [List.map_cons, List.mem_cons, ih]
        exact or_left_comm
      · rename_i h₁ h₂
        have he : e.1 = k := (Std.lt_trichotomy e.1 k).resolve_left h₂ |>.resolve_right h₁
        simp [he]

theorem lookup_assign [BEq κ] [LawfulBEq κ] (k : κ) (v : α) (m : List (κ × α)) (k' : κ) :
    (assign k v m).lookup k' = if k' == k then some v else m.lookup k' := by
  induction m with
  | nil => cases h : k' == k <;> simp [assign, List.lookup_cons, h]
  | cons e m ih =>
    obtain ⟨ke, ve⟩ := e
    unfold assign
    split
    · cases h : k' == k <;> simp [List.lookup_cons, h]
    · rename_i h₁
      split
      · rename_i h₂
        cases he : k' == ke with
        | false => simp [List.lookup_cons, he, ih]
        | true =>
          have hne : (k' == k) = false := by
            rw [beq_eq_false_iff_ne, eq_of_beq he]
            exact fun heq => Std.lt_irrefl (heq ▸ h₂)
          simp [List.lookup_cons, he, hne]
      · rename_i h₂
        have he : ke = k := (Std.lt_trichotomy ke k).resolve_left h₂ |>.resolve_right h₁
        cases h : k' == k <;> simp [List.lookup_cons, he, h]

/-- Assigning a key that is not there adds one entry. -/
theorem assign_perm (h : ∀ e ∈ m, e.1 ≠ k) : (assign k v m).Perm ((k, v) :: m) := by
  induction m with
  | nil => exact List.Perm.refl _
  | cons e m ih =>
    unfold assign
    split
    · exact List.Perm.refl _
    · rename_i hke
      split
      · exact ((ih fun x hx => h x (List.mem_cons_of_mem _ hx)).cons e).trans (List.Perm.swap _ _ _)
      · rename_i hek
        exact absurd ((Std.lt_trichotomy e.1 k).resolve_left hek |>.resolve_right hke) (h e List.mem_cons_self)

theorem assign_ascending (h : Ascending m) : Ascending (assign k v m) := by
  induction m with
  | nil => exact List.pairwise_singleton _ _
  | cons x m ih =>
    obtain ⟨hx, hm⟩ := List.pairwise_cons.1 h
    unfold assign
    split
    · rename_i hk
      refine List.pairwise_cons.2 ⟨fun e he => ?_, h⟩
      rcases List.mem_cons.1 he with rfl | he
      · exact hk
      · exact Std.lt_trans hk (hx e he)
    · split
      · rename_i hxk
        refine List.pairwise_cons.2 ⟨fun e he => ?_, ih hm⟩
        rcases mem_assign he with rfl | he
        · exact hxk
        · exact hx e he
      · rename_i hkx hxk
        have hkey : x.1 = k := (Std.lt_trichotomy x.1 k).resolve_left hxk |>.resolve_right hkx
        exact List.pairwise_cons.2 ⟨fun e he => hkey ▸ hx e he, hm⟩

/-- What a list of assignments of different new keys leaves. -/
theorem foldl_assign_perm {l : List (κ × α)} (hl : (l.map Prod.fst).Nodup) (hm : ∀ e ∈ m, e.1 ∉ l.map Prod.fst) :
    (l.foldl (fun m e => assign e.1 e.2 m) m).Perm (l ++ m) := by
  induction l generalizing m with
  | nil => exact List.Perm.refl _
  | cons e l ih =>
    obtain ⟨he, hl⟩ := List.nodup_cons.1 hl
    have hfresh : ∀ x ∈ m, x.1 ≠ e.1 := fun x hx hxe => hm x hx (hxe ▸ List.mem_cons_self)
    have hnext : ∀ x ∈ assign e.1 e.2 m, x.1 ∉ l.map Prod.fst := by
      intro x hx
      rcases mem_assign hx with rfl | hx
      · exact he
      · exact fun hxl => hm x hx (List.mem_cons_of_mem _ hxl)
    exact (ih hl hnext).trans (((assign_perm hfresh).append_left l).trans List.perm_middle)

theorem foldl_assign_ascending (l : List (κ × α)) (h : Ascending m) :
    Ascending (l.foldl (fun m e => assign e.1 e.2 m) m) := by
  induction l generalizing m with
  | nil => exact h
  | cons e l ih => exact ih (assign_ascending h)

theorem sortKeys_ascending {l : List (κ × α)} (hl : (l.map Prod.fst).Nodup) : Ascending (sortKeys l) := by
  have hsorted : (sortKeys l).Pairwise fun a b => ¬ b.1 < a.1 := by
    refine (List.pairwise_mergeSort ?_ ?_ l).imp fun h => by simpa using h
    · intro a b c hab hbc
      simp only [Bool.not_eq_true', decide_eq_false_iff_not, Std.not_lt] at hab hbc ⊢
      exact Std.le_trans hab hbc
    · intro a b
      have := Std.le_total (a := a.1) (b := b.1)
      simpa [Std.not_lt] using this
  have hkeys : ((sortKeys l).map Prod.fst).Nodup := ((List.mergeSort_perm l _).map Prod.fst).nodup_iff.2 hl
  have hne : (sortKeys l).Pairwise fun a b => a.1 ≠ b.1 := List.pairwise_map.1 hkeys
  refine (hsorted.and hne).imp fun h => ?_
  exact ((Std.lt_trichotomy _ _).resolve_right fun h' => h'.elim h.2 h.1)

/-- Assigning entries with different keys to an empty map sorts them. -/
theorem foldl_assign {l : List (κ × α)} (hl : (l.map Prod.fst).Nodup) :
    l.foldl (fun m e => assign e.1 e.2 m) [] = sortKeys l := by
  have hperm : (l.foldl (fun m e => assign e.1 e.2 m) []).Perm (sortKeys l) := by
    have h := foldl_assign_perm (m := ([] : List (κ × α))) hl (by simp)
    rw [List.append_nil] at h
    exact h.trans (List.mergeSort_perm l _).symm
  refine hperm.eq_of_pairwise ?_ (foldl_assign_ascending l List.Pairwise.nil) (sortKeys_ascending hl)
  exact fun a b _ _ hab hba => absurd (Std.lt_trans hab hba) Std.lt_irrefl

omit [DecidableLT κ] [Std.IsLinearOrder κ] in
theorem Ascending.nodup (h : Ascending m) : (m.map Prod.fst).Nodup :=
  List.pairwise_map.2 (h.imp fun hlt heq => absurd (heq ▸ hlt) Std.lt_irrefl)

omit [LT κ] [DecidableLT κ] [LE κ] [Std.IsLinearOrder κ] [Std.LawfulOrderLT κ] in
theorem lookup_eq_none [BEq κ] [LawfulBEq κ] (h : k ∉ m.map Prod.fst) : m.lookup k = none := by
  rw [List.lookup_eq_none_iff]
  intro e he
  have hne : k ≠ e.1 := fun heq => h (heq ▸ List.mem_map_of_mem he)
  simpa using hne

omit [LT κ] [DecidableLT κ] [LE κ] [Std.IsLinearOrder κ] [Std.LawfulOrderLT κ] in
theorem lookup_of_mem [BEq κ] [LawfulBEq κ] (h : (m.map Prod.fst).Nodup) {e : κ × α} (he : e ∈ m) :
    m.lookup e.1 = some e.2 := by
  induction m with
  | nil => cases he
  | cons x m ih =>
    obtain ⟨hx, hm⟩ := List.nodup_cons.1 h
    rcases List.mem_cons.1 he with rfl | he
    · exact List.lookup_cons_self
    · have hne : e.1 ≠ x.1 := fun heq => hx (heq ▸ List.mem_map_of_mem he)
      rw [List.lookup_cons, beq_false_of_ne hne]
      exact ih hm he

omit [LT κ] [DecidableLT κ] [LE κ] [Std.IsLinearOrder κ] [Std.LawfulOrderLT κ] in
theorem mem_of_lookup [BEq κ] [LawfulBEq κ] (h : m.lookup k = some v) : (k, v) ∈ m := by
  obtain ⟨before, after, rfl, -⟩ := List.lookup_eq_some_iff.1 h
  simp

/-- Of a list of assignments of different keys each stays; the rest is as before. -/
theorem lookup_foldl_assign [BEq κ] [LawfulBEq κ] {l : List (κ × α)} (hl : (l.map Prod.fst).Nodup) (m : List (κ × α)) (k : κ) :
    (l.foldl (fun m e => assign e.1 e.2 m) m).lookup k = (l.lookup k).or (m.lookup k) := by
  induction l generalizing m with
  | nil => rfl
  | cons e l ih =>
    obtain ⟨he, hl⟩ := List.nodup_cons.1 hl
    rw [List.foldl_cons, ih hl, lookup_assign, List.lookup_cons]
    cases hk : k == e.1 with
    | true => rw [if_pos rfl, lookup_eq_none (eq_of_beq hk ▸ he), Option.none_or, Option.some_or]
    | false => rw [if_neg (by decide)]

section Replace
variable [DecidableEq κ]

theorem assign_eq_replaceKey (v w : α) (h : Ascending m) : assign k w m = replaceKey Prod.fst (k, w) (assign k v m) := by
  induction m with
  | nil => simp [assign, replaceKey]
  | cons e m ih =>
    obtain ⟨he, hm⟩ := List.pairwise_cons.1 h
    -- the entries behind a key that is not smaller have other keys
    have hlater {l : List (κ × α)} (hl : ∀ x ∈ l, k < x.1) : replaceKey Prod.fst (k, w) l = l := by
      apply replaceKey_of_not_mem
      intro hk
      obtain ⟨x, hx, hxk⟩ := List.mem_map.1 hk
      exact Std.lt_irrefl (hxk ▸ hl x hx)
    unfold assign
    split
    · rename_i hlt
      have hrest : ∀ x ∈ e :: m, k < x.1 := List.forall_mem_cons.2 ⟨hlt, fun x hx => Std.lt_trans hlt (he x hx)⟩
      have hsame := hlater hrest
      simp only [replaceKey] at hsame
      simp [replaceKey, hsame]
    · split
      · rename_i hlt
        have hne : e.1 ≠ k := fun heq => Std.lt_irrefl (heq ▸ hlt)
        have hih := ih hm
        simp only [replaceKey] at hih
        simp [replaceKey, hne, hih]
      · rename_i h₁ h₂
        have heq : e.1 = k := (Std.lt_trichotomy e.1 k).resolve_left h₂ |>.resolve_right h₁
        have hsame := hlater fun x hx => heq ▸ he x hx
        simp only [replaceKey] at hsame
        simp [replaceKey, hsame]

omit [LE κ] [Std.IsLinearOrder κ] [Std.LawfulOrderLT κ] in
theorem assign_replaceKey {k' : κ} (v' w : α) (hne : k' ≠ k) :
    assign k' v' (replaceKey Prod.fst (k, w) m) = replaceKey Prod.fst (k, w) (assign k' v' m) := by
  induction m with
  | nil => simp [assign, replaceKey, hne]
  | cons e m ih =>
    have hfst : (if e.1 = k then (k, w) else e).1 = e.1 := by
      split
      · exact Eq.symm ‹_›
      · rfl
    simp only [replaceKey] at ih
    simp only [replaceKey, List.map_cons, assign, hfst]
    split
    · simp [hne]
    · split
      · rw [ih, List.map_cons]
      · simp [hne]

/-- With another value for its key, a list of assignments leaves the same map
with that value replaced, unless the key is assigned again. -/
theorem foldl_assign_replaceKey {before after : List (κ × α)} (v w : α) (h : k ∉ after.map Prod.fst) (hm : Ascending m) :
    (before ++ (k, w) :: after).foldl (fun m e => assign e.1 e.2 m) m =
      replaceKey Prod.fst (k, w) ((before ++ (k, v) :: after).foldl (fun m e => assign e.1 e.2 m) m) := by
  have hafter {l : List (κ × α)} : after.foldl (fun m e => assign e.1 e.2 m) (replaceKey Prod.fst (k, w) l) =
      replaceKey Prod.fst (k, w) (after.foldl (fun m e => assign e.1 e.2 m) l) := by
    induction after generalizing l with
    | nil => rfl
    | cons e after ih =>
      rw [List.map_cons, List.mem_cons, not_or] at h
      rw [List.foldl_cons, List.foldl_cons, assign_replaceKey e.2 w (Ne.symm h.1), ih h.2]
  rw [List.foldl_append, List.foldl_append, List.foldl_cons, List.foldl_cons, ← hafter]
  dsimp only
  rw [← assign_eq_replaceKey v w (foldl_assign_ascending before hm)]

omit [DecidableEq κ] in
/-- The last value of a key stays. -/
theorem lookup_foldl_last [BEq κ] [LawfulBEq κ] {before after : List (κ × α)} (v : α) (h : k ∉ after.map Prod.fst) :
    ((before ++ (k, v) :: after).foldl (fun m e => assign e.1 e.2 m) m).lookup k = some v := by
  rw [List.foldl_append, List.foldl_cons]
  generalize before.foldl (fun m e => assign e.1 e.2 m) m = m'
  have hlookup : (assign k v m').lookup k = some v := by simp [lookup_assign]
  generalize assign k v m' = l at hlookup
  induction after generalizing l with
  | nil => exact hlookup
  | cons e after ih =>
    rw [List.map_cons, List.mem_cons, not_or] at h
    refine ih h.2 _ ?_
    rw [lookup_assign, beq_false_of_ne h.1]
    exact hlookup

omit [LT κ] [DecidableLT κ] [LE κ] [Std.IsLinearOrder κ] [Std.LawfulOrderLT κ] in
/-- Another value for a key does not show at the other keys. -/
theorem lookup_replaceKey [BEq κ] [LawfulBEq κ] {k' : κ} (w : α) (hne : k' ≠ k) :
    (replaceKey Prod.fst (k, w) m).lookup k' = m.lookup k' := by
  induction m with
  | nil => rfl
  | cons e m ih =>
    have hcons : replaceKey Prod.fst (k, w) (e :: m) =
        (if e.1 = k then (k, w) else e) :: replaceKey Prod.fst (k, w) m := rfl
    rw [hcons, List.lookup_cons]
    by_cases he : e.1 = k
    · rw [if_pos he, List.lookup_cons, beq_false_of_ne hne, beq_false_of_ne (he ▸ hne)]
      exact ih
    · rw [if_neg he, List.lookup_cons, ih]

end Replace

end Laws

end Hostely.Lib
