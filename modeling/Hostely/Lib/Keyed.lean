import Mathlib.Data.List.Nodup
/-!
# Lists with unique keys

A list of records, each under the key `key x`, as a map: replacing the record
of a key, erasing a key, adding a new one.
-/

namespace Hostely.Lib

variable {α κ : Type} [DecidableEq κ] (key : α → κ)

/-- Puts `x` in the place of the record with its key. -/
def replaceKey (x : α) (l : List α) : List α := l.map fun y => if key y = key x then x else y

def eraseKey (k : κ) (l : List α) : List α := l.filter fun y => key y ≠ k

@[simp] theorem keys_replaceKey (x : α) (l : List α) : (replaceKey key x l).map key = l.map key := by
  induction l with
  | nil => rfl
  | cons y l ih =>
    simp only [replaceKey, List.map_cons] at ih ⊢
    rw [ih]
    split
    · rw [‹key y = key x›]
    · rfl

theorem mem_replaceKey {x y : α} {l : List α} :
    y ∈ replaceKey key x l ↔ (y = x ∧ key x ∈ l.map key) ∨ (y ∈ l ∧ key y ≠ key x) := by
  simp only [replaceKey, List.mem_map]
  constructor
  · rintro ⟨z, hz, rfl⟩
    by_cases hk : key z = key x
    · rw [if_pos hk]
      exact .inl ⟨rfl, z, hz, hk⟩
    · rw [if_neg hk]
      exact .inr ⟨hz, hk⟩
  · rintro (⟨rfl, z, hz, hk⟩ | ⟨hy, hk⟩)
    · exact ⟨z, hz, by simp [hk]⟩
    · exact ⟨y, hy, by simp [hk]⟩

/-- A field that `x` shares with the record it replaces keeps its column. -/
theorem map_replaceKey {β : Type} (g : α → β) (x : α) (l : List α) (h : ∀ y ∈ l, key y = key x → g y = g x) :
    (replaceKey key x l).map g = l.map g := by
  induction l with
  | nil => rfl
  | cons y l ih =>
    simp only [replaceKey, List.map_cons, List.cons.injEq] at ih ⊢
    refine ⟨?_, ih fun z hz => h z (List.mem_cons_of_mem _ hz)⟩
    split
    · exact (h y List.mem_cons_self ‹_›).symm
    · rfl

/-- Replacing a record by itself changes nothing. -/
theorem replaceKey_eq_self {l : List α} (h : (l.map key).Nodup) {x : α} (hx : x ∈ l) : replaceKey key x l = l := by
  unfold replaceKey
  refine (List.map_congr_left fun y hy => ?_).trans (List.map_id l)
  split
  · exact (List.inj_on_of_nodup_map h hy hx ‹_›).symm
  · rfl

theorem mem_eraseKey {k : κ} {y : α} {l : List α} : y ∈ eraseKey key k l ↔ y ∈ l ∧ key y ≠ k := by
  simp [eraseKey]

theorem nodup_eraseKey (k : κ) (l : List α) (h : (l.map key).Nodup) : ((eraseKey key k l).map key).Nodup :=
  h.sublist (List.filter_sublist.map key)

omit [DecidableEq κ] in
theorem nodup_append_key (x : α) (l : List α) (h : (l.map key).Nodup) (hx : key x ∉ l.map key) :
    ((l ++ [x]).map key).Nodup := by
  rw [List.map_append, List.map_singleton]
  exact h.append (by simp) (by simpa using hx)

omit [DecidableEq κ] in
/-- Two records of one key are one record. -/
theorem key_unique {l : List α} (h : (l.map key).Nodup) {x y : α} (hx : x ∈ l) (hy : y ∈ l) (hk : key x = key y) :
    x = y :=
  List.inj_on_of_nodup_map h hx hy hk

/-- Looking a key up finds the record that has it. -/
theorem find_eq_some {l : List α} (h : (l.map key).Nodup) {k : κ} {r : α} :
    l.find? (fun x => key x = k) = some r ↔ r ∈ l ∧ key r = k := by
  refine ⟨fun hf => ⟨List.mem_of_find?_eq_some hf, by simpa using List.find?_some hf⟩, ?_⟩
  rintro ⟨hr, rfl⟩
  induction l with
  | nil => cases hr
  | cons y l ih =>
    rw [List.map_cons, List.nodup_cons] at h
    by_cases hy : key y = key r
    · rw [List.find?_cons_of_pos (by simpa using hy)]
      rcases List.mem_cons.1 hr with rfl | hr
      · rfl
      · exact absurd (List.mem_map.2 ⟨r, hr, hy.symm⟩) h.1
    · rw [List.find?_cons_of_neg (by simpa using hy)]
      exact ih h.2 ((List.mem_cons.1 hr).resolve_left fun he => hy (he ▸ rfl))

theorem find_eq_none {l : List α} {k : κ} : l.find? (fun x => key x = k) = none ↔ k ∉ l.map key := by
  simp [List.find?_eq_none]

/-- The order of the records does not matter to a lookup. -/
theorem find_perm {l m : List α} (hp : l.Perm m) (h : (m.map key).Nodup) (k : κ) :
    l.find? (fun x => key x = k) = m.find? (fun x => key x = k) := by
  cases hm : m.find? (fun x => key x = k) with
  | none =>
    rw [find_eq_none] at hm ⊢
    rwa [(hp.map key).mem_iff]
  | some r =>
    rw [find_eq_some key h] at hm
    exact (find_eq_some key ((hp.map key).nodup_iff.2 h)).2 ⟨hp.mem_iff.2 hm.1, hm.2⟩

/-- Erasing a key commutes with a map that keeps the keys. -/
theorem map_eraseKey {β : Type} (key' : β → κ) {f : α → β} (hf : ∀ x, key' (f x) = key x) (k : κ) (l : List α) :
    (eraseKey key k l).map f = eraseKey key' k (l.map f) := by
  simp only [eraseKey, List.filter_map, Function.comp_def, hf]

theorem length_eraseKey {k : κ} {l : List α} (h : k ∈ l.map key) : (eraseKey key k l).length < l.length := by
  obtain ⟨y, hy, rfl⟩ := List.mem_map.1 h
  exact List.length_filter_lt_length_iff_exists.2 ⟨y, hy, by simp⟩

theorem eraseKey_of_not_mem {k : κ} {l : List α} (h : k ∉ l.map key) : eraseKey key k l = l :=
  List.filter_eq_self.2 fun y hy => by simpa using fun he : key y = k => h (he ▸ List.mem_map_of_mem hy)

theorem replaceKey_of_not_mem {x : α} {l : List α} (h : key x ∉ l.map key) : replaceKey key x l = l := by
  refine (List.map_congr_left fun y hy => ?_).trans (List.map_id l)
  have hne : key y ≠ key x := fun he => h (he ▸ List.mem_map_of_mem hy)
  exact if_neg hne

/-- Replacing a record is erasing the old one and adding the new one. -/
theorem replaceKey_perm {x : α} {l : List α} (h : (l.map key).Nodup) (hx : key x ∈ l.map key) :
    (replaceKey key x l).Perm (x :: eraseKey key (key x) l) := by
  induction l with
  | nil => cases hx
  | cons y l ih =>
    rw [List.map_cons, List.nodup_cons] at h
    by_cases hy : key y = key x
    · rw [hy] at h
      have herase : eraseKey key (key x) (y :: l) = eraseKey key (key x) l := by simp [eraseKey, hy]
      have hreplace : replaceKey key x (y :: l) = x :: replaceKey key x l := by simp [replaceKey, hy]
      rw [herase, hreplace, eraseKey_of_not_mem key h.1, replaceKey_of_not_mem key h.1]
    · have herase : eraseKey key (key x) (y :: l) = y :: eraseKey key (key x) l := by simp [eraseKey, hy]
      have hreplace : replaceKey key x (y :: l) = y :: replaceKey key x l := by simp [replaceKey, hy]
      rw [herase, hreplace]
      have hmem : key x ∈ l.map key := (List.mem_cons.1 hx).resolve_left fun he => hy he.symm
      exact ((ih h.2 hmem).cons y).trans (.swap x y _)

end Hostely.Lib
