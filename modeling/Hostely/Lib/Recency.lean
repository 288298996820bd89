import Hostely.Lib.Keyed
/-!
# Records by their last use

A keyed store whose records carry the time of their last use, and the list of its
records with the latest first. Using a record moves it to the front, and the one
with the least time is the last.
-/

namespace Hostely.Lib

variable {α κ : Type} [DecidableEq κ] (key : α → κ) (stamp : α → Nat)

/-- `l` lists the records of `m`, the latest first. -/
structure ByRecency (l m : List α) : Prop where
  perm : l.Perm m
  sorted : l.Pairwise fun x y => stamp y < stamp x

variable {stamp} {l m m' : List α}

theorem ByRecency.nil : ByRecency stamp ([] : List α) [] := ⟨.refl _, .nil⟩

theorem ByRecency.of_perm (h : ByRecency stamp l m) (hm : m.Perm m') : ByRecency stamp l m' := ⟨h.perm.trans hm, h.sorted⟩

theorem ByRecency.erase (h : ByRecency stamp l m) (k : κ) : ByRecency stamp (eraseKey key k l) (eraseKey key k m) :=
  ⟨h.perm.filter _, h.sorted.filter _⟩

/-- The newest record comes first. -/
theorem ByRecency.push (h : ByRecency stamp l m) {x : α} (hx : ∀ y ∈ m, stamp y < stamp x) :
    ByRecency stamp (x :: l) (x :: m) :=
  ⟨h.perm.cons x, List.pairwise_cons.2 ⟨fun y hy => hx y (h.perm.mem_iff.1 hy), h.sorted⟩⟩

/-- A record used now moves to the front. -/
theorem ByRecency.touch (h : ByRecency stamp l m) (hm : (m.map key).Nodup) {x : α} (hx : key x ∈ m.map key)
    (hnew : ∀ y ∈ m, stamp y < stamp x) : ByRecency stamp (x :: eraseKey key (key x) l) (replaceKey key x m) :=
  ((h.erase key (key x)).push fun y hy => hnew y ((mem_eraseKey key).1 hy).1).of_perm (replaceKey_perm key hm hx).symm

/-- A record that changes at its old time keeps its place. -/
theorem ByRecency.replace (h : ByRecency stamp l m) {x : α} (hx : ∀ y ∈ m, key y = key x → stamp y = stamp x) :
    ByRecency stamp (replaceKey key x l) (replaceKey key x m) := by
  refine ⟨h.perm.map _, ?_⟩
  have hstamps := map_replaceKey key stamp x l fun y hy => hx y (h.perm.mem_iff.1 hy)
  have hsorted : (l.map stamp).Pairwise fun a b => b < a := List.pairwise_map.2 h.sorted
  rw [← hstamps] at hsorted
  exact List.pairwise_map.1 hsorted

/-- The record with the least time is the last, and dropping it drops its key. -/
theorem ByRecency.oldest (h : ByRecency stamp l m) (hm : (m.map key).Nodup) {x : α} (hx : x ∈ m)
    (hmin : ∀ y ∈ m, stamp x ≤ stamp y) : l.getLast? = some x ∧ l.dropLast = eraseKey key (key x) l := by
  have hmem : x ∈ l := h.perm.mem_iff.2 hx
  rcases List.eq_nil_or_concat l with rfl | ⟨l', z, rfl⟩
  · cases hmem
  · rw [List.concat_eq_append] at h hmem ⊢
    have hz : x = z := by
      rcases List.mem_append.1 hmem with hl | hl
      · have hlater := (List.pairwise_append.1 h.sorted).2.2 x hl z (by simp)
        exact absurd (hmin z (h.perm.mem_iff.1 (by simp))) (by omega)
      · simpa using hl
    subst hz
    have hnodup := (h.perm.map key).nodup_iff.2 hm
    rw [List.map_append, List.nodup_append] at hnodup
    have hnot : key x ∉ l'.map key := fun hk => hnodup.2.2 _ hk _ (by simp) rfl
    refine ⟨by simp, ?_⟩
    have herase : eraseKey key (key x) (l' ++ [x]) = eraseKey key (key x) l' := by simp [eraseKey]
    rw [List.dropLast_concat, herase, eraseKey_of_not_mem key hnot]

end Hostely.Lib
