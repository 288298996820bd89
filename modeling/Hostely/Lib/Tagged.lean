import Mathlib.Data.List.Basic
/-!
# Channels in one queue

An item of a queue may carry a payload for a channel, or announce one. A channel
gets the payloads of its items in their order; in a queue where no item comes
before its channel is announced, none is missed by a reader who knows the
channels announced so far.
-/

namespace Hostely.Lib

universe u v w
variable {φ : Type u} {κ : Type v} {β : Type w} [DecidableEq κ]

/-- What the items carry for a channel. -/
def project (carries : φ → Option (κ × List β)) (k : κ) (q : List φ) : List β :=
  q.flatMap fun f => match carries f with
    | some (k', b) => if k' = k then b else []
    | none => []

/-- The channels in the order they are announced. -/
def announced (announces : φ → Option κ) (q : List φ) : List κ := q.filterMap announces

/-- No item stands before the one that announces its channel. -/
def InOrder (carries : φ → Option (κ × List β)) (announces : φ → Option κ) (q : List φ) : Prop :=
  q.Pairwise fun f g => ∀ k b, announces g = some k → carries f ≠ some (k, b)

section
variable {carries : φ → Option (κ × List β)} {announces : φ → Option κ} {k : κ} {b : List β} {f : φ} {p q : List φ}

@[simp] theorem project_nil : project carries k [] = [] := rfl

theorem project_append : project carries k (p ++ q) = project carries k p ++ project carries k q :=
  List.flatMap_append

theorem project_singleton_self (h : carries f = some (k, b)) : project carries k [f] = b := by
  simp [project, h]

theorem project_singleton_other (h : ∀ b, carries f ≠ some (k, b)) : project carries k [f] = [] := by
  unfold project
  rw [List.flatMap_singleton]
  cases hf : carries f with
  | none => rfl
  | some e =>
    obtain ⟨k', b'⟩ := e
    have hne : k' ≠ k := fun hk => h b' (hk ▸ hf)
    exact if_neg hne

theorem project_eq_nil (h : ∀ f ∈ q, ∀ b, carries f ≠ some (k, b)) : project carries k q = [] := by
  induction q with
  | nil => rfl
  | cons f q ih =>
    rw [← List.singleton_append, project_append, ih fun g hg => h g (List.mem_cons_of_mem _ hg),
      project_singleton_other (h f List.mem_cons_self), List.append_nil]

theorem project_prefix (h : p <+: q) : project carries k p <+: project carries k q := by
  obtain ⟨t, rfl⟩ := h
  exact ⟨project carries k t, project_append.symm⟩

/-- What a reader has taken from the queue and what it has left make up the whole. -/
theorem project_read (n : Nat) (q : List φ) :
    project carries k (q.take n) ++ project carries k (q.drop n) = project carries k q := by
  rw [← project_append, List.take_append_drop]

omit [DecidableEq κ] in
theorem announced_append : announced announces (p ++ q) = announced announces p ++ announced announces q :=
  List.filterMap_append

omit [DecidableEq κ] in
theorem announced_before (h : p <+: q) : announced announces p <+: announced announces q := by
  obtain ⟨t, rfl⟩ := h
  exact ⟨announced announces t, announced_append.symm⟩

omit [DecidableEq κ] in
theorem announced_eq_nil (h : ∀ f ∈ q, announces f = none) : announced announces q = [] :=
  List.filterMap_eq_nil_iff.2 h

omit [DecidableEq κ] in
theorem InOrder.append (hp : InOrder carries announces p) (hq : ∀ g ∈ q, announces g = none) :
    InOrder carries announces (p ++ q) := by
  refine List.pairwise_append.2 ⟨hp, List.pairwise_of_forall_mem_list fun f _ g hg k b hk => ?_, fun f _ g hg k b hk => ?_⟩
  · rw [hq g hg] at hk
    cases hk
  · rw [hq g hg] at hk
    cases hk

omit [DecidableEq κ] in
/-- A channel is announced that has had no items. -/
theorem InOrder.announce (hq : InOrder carries announces q)
    (hnew : ∀ k, announces f = some k → ∀ g ∈ q, ∀ b, carries g ≠ some (k, b)) : InOrder carries announces (q ++ [f]) := by
  refine List.pairwise_append.2 ⟨hq, List.pairwise_singleton _ _, fun g hg f' hf' k b hk => ?_⟩
  rw [List.mem_singleton.1 hf'] at hk
  exact hnew k hk g hg b

theorem InOrder.silent (h : InOrder carries announces (p ++ f :: q)) (hf : announces f = some k) :
    project carries k p = [] := by
  have hbefore := (List.pairwise_append.1 h).2.2
  exact project_eq_nil fun g hg b => hbefore g hg f List.mem_cons_self k b hf

end

end Hostely.Lib
