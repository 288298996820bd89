import Mathlib.Logic.Basic
import Mathlib.Data.List.Induction
/-!
# Runs of a step relation

A system is a step relation `step s a t` ("doing `a` in state `s` may end in
`t`") and a set of initial states. A condition on the steps of a run is part
of the relation: `guarded ok step` are the steps that meet `ok`.
-/

namespace Hostely.Lib

universe u v
variable {S : Type u} {A : Type v}

/-- The states some finite run reaches. -/
inductive Reaches (step : S → A → S → Prop) (init : S → Prop) : S → Prop
  | init {s : S} : init s → Reaches step init s
  | step {s t : S} {a : A} : Reaches step init s → step s a t → Reaches step init t

/-- The steps whose state and action meet `ok`. -/
def guarded (ok : S → A → Prop) (step : S → A → S → Prop) (s : S) (a : A) (t : S) : Prop :=
  ok s a ∧ step s a t

variable {step step' : S → A → S → Prop} {init : S → Prop} {I : S → Prop}

/-- A property of the initial states that every step keeps holds in every
reachable state. -/
theorem Reaches.inv (h0 : ∀ s, init s → I s) (hs : ∀ s a t, I s → step s a t → I t) {s : S}
    (h : Reaches step init s) : I s := by
  induction h with
  | init hi => exact h0 _ hi
  | step _ ht ih => exact hs _ _ _ ih ht

/-- The same, when each step may use a second invariant already known to hold
along the run. -/
theorem Reaches.inv_with {J : S → Prop} (hJ : ∀ s, Reaches step init s → J s) (h0 : ∀ s, init s → I s)
    (hs : ∀ s a t, J s → I s → step s a t → I t) {s : S} (h : Reaches step init s) : I s := by
  induction h with
  | init hi => exact h0 _ hi
  | step hr ht ih => exact hs _ _ _ (hJ _ hr) ih ht

/-- More steps reach more states. -/
theorem Reaches.mono (hs : ∀ s a t, step s a t → step' s a t) {s : S} (h : Reaches step init s) :
    Reaches step' init s := by
  induction h with
  | init hi => exact .init hi
  | step _ ht ih => exact .step ih (hs _ _ _ ht)

/-- Dropping the condition on the steps. -/
theorem Reaches.unguard {ok : S → A → Prop} {s : S} (h : Reaches (guarded ok step) init s) :
    Reaches step init s :=
  h.mono fun _ _ _ ht => ht.2

/-- A list of actions, each with the state it leads to, is a run. -/
theorem Reaches.foldlM {next : S → A → Option S} (hs : ∀ s a t, next s a = some t → step s a t) {s t : S}
    {as : List A} (h : Reaches step init s) (ht : as.foldlM next s = some t) : Reaches step init t := by
  induction as generalizing s with
  | nil =>
    obtain rfl := Option.some.inj ht
    exact h
  | cons a as ih =>
    obtain ⟨u, hu, ht⟩ := Option.bind_eq_some_iff.1 ht
    exact ih (h.step (hs s a u hu)) ht

/-- The next state, by an action that meets `ok`. -/
def checked (ok : S → A → Bool) (next : S → A → Option S) (s : S) (a : A) : Option S :=
  if ok s a then next s a else none

theorem guarded_of_checked {ok : S → A → Bool} {next : S → A → Option S} (hs : ∀ s a t, next s a = some t → step s a t)
    (s : S) (a : A) (t : S) (h : checked ok next s a = some t) : guarded (fun s a => ok s a = true) step s a t := by
  unfold checked at h
  split at h
  · rename_i hok
    exact ⟨hok, hs s a t h⟩
  · cases h

/-! ## Runs of a function -/

section Deterministic
variable {next : S → A → S} {s₀ : S} {I J : S → Prop} {ok : S → A → Prop}

/-- A property that a step keeps when the step meets `ok` and loses when it does
not holds in every state of a run exactly if all steps meet `ok`. -/
theorem run_iff_steps (hJ : ∀ as : List A, J (as.foldl next s₀)) (h0 : I s₀) (hgood : ∀ s a, J s → I s → ok s a → I (next s a))
    (hbad : ∀ s a, J s → I s → ¬ ok s a → ¬ I (next s a)) (as : List A) :
    (∀ pre post, as = pre ++ post → I (pre.foldl next s₀)) ↔
      ∀ pre a post, as = pre ++ a :: post → ok (pre.foldl next s₀) a := by
  constructor
  · rintro h pre a post rfl
    by_contra hok
    have hafter := h (pre ++ [a]) post (by simp)
    rw [List.foldl_append] at hafter
    exact hbad _ a (hJ pre) (h pre (a :: post) rfl) hok hafter
  · intro h pre
    induction pre using List.reverseRecOn with
    | nil => exact fun _ _ => h0
    | append_singleton pre a ih =>
      intro post hpost
      have hsplit : as = pre ++ a :: post := by rw [hpost, List.append_assoc, List.singleton_append]
      rw [List.foldl_append]
      exact hgood _ a (hJ pre) (ih (a :: post) hsplit) (h pre a post hsplit)

end Deterministic

/-! ## Runs of a partial function -/

section Partial
variable {next : S → A → Option S} {s₀ : S} {I : S → Prop} {ok : S → A → Prop}

theorem foldlM_concat {as : List A} {a : A} {t : S} :
    (as ++ [a]).foldlM next s₀ = some t ↔ ∃ s, as.foldlM next s₀ = some s ∧ next s a = some t := by
  rw [List.foldlM_append]
  refine Option.bind_eq_some_iff.trans (exists_congr fun s => and_congr_right fun _ => ?_)
  simp

/-- `run_iff_steps` where an action cannot be taken in every state. -/
theorem runM_iff_steps (h0 : I s₀) (hgood : ∀ s a t, next s a = some t → I s → ok s a → I t)
    (hbad : ∀ s a t, next s a = some t → I s → ¬ ok s a → ¬ I t) (as : List A) :
    (∀ pre post s, as = pre ++ post → pre.foldlM next s₀ = some s → I s) ↔
      ∀ pre a post s t, as = pre ++ a :: post → pre.foldlM next s₀ = some s → next s a = some t → ok s a := by
  constructor
  · rintro h pre a post s t rfl hs ht
    by_contra hok
    have hI := h pre (a :: post) s rfl hs
    exact hbad s a t ht hI hok (h (pre ++ [a]) post t (by simp) (foldlM_concat.2 ⟨s, hs, ht⟩))
  · intro h pre
    induction pre using List.reverseRecOn with
    | nil =>
      intro post s _ hs
      exact Option.some.inj hs ▸ h0
    | append_singleton pre a ih =>
      intro post t hpost ht
      have hsplit : as = pre ++ a :: post := by rw [hpost, List.append_assoc, List.singleton_append]
      obtain ⟨s, hs, ht⟩ := foldlM_concat.1 ht
      exact hgood s a t ht (ih (a :: post) s hsplit hs) (h pre a post s t hsplit hs ht)

end Partial

end Hostely.Lib
