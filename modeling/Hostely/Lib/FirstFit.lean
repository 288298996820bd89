import Mathlib.Order.Bounds.Basic
import Mathlib.Data.Set.Insert
import Mathlib.Data.List.Nodup
/-!
# First fit

Requests come one after the other, each for a value from some value on. It gets the
first one that it does not see as busy and that no request before it got. What is
busy may look different to each request.
-/

namespace Hostely.Lib

universe u

structure Request (α : Type u) where
  busy : Set α
  wanted : α

/-- The values the request can get when these are claimed. -/
def Request.free {α : Type u} [LE α] (r : Request α) (claimed : Set α) : Set α :=
  {p | r.wanted ≤ p ∧ p ∉ r.busy ∧ p ∉ claimed}

/-- What each request of a list gets. -/
inductive FirstFits {α : Type u} [LE α] : Set α → List (Request α) → List α → Prop
  | nil {claimed : Set α} : FirstFits claimed [] []
  | cons {claimed : Set α} {r : Request α} {rest : List (Request α)} {p : α} {ps : List α} :
    IsLeast (r.free claimed) p → FirstFits (insert p claimed) rest ps → FirstFits claimed (r :: rest) (p :: ps)

variable {α : Type u} [PartialOrder α] {claimed : Set α} {rs rs' : List (Request α)} {ps ps' : List α}

namespace FirstFits

/-- The requests decide what they get. -/
theorem unique (h : FirstFits claimed rs ps) (h' : FirstFits claimed rs ps') : ps = ps' := by
  induction h generalizing ps' with
  | nil =>
    cases h'
    rfl
  | cons hp _ ih =>
    cases h' with
    | cons hp' hrest =>
      obtain rfl := hp.unique hp'
      rw [ih hrest]

theorem not_claimed (h : FirstFits claimed rs ps) : ∀ p ∈ ps, p ∉ claimed := by
  induction h with
  | nil => exact fun _ hp => absurd hp List.not_mem_nil
  | cons hp _ ih =>
    refine List.forall_mem_cons.2 ⟨hp.1.2.2, fun q hq hc => ?_⟩
    exact ih q hq (Set.mem_insert_of_mem _ hc)

theorem nodup (h : FirstFits claimed rs ps) : ps.Nodup := by
  induction h with
  | nil => exact List.nodup_nil
  | cons _ hrest ih => exact List.nodup_cons.2 ⟨fun hp => hrest.not_claimed _ hp (Set.mem_insert _ _), ih⟩

/-- Every value is one that some request wanted, or above it. -/
theorem wanted_le (h : FirstFits claimed rs ps) : ∀ p ∈ ps, ∃ r ∈ rs, r.wanted ≤ p := by
  induction h with
  | nil => exact fun _ hp => absurd hp List.not_mem_nil
  | @cons _ r _ _ _ hp _ ih =>
    refine List.forall_mem_cons.2 ⟨⟨r, List.mem_cons_self, hp.1.1⟩, fun q hq => ?_⟩
    obtain ⟨r', hr', hle⟩ := ih q hq
    exact ⟨r', List.mem_cons_of_mem _ hr', hle⟩

end FirstFits

/-- The same for several lists, one after the other. -/
inductive FirstFitsEach {α : Type u} [LE α] : Set α → List (List (Request α)) → List (List α) → Prop
  | nil {claimed : Set α} : FirstFitsEach claimed [] []
  | cons {claimed : Set α} {rs : List (Request α)} {rest : List (List (Request α))} {ps : List α} {pss : List (List α)} :
    FirstFits claimed rs ps → FirstFitsEach (claimed ∪ {p | p ∈ ps}) rest pss →
      FirstFitsEach claimed (rs :: rest) (ps :: pss)

namespace FirstFitsEach
variable {rss : List (List (Request α))} {pss pss' : List (List α)}

theorem unique (h : FirstFitsEach claimed rss pss) (h' : FirstFitsEach claimed rss pss') : pss = pss' := by
  induction h generalizing pss' with
  | nil =>
    cases h'
    rfl
  | cons hps _ ih =>
    cases h' with
    | cons hps' hrest =>
      obtain rfl := hps.unique hps'
      rw [ih hrest]

theorem not_claimed (h : FirstFitsEach claimed rss pss) : ∀ p ∈ pss.flatten, p ∉ claimed := by
  induction h with
  | nil => exact fun _ hp => absurd hp List.not_mem_nil
  | cons hps _ ih =>
    rw [List.flatten_cons, List.forall_mem_append]
    exact ⟨hps.not_claimed, fun p hp hc => ih p hp (.inl hc)⟩

/-- No value is given twice. -/
theorem nodup (h : FirstFitsEach claimed rss pss) : pss.flatten.Nodup := by
  induction h with
  | nil => exact List.nodup_nil
  | cons hps hrest ih =>
    rw [List.flatten_cons]
    exact hps.nodup.append ih fun p hp hq => hrest.not_claimed p hq (.inr hp)

theorem wanted_le (h : FirstFitsEach claimed rss pss) : ∀ p ∈ pss.flatten, ∃ r ∈ rss.flatten, r.wanted ≤ p := by
  induction h with
  | nil => exact fun _ hp => absurd hp List.not_mem_nil
  | cons hps _ ih =>
    rw [List.flatten_cons, List.flatten_cons, List.forall_mem_append]
    refine ⟨fun p hp => ?_, fun p hp => ?_⟩
    · obtain ⟨r, hr, hle⟩ := hps.wanted_le p hp
      exact ⟨r, List.mem_append_left _ hr, hle⟩
    · obtain ⟨r, hr, hle⟩ := ih p hp
      exact ⟨r, List.mem_append_right _ hr, hle⟩

end FirstFitsEach

end Hostely.Lib
