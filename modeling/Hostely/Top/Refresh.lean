import Hostely.Top.Rates
/-!
# When the listing is asked for

The sampler hands `sample_once` an empty text as the cached listing, so that a container
the listing does not have yet makes no difference: the listing is asked for in every
fifth pass and until there is one.
-/

open Hostely.Lib

namespace Hostely.Top

section
variable {F : Type} (parse : Bytes → Option Json)

/-- The listing has an element with that id. -/
def Cached (list_json id : Bytes) : Prop :=
  list_json ≠ [] ∧ ∃ entries, parse list_json = some (.arr entries) ∧ ∃ e ∈ entries, e.get? (bytes "id") = some (.str id)

/-- The pass calls `list_json`. -/
def asks (s : Sampler F) (p : Pass F) : Bool :=
  counters parse p ≠ [] && need_list [] s.list_json (s.sample_count + 1) 5 (counters parse p)

/-- Stats has a container that the listing of the passes before does not have. -/
def Newcomer (s : Sampler F) (p : Pass F) : Prop := ∃ e ∈ counters parse p, ¬ Cached parse s.list_json e.1

/-- In every pass with such a container the listing is asked for. -/
def Refreshes (D : Double F) (stored : Snapshot F) (passes : List (Pass F)) : Prop :=
  EachPass passes fun pre p => ∀ s, sampler_run D parse stored pre = some s → Newcomer parse s p → asks parse s p = true

end

section
variable {F : Type} {D : Double F} {parse : Bytes → Option Json} {s : Sampler F} {p : Pass F}

/-- The cached listing is empty, and nothing is looked for in it. -/
theorem need_list_uncached (list_json : Bytes) (sample_count list_every : Nat) (now_map : Samples) :
    need_list [] list_json sample_count list_every now_map = true ↔ list_json = [] ∨ sample_count % list_every = 0 := by
  unfold need_list
  simp only [ne_eq, not_true_eq_false, decide_false, Bool.false_or]
  by_cases h : list_json = [] ∨ sample_count % list_every = 0
  · simp [h]
  · simp [h]

theorem asks_iff : asks parse s p = true ↔ counters parse p ≠ [] ∧ (s.list_json = [] ∨ (s.sample_count + 1) % 5 = 0) := by
  unfold asks
  rw [Bool.and_eq_true, decide_eq_true_eq, need_list_uncached]

/-- The answer is used by the passes that ask for it, and by no other. -/
theorem sampler_round_asks (ls : Except Bytes Bytes) :
    (asks parse s p = false → sampler_round D parse s { p with ls } = sampler_round D parse s p) ∧
      ∀ text s', asks parse s p = true → p.ls = .ok text → sampler_round D parse s p = some s' → s'.list_json = text := by
  unfold asks counters sampler_round sample_once
  cases hstats : p.stats with
  | error message => exact ⟨fun _ => rfl, fun _ _ h => by simp at h⟩
  | ok text =>
    cases hnow : parse_stats (parse text) with
    | none => simp [hnow]
    | some now_map =>
      by_cases hempty : now_map = []
      · simp [hnow, hempty]
      · simp only [hnow, Option.getD_some, hempty, ne_eq, not_false_eq_true, decide_true, Bool.true_and, Option.bind_eq_bind,
          Option.bind_some, if_false]
        constructor
        · intro hneed
          simp only [hneed, ask_list, Bool.false_eq_true, if_false]
        · intro ls_text s' hneed hls hround
          simp only [hneed, ask_list, hls, if_true] at hround
          obtain ⟨r, hr, hs'⟩ := Option.bind_eq_some_iff.1 hround
          obtain ⟨statics, -, hr⟩ := Option.bind_eq_some_iff.1 hr
          obtain rfl := Option.some.inj hr
          obtain rfl := Option.some.inj hs'
          rfl

theorem sampler_count {stored : Snapshot F} {pre : List (Pass F)} (h : sampler_run D parse stored pre = some s) :
    s.sample_count = pre.length := by
  induction pre using List.reverseRecOn generalizing s with
  | nil =>
    obtain rfl := Option.some.inj h
    rfl
  | append_singleton pre p ih =>
    obtain ⟨t, ht, hround⟩ := foldlM_concat.1 h
    obtain ⟨r, -, hs⟩ := Option.bind_eq_some_iff.1 hround
    obtain rfl := Option.some.inj hs
    rw [List.length_append, List.length_singleton, ← ih ht]

/-- A container that is new makes the listing be asked for exactly if there is no
listing yet or its pass is a fifth one. -/
theorem refreshes_iff (D : Double F) (parse : Bytes → Option Json) (stored : Snapshot F) (passes : List (Pass F)) :
    Refreshes parse D stored passes ↔ EachPass passes fun pre p => ∀ s, sampler_run D parse stored pre = some s →
      Newcomer parse s p → s.list_json = [] ∨ (pre.length + 1) % 5 = 0 := by
  have hpass (pre : List (Pass F)) (p : Pass F) (s : Sampler F) (hs : sampler_run D parse stored pre = some s)
      (hunknown : Newcomer parse s p) : asks parse s p = true ↔ s.list_json = [] ∨ (pre.length + 1) % 5 = 0 := by
    obtain ⟨e, he, -⟩ := hunknown
    rw [asks_iff, and_iff_right (List.ne_nil_of_mem he), sampler_count hs]
  unfold Refreshes EachPass
  constructor
  · exact fun h pre p post hsplit s hs hunknown => (hpass pre p s hs hunknown).1 (h pre p post hsplit s hs hunknown)
  · exact fun h pre p post hsplit s hs hunknown => (hpass pre p s hs hunknown).2 (h pre p post hsplit s hs hunknown)

end

/-! ## A container that is started -/

/-- Texts with the ids of one container and of two. -/
def started : Bytes → Option Json
  | [0] => some (.arr [.obj [(bytes "id", .str (bytes "db"))]])
  | [1] => some (.arr [.obj [(bytes "id", .str (bytes "db"))], .obj [(bytes "id", .str (bytes "web"))]])
  | _ => none

def quiet : Pass Rat := ⟨2, .ok [0], .ok [0]⟩

/-- The second pass has a new container, and the listing stays the old one. -/
theorem started_unnoticed :
    (sampler_run exact_double started nothing_stored [quiet, ⟨2, .ok [1], .ok [1]⟩]).map Sampler.list_json = some [0] ∧
    ¬ ∀ (F : Type) (D : Double F) parse stored passes, Refreshes (F := F) parse D stored passes := by
  refine ⟨by decide +kernel, fun h => ?_⟩
  obtain ⟨s, hs, hlist, hcount⟩ : ∃ s, sampler_run exact_double started nothing_stored [quiet] = some s ∧ s.list_json = [0] ∧
      s.sample_count = 1 := by
    have hsome : (sampler_run exact_double started nothing_stored [quiet]).isSome = true := by decide +kernel
    obtain ⟨s, hs⟩ := Option.isSome_iff_exists.1 hsome
    have hlist : (sampler_run exact_double started nothing_stored [quiet]).map Sampler.list_json = some [0] := by decide +kernel
    rw [hs] at hlist
    exact ⟨s, hs, Option.some.inj hlist, sampler_count hs⟩
  have hasked := h Rat exact_double started nothing_stored [quiet, ⟨2, .ok [1], .ok [1]⟩] [quiet] ⟨2, .ok [1], .ok [1]⟩ [] rfl s hs
  have hweb : (bytes "web", ({} : RawSample)) ∈ counters started (⟨2, .ok [1], .ok [1]⟩ : Pass Rat) := by decide +kernel
  have hunknown : Newcomer started s ⟨2, .ok [1], .ok [1]⟩ := by
    refine ⟨_, hweb, ?_⟩
    rintro ⟨-, entries, hentries, e, he, hid⟩
    rw [hlist] at hentries
    obtain rfl := Json.arr.inj (Option.some.inj hentries)
    obtain rfl := List.mem_singleton.1 he
    have hdb : bytes "db" = bytes "web" := Json.str.inj (Option.some.inj hid)
    exact absurd hdb (by decide)
  rcases (asks_iff.1 (hasked hunknown)).2 with hempty | hfifth
  · exact absurd (hlist.symm.trans hempty) (by decide)
  · rw [hcount] at hfifth
    exact absurd hfifth (by decide)

end Hostely.Top
