import Mathlib.Data.List.Basic
/-!
# A ledger of placed things

Things are placed at keys and taken away; a ledger is kept beside them, a list
of keys each with a note about the thing there. It is honest when its notes
fit what is there, and it covers the things of an owner when it has the key of
each. `Changed` is what a series of placements and removals does to the things;
the lemmas say when honesty and cover survive it.
-/

namespace Hostely.Lib

variable {K C H : Type}

/-- From `before` to `after` only the things at `touched` keys changed: the
`placed` ones are new, the others are gone or as they were. -/
structure Changed (touched : List K) (placed : List (K × C)) (before after : K → Option C) : Prop where
  put : ∀ x ∈ placed, after x.1 = some x.2
  kept : ∀ k, k ∉ touched → after k = before k
  gone : ∀ k, k ∉ placed.map Prod.fst → after k = before k ∨ after k = none

namespace Changed
variable [DecidableEq K] {before mid after : K → Option C}

omit [DecidableEq K] in
theorem refl : Changed [] [] before before := ⟨by simp, fun _ _ => rfl, fun _ _ => .inl rfl⟩

theorem erase (k : K) : Changed [k] [] before (Function.update before k none) := by
  refine ⟨by simp, fun j hj => Function.update_of_ne (by simpa using hj) _ _, fun j _ => ?_⟩
  by_cases h : j = k
  · subst h
    exact .inr (Function.update_self ..)
  · exact .inl (Function.update_of_ne h _ _)

theorem place (k : K) (c : C) : Changed [k] [(k, c)] before (Function.update before k (some c)) := by
  refine ⟨?_, fun j hj => Function.update_of_ne (by simpa using hj) _ _, fun j hj => .inl ?_⟩
  · intro x hx
    obtain rfl := List.mem_singleton.1 hx
    exact Function.update_self ..
  · exact Function.update_of_ne (by simpa using hj) _ _

omit [DecidableEq K] in
/-- Two series, the second of which leaves what the first placed. -/
theorem trans {t₁ t₂ : List K} {p₁ p₂ : List (K × C)} (h₁ : Changed t₁ p₁ before mid)
    (h₂ : Changed t₂ p₂ mid after) (hsep : ∀ x ∈ p₁, x.1 ∉ t₂) : Changed (t₁ ++ t₂) (p₁ ++ p₂) before after := by
  constructor
  · intro x hx
    rcases List.mem_append.1 hx with hx | hx
    · exact (h₂.kept x.1 (hsep x hx)).trans (h₁.put x hx)
    · exact h₂.put x hx
  · intro k hk
    rw [List.mem_append, not_or] at hk
    exact (h₂.kept k hk.2).trans (h₁.kept k hk.1)
  · intro k hk
    rw [List.map_append, List.mem_append, not_or] at hk
    rcases h₂.gone k hk.2 with h | h
    · rw [h]
      exact h₁.gone k hk.1
    · exact .inr h

omit [DecidableEq K] in
/-- What is there afterwards was placed or was there. -/
theorem origin {t : List K} {p : List (K × C)} (h : Changed t p before after) {k : K} {c : C} (hk : after k = some c) :
    (k, c) ∈ p ∨ (k ∉ p.map Prod.fst ∧ before k = some c) := by
  by_cases hp : k ∈ p.map Prod.fst
  · obtain ⟨⟨j, d⟩, hx, rfl⟩ := List.mem_map.1 hp
    obtain rfl : d = c := Option.some.inj ((h.put _ hx).symm.trans hk)
    exact .inl hx
  · rcases h.gone k hp with hb | hb
    · exact .inr ⟨hp, hb.symm.trans hk⟩
    · rw [hb] at hk
      cases hk

end Changed

/-! ## Honesty -/

/-- Every note in the ledger fits the thing at its key, if there is one. -/
def Honest (fits : H → C → Prop) (ledger : List (K × H)) (things : K → Option C) : Prop :=
  ∀ e ∈ ledger, ∀ c, things e.1 = some c → fits e.2 c

section Honest
variable {fits : H → C → Prop} {ledger ledger' : List (K × H)} {touched : List K} {placed : List (K × C)}
  {before after : K → Option C}

theorem Honest.mono (h : Honest fits ledger before) (hl : ∀ e ∈ ledger', e ∈ ledger)
    (ht : ∀ k c, after k = some c → before k = some c) : Honest fits ledger' after :=
  fun e he c hc => h e (hl e he) c (ht _ _ hc)

/-- A ledger that is not rewritten stays honest exactly when every thing placed
at one of its keys fits the old note. -/
theorem honest_kept_iff (hb : Honest fits ledger before) (hc : Changed touched placed before after) :
    Honest fits ledger after ↔ ∀ x ∈ placed, ∀ e ∈ ledger, e.1 = x.1 → fits e.2 x.2 := by
  constructor
  · intro h x hx e he hk
    exact h e he x.2 (hk ▸ hc.put x hx)
  · intro h e he c hthere
    rcases hc.origin hthere with hx | ⟨_, hx⟩
    · exact h _ hx e he rfl
    · exact hb e he c hx

/-- A rewritten ledger is honest when each entry is of a thing just placed, or
is an old entry of a key where nothing was placed. -/
theorem honest_rewritten (hb : Honest fits ledger before) (hc : Changed touched placed before after)
    (h : ∀ e ∈ ledger', (∃ c, (e.1, c) ∈ placed ∧ fits e.2 c) ∨ e ∈ ledger ∧ e.1 ∉ placed.map Prod.fst) :
    Honest fits ledger' after := by
  intro e he c hthere
  rcases h e he with ⟨d, hd, hfits⟩ | ⟨hold, hnot⟩
  · obtain rfl : d = c := Option.some.inj ((hc.put _ hd).symm.trans hthere)
    exact hfits
  · rcases hc.origin hthere with hx | ⟨_, hx⟩
    · exact absurd (List.mem_map.2 ⟨_, hx, rfl⟩) hnot
    · exact hb e hold c hx

end Honest

/-! ## Cover -/

/-- The things of the owner are all at `keys`. -/
def Covers (own : C → Prop) (keys : List K) (things : K → Option C) : Prop :=
  ∀ k c, things k = some c → own c → k ∈ keys

section Covers
variable {own : C → Prop} {keys touched : List K} {placed : List (K × C)} {before after : K → Option C}

/-- Keys that are not rewritten cover the owner's things exactly when
everything was placed at one of them. -/
theorem covers_kept_iff (hb : Covers own keys before) (hc : Changed touched placed before after)
    (hown : ∀ x ∈ placed, own x.2) : Covers own keys after ↔ ∀ x ∈ placed, x.1 ∈ keys := by
  constructor
  · intro h x hx
    exact h x.1 x.2 (hc.put x hx) (hown x hx)
  · intro h k c hthere ho
    rcases hc.origin hthere with hx | ⟨_, hx⟩
    · exact h _ hx
    · exact hb k c hx ho

/-- Keys that include every touched one cover as much after as before. -/
theorem covers_rewritten_iff (hc : Changed touched placed before after) (ht : ∀ k ∈ touched, k ∈ keys)
    (hp : ∀ x ∈ placed, x.1 ∈ keys) : Covers own keys after ↔ Covers own keys before := by
  constructor
  · intro h k c hthere ho
    by_contra hk
    exact hk (h k c ((hc.kept k fun hm => hk (ht k hm)).trans hthere) ho)
  · intro h k c hthere ho
    rcases hc.origin hthere with hx | ⟨_, hx⟩
    · exact hp _ hx
    · exact h k c hx ho

/-- Clearing the keys leaves the owner with nothing exactly when they cover. -/
theorem nothing_left_iff (hk : ∀ k ∈ keys, after k = none) (ho : ∀ k, k ∉ keys → after k = before k) :
    (∀ k c, after k = some c → ¬ own c) ↔ Covers own keys before := by
  constructor
  · intro h k c hthere hown
    by_contra hm
    exact h k c ((ho k hm).trans hthere) hown
  · intro h k c hthere hown
    by_cases hm : k ∈ keys
    · rw [hk k hm] at hthere
      cases hthere
    · exact hm (h k c ((ho k hm).symm.trans hthere) hown)

end Covers

end Hostely.Lib
