import Hostely.Lib.Runs
import Hostely.Lib.Text
/-!
# router_watch

The loop that keeps an A record at the public address. It remembers an address as
published whether or not the provider took it.
-/

open Hostely.Lib

namespace Hostely.Exposure

/-! ## The zone -/

/-- `rfind` up to a length; `none` is `npos`. -/
def rfind (c : UInt8) (text : Bytes) : Option Nat := (text.reverse.findIdx? (· = c)).map fun i => text.length - 1 - i

/-- The last two labels. Before an index of 0 `last - 1` wraps around, and the
search is that of the whole domain again. -/
def watch_zone (domain zone : Bytes) : Bytes :=
  if zone ≠ [] then zone
  else
    match rfind 46 domain with
    | none => domain
    | some last =>
      match rfind 46 (if last = 0 then domain else domain.take last) with
      | none => domain
      | some prev => domain.drop (prev + 1)

/-! ## The loop -/

/-- A call of `set_a` and what it returned. -/
structure SetA where
  zone : Bytes
  name : Bytes
  ip : Bytes
  ok : Bool
deriving DecidableEq, Repr

/-- What a cycle meets: `router_public_ip`, empty when it fails, and `set_a`. -/
structure Cycle where
  ip : Bytes
  set_a : Bytes → Bytes → Bytes → Bool

/-- `last_ip`, and the calls made so far. -/
structure Watch where
  last_ip : Bytes
  calls : List SetA
deriving DecidableEq, Repr

section
variable (domain z : Bytes)

def watch_cycle (w : Watch) (c : Cycle) : Watch :=
  -- the address is kept whatever `set_a` returned
  if c.ip ≠ [] ∧ c.ip ≠ w.last_ip then ⟨c.ip, w.calls ++ [⟨z, domain, c.ip, c.set_a z domain c.ip⟩]⟩ else w

/-- The state after some cycles. -/
def router_watch (zone : Bytes) (cycles : List Cycle) : Watch :=
  cycles.foldl (watch_cycle domain (watch_zone domain zone)) ⟨[], []⟩

end

/-- The address of the most recent call that returned true. -/
def Watch.published (w : Watch) : Option Bytes := (w.calls.filter SetA.ok).getLast?.map SetA.ip

/-- `last_ip` is empty or published. -/
def Watch.Remembers (w : Watch) : Prop := w.last_ip = [] ∨ w.published = some w.last_ip

section
variable {domain z : Bytes} {w : Watch} {c : Cycle}

/-- The provider takes the address if the cycle calls it. -/
def Takes (domain z : Bytes) (w : Watch) (c : Cycle) : Prop :=
  c.ip = [] ∨ c.ip = w.last_ip ∨ c.set_a z domain c.ip = true

theorem watch_cycle_skips (h : c.ip = [] ∨ c.ip = w.last_ip) : watch_cycle domain z w c = w := by
  unfold watch_cycle
  rw [if_neg]
  rintro ⟨hip, hnew⟩
  exact h.elim hip hnew

theorem watch_cycle_calls (hip : c.ip ≠ []) (hnew : c.ip ≠ w.last_ip) :
    watch_cycle domain z w c = ⟨c.ip, w.calls ++ [⟨z, domain, c.ip, c.set_a z domain c.ip⟩]⟩ := if_pos ⟨hip, hnew⟩

theorem published_taken (h : c.set_a z domain c.ip = true) (ip : Bytes) :
    Watch.published ⟨ip, w.calls ++ [⟨z, domain, c.ip, c.set_a z domain c.ip⟩]⟩ = some c.ip := by
  simp [Watch.published, List.filter_append, h]

theorem published_refused (h : c.set_a z domain c.ip = false) (ip : Bytes) :
    Watch.published ⟨ip, w.calls ++ [⟨z, domain, c.ip, c.set_a z domain c.ip⟩]⟩ = w.published := by
  simp [Watch.published, List.filter_append, h]

theorem remembers_taken (hw : w.Remembers) (h : Takes domain z w c) : (watch_cycle domain z w c).Remembers := by
  by_cases hskip : c.ip = [] ∨ c.ip = w.last_ip
  · rwa [watch_cycle_skips hskip]
  · rw [not_or] at hskip
    rw [watch_cycle_calls hskip.1 hskip.2]
    exact .inr (published_taken ((h.resolve_left hskip.1).resolve_left hskip.2) c.ip)

/-- An address the provider refused is remembered all the same. -/
theorem forgets_refused (hstart : w.last_ip = [] → w.calls = []) (hw : w.Remembers) (h : ¬ Takes domain z w c) :
    ¬ (watch_cycle domain z w c).Remembers := by
  unfold Takes at h
  rw [not_or, not_or, Bool.not_eq_true] at h
  obtain ⟨hip, hnew, hrefused⟩ := h
  rw [watch_cycle_calls hip hnew]
  rintro (hempty | hpublished)
  · exact hip hempty
  · rw [published_refused hrefused] at hpublished
    rcases hw with hempty | hlast
    · rw [Watch.published, hstart hempty] at hpublished
      cases hpublished
    · exact hnew (Option.some.inj (hpublished.symm.trans hlast))

end

/-- Nothing is called before an address is remembered. -/
theorem run_starts (domain z : Bytes) (cycles : List Cycle) :
    (cycles.foldl (watch_cycle domain z) ⟨[], []⟩).last_ip = [] → (cycles.foldl (watch_cycle domain z) ⟨[], []⟩).calls = [] := by
  induction cycles using List.reverseRecOn with
  | nil => exact fun _ => rfl
  | append_singleton cycles c ih =>
    rw [List.foldl_append, List.foldl_cons, List.foldl_nil]
    by_cases hskip : c.ip = [] ∨ c.ip = (cycles.foldl (watch_cycle domain z) ⟨[], []⟩).last_ip
    · rwa [watch_cycle_skips hskip]
    · rw [not_or] at hskip
      rw [watch_cycle_calls hskip.1 hskip.2]
      exact fun hempty => absurd hempty hskip.1

/-- Under a `last_ip` that is published, an address that is not is called. -/
theorem calls_unpublished {domain z : Bytes} {w : Watch} {c : Cycle} (hw : w.Remembers) (hip : c.ip ≠ [])
    (hnew : w.published ≠ some c.ip) :
    ∃ call, (watch_cycle domain z w c).calls = w.calls ++ [call] ∧ call.ip = c.ip := by
  have hlast : c.ip ≠ w.last_ip := by
    rintro heq
    rcases hw with hempty | hpublished
    · exact hip (heq.trans hempty)
    · exact hnew (hpublished.trans (congrArg some heq.symm))
  rw [watch_cycle_calls hip hlast]
  exact ⟨_, rfl, rfl⟩

/-- At the end of every cycle `last_ip` is empty or published, and in every cycle
an address that is not published is called, exactly when the provider takes every
address it is called with. -/
theorem router_watch_remembers_iff (domain zone : Bytes) (cycles : List Cycle) :
    ((∀ pre post, cycles = pre ++ post → (router_watch domain zone pre).Remembers) ∧
      ∀ pre c post, cycles = pre ++ c :: post → c.ip ≠ [] → (router_watch domain zone pre).published ≠ some c.ip →
        ∃ call, (router_watch domain zone (pre ++ [c])).calls = (router_watch domain zone pre).calls ++ [call] ∧
          call.ip = c.ip) ↔
    ∀ pre c post, cycles = pre ++ c :: post → Takes domain (watch_zone domain zone) (router_watch domain zone pre) c := by
  have hsteps := run_iff_steps (run_starts domain (watch_zone domain zone)) (.inl rfl)
    (fun w c _ hw => remembers_taken hw) (fun w c hstart hw => forgets_refused hstart hw) cycles
  constructor
  · exact fun h => hsteps.1 h.1
  · intro h
    refine ⟨hsteps.2 h, fun pre c post hsplit hip hnew => ?_⟩
    have hw := hsteps.2 h pre (c :: post) hsplit
    unfold router_watch at hnew ⊢
    rw [List.foldl_append, List.foldl_cons, List.foldl_nil]
    exact calls_unpublished hw hip hnew

/-- The provider refuses the first address, and is not asked again. -/
def toyCycles : List Cycle := [⟨bytes "203.0.113.7", fun _ _ _ => false⟩, ⟨bytes "203.0.113.7", fun _ _ _ => true⟩]

theorem refused_address_forgotten :
    (router_watch (bytes "app.example.org") [] (toyCycles.take 1)).last_ip = bytes "203.0.113.7" ∧
    (router_watch (bytes "app.example.org") [] (toyCycles.take 1)).published = none ∧
    (router_watch (bytes "app.example.org") [] toyCycles).calls =
      (router_watch (bytes "app.example.org") [] (toyCycles.take 1)).calls ∧
    ¬ ∀ pre post, toyCycles = pre ++ post → (router_watch (bytes "app.example.org") [] pre).Remembers := by
  refine ⟨by decide, by decide, by decide, fun h => ?_⟩
  have hw := h (toyCycles.take 1) (toyCycles.drop 1) rfl
  exact absurd hw (by unfold Watch.Remembers; decide)

end Hostely.Exposure
