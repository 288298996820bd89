import Hostely.Lib.Index
import Hostely.Lib.Runs
import Hostely.Lib.Text
/-!
# The registry of the relay

`g_hosts` says which descriptor owns a hostname, `g_origin_hosts` which
hostnames a descriptor owns. Each call holds `g_mu` from its first line to its
last, so that the calls of all threads happen one after the other.
-/

open Hostely.Lib

namespace Hostely.Tunnel

structure Registry where
  g_hosts : Bytes → Option Int
  g_origin_hosts : Int → Option (List Bytes)

namespace Registry

def empty : Registry := ⟨fun _ => none, fun _ => none⟩

/-- `h` is in `g_origin_hosts[f]`. -/
def Owns (r : Registry) (f : Int) (h : Bytes) : Prop := Lists r.g_origin_hosts f h

end Registry

def register_host (host : Bytes) (fd : Int) (r : Registry) : Bool × Registry :=
  if (r.g_hosts host).isSome then (false, r)  -- already claimed
  else (true, {
    g_hosts := Function.update r.g_hosts host (some fd)
    g_origin_hosts := Function.update r.g_origin_hosts fd (some (((r.g_origin_hosts fd).getD []).insert host)) })

def unregister_fd (fd : Int) (r : Registry) : Registry :=
  match r.g_origin_hosts fd with
  | none => r
  | some hosts => {
    g_hosts := eraseAll r.g_hosts hosts
    g_origin_hosts := Function.update r.g_origin_hosts fd none }

def find_origin (host : Bytes) (r : Registry) : Int := (r.g_hosts host).getD (-1)

/-- A call by one of the threads. -/
inductive RegistryCall where
  | register_host (host : Bytes) (fd : Int)
  | unregister_fd (fd : Int)

def RegistryCall.run (r : Registry) : RegistryCall → Registry
  | register_host host fd => (Tunnel.register_host host fd r).2
  | unregister_fd fd => Tunnel.unregister_fd fd r

namespace Registry

/-- After some calls, from the empty registry of a relay that starts. -/
def Reachable (r : Registry) : Prop := Reaches (fun r (c : RegistryCall) r' => c.run r = r') (· = empty) r

def Consistent (r : Registry) : Prop := Inverse r.g_hosts r.g_origin_hosts

variable {r : Registry}

theorem Consistent.owned (hr : r.Consistent) {h : Bytes} : (r.g_hosts h).isSome = true ↔ ∃ f, r.Owns f h := by
  rw [Option.isSome_iff_exists]
  exact exists_congr fun f => hr h f

end Registry

/-! ## register_host -/

section
variable {r : Registry} {h : Bytes} {fd : Int}

theorem register_host_owned (ho : (r.g_hosts h).isSome = true) : register_host h fd r = (false, r) := if_pos ho

theorem register_host_free (hf : r.g_hosts h = none) :
    register_host h fd r = (true, {
      g_hosts := Function.update r.g_hosts h (some fd)
      g_origin_hosts := Function.update r.g_origin_hosts fd (some (((r.g_origin_hosts fd).getD []).insert h)) }) := by
  rw [register_host, if_neg (by simp [hf])]

theorem register_host_consistent (hr : r.Consistent) (h : Bytes) (fd : Int) : (register_host h fd r).2.Consistent := by
  cases ho : r.g_hosts h with
  | some f =>
    rw [register_host_owned (Option.isSome_of_eq_some ho)]
    exact hr
  | none =>
    rw [register_host_free ho]
    exact Inverse.insert hr ho fd

/-! ## unregister_fd -/

theorem unregister_fd_consistent (hr : r.Consistent) (fd : Int) : (unregister_fd fd r).Consistent := by
  unfold unregister_fd
  split
  · exact hr
  · exact Inverse.erase hr ‹_›

/-- A descriptor gives back what it owns. -/
theorem unregister_fd_owned (ho : r.Owns fd h) : (unregister_fd fd r).g_hosts h = none := by
  obtain ⟨hosts, hi, hm⟩ := ho
  simp only [unregister_fd, hi]
  rw [eraseAll_apply, if_pos hm]

theorem unregister_fd_other (ho : ¬ r.Owns fd h) : (unregister_fd fd r).g_hosts h = r.g_hosts h := by
  unfold unregister_fd
  split
  · rfl
  · rename_i hosts hi
    have hm : h ∉ hosts := fun hm => ho ⟨hosts, hi, hm⟩
    exact (eraseAll_apply _ _ _).trans (if_neg hm)

theorem unregister_fd_owns (f : Int) : (unregister_fd fd r).Owns f h ↔ f ≠ fd ∧ r.Owns f h := by
  unfold unregister_fd
  split
  · rename_i hi
    refine ⟨fun ho => ⟨?_, ho⟩, And.right⟩
    rintro rfl
    obtain ⟨hosts, hf, -⟩ := ho
    rw [hi] at hf
    cases hf
  · exact lists_erase _ _ _ _

end

/-! ## The two maps over all histories -/

theorem Registry.Reachable.consistent {r : Registry} (hr : r.Reachable) : r.Consistent := by
  refine Reaches.inv ?_ ?_ hr
  · rintro _ rfl
    exact Inverse.empty
  · rintro r c _ hr rfl
    cases c with
    | register_host host fd => exact register_host_consistent hr host fd
    | unregister_fd fd => exact unregister_fd_consistent hr fd

/-- The two maps are inverse to each other, a host has one owner, a
registration fails only on a host that is owned and then changes nothing, and a
descriptor that leaves takes its own hosts with it and no others. -/
theorem registry_consistent (r : Registry) (hr : r.Reachable) :
    (∀ h f, r.g_hosts h = some f ↔ r.Owns f h) ∧
    (∀ h f f', r.Owns f h → r.Owns f' h → f = f') ∧
    (∀ h fd, ((register_host h fd r).1 = false ↔ ∃ f, r.Owns f h) ∧
      ((register_host h fd r).1 = false → (register_host h fd r).2 = r)) ∧
    (∀ fd h, (r.Owns fd h → (unregister_fd fd r).g_hosts h = none) ∧
      (¬ r.Owns fd h → (unregister_fd fd r).g_hosts h = r.g_hosts h) ∧
      (∀ f, (unregister_fd fd r).Owns f h ↔ f ≠ fd ∧ r.Owns f h)) := by
  have hc := hr.consistent
  refine ⟨hc, fun h f f' => Inverse.unique hc, fun h fd => ?_,
    fun fd h => ⟨unregister_fd_owned, unregister_fd_other, unregister_fd_owns⟩⟩
  rw [← hc.owned]
  cases ho : r.g_hosts h with
  | some f =>
    have howned := Option.isSome_of_eq_some ho
    rw [register_host_owned howned]
    exact ⟨by simp, fun _ => rfl⟩
  | none =>
    rw [register_host_free ho]
    exact ⟨by simp, fun hf => by cases hf⟩

/-- A hostname passes from one origin to the next. -/
theorem registry_consistent_handover :
    let first := RegistryCall.run Registry.empty (.register_host (bytes "a") 5)
    let next := RegistryCall.run (RegistryCall.run first (.unregister_fd 5)) (.register_host (bytes "a") 6)
    next.Owns 6 (bytes "a") ∧ ∀ f, next.Owns f (bytes "a") → f = 6 := by
  intro first next
  have h0 : Registry.empty.Reachable := .init rfl
  have h1 : first.Reachable := Reaches.step h0 rfl
  have h2 : Registry.Reachable (RegistryCall.run first (.unregister_fd 5)) := Reaches.step h1 rfl
  have hr : next.Reachable := Reaches.step h2 rfl
  have ho : next.Owns 6 (bytes "a") := ((registry_consistent next hr).1 _ 6).1 (by decide +kernel)
  exact ⟨ho, fun f hf => (registry_consistent next hr).2.1 _ f 6 hf ho⟩

end Hostely.Tunnel
