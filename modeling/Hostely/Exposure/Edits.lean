import Hostely.Exposure.Routes
/-!
# Editing a file that is partly unreadable

`routes_load` stops at the first entry that throws and returns what it has until
then. `route_add` and `route_remove` write that back as the whole file.
-/

open Hostely.Lib

namespace Hostely.Exposure

/-- What the loop of `routes_load` runs through. -/
def entries (file : RoutesFile) : List Json :=
  ((file.join.bind fun j => j.value (bytes "routes") (.arr [])).map Json.elements).getD []

/-- The entries in front of the first that throws. -/
def readable (file : RoutesFile) : List Json := (entries file).takeWhile fun j => (read_route j).isSome

/-- An object with a host, a target and fields of the right types. -/
structure Good (j : Json) (r : Route) : Prop where
  read : read_route j = some r
  complete : r.complete = true

/-- The host that is edited. -/
def Edit.host : Edit → Bytes
  | add r => r.host
  | remove host => host

def Edit.call (file : RoutesFile) : Edit → Call
  | add r => route_add r file
  | remove host => route_remove host file

/-- The call returns false and the file is as it was, or every good entry for another
host is loaded afterwards. -/
def Edit.LosesNone (file : RoutesFile) (e : Edit) : Prop :=
  e.call file = some (false, file) ∨
    ∀ j ∈ entries file, ∀ r, Good j r → r.host ≠ e.host → r ∈ routes_load (e.run file)

/-- Every good entry for another host, or one like it, stands in front of the first
entry that throws. -/
def InFront (file : RoutesFile) (host : Bytes) : Prop :=
  ∀ j ∈ entries file, ∀ r, Good j r → r.host ≠ host → ∃ j' ∈ readable file, Good j' r

/-! ## What is loaded -/

theorem mem_read_routes {l : List Json} {r : Route} :
    r ∈ read_routes l ↔ ∃ j ∈ l.takeWhile fun j => (read_route j).isSome, Good j r := by
  induction l with
  | nil => simp [read_routes]
  | cons j l ih =>
    rw [read_routes]
    cases hread : read_route j with
    | none => simp [List.takeWhile, hread]
    | some s =>
      have hfront : (j :: l).takeWhile (fun j => (read_route j).isSome) = j :: l.takeWhile fun j => (read_route j).isSome :=
        List.takeWhile_cons_of_pos (by rw [hread]; rfl)
      have hgood : Good j r ↔ r = s ∧ s.complete = true := by
        constructor
        · rintro ⟨hr, hc⟩
          obtain rfl := Option.some.inj (hread.symm.trans hr)
          exact ⟨rfl, hc⟩
        · rintro ⟨rfl, hc⟩
          exact ⟨hread, hc⟩
      rw [hfront, List.exists_mem_cons_iff, hgood, ← ih]
      dsimp only
      split
      · rw [List.mem_cons]
        simp [*]
      · simp [*]

theorem mem_routes_load {file : RoutesFile} {r : Route} : r ∈ routes_load file ↔ ∃ j ∈ readable file, Good j r := by
  unfold readable entries routes_load
  cases file.join.bind fun j => j.value (bytes "routes") (.arr []) with
  | none => simp
  | some routes => exact mem_read_routes

/-! ## What an edit keeps -/

theorem mem_put_other {r x : Route} {routes : List Route} (hx : x.host ≠ r.host) : x ∈ put r routes ↔ x ∈ routes := by
  constructor
  · intro h
    refine (mem_put h).resolve_left ?_
    rintro rfl
    exact hx rfl
  · intro h
    by_cases hex : ∃ y ∈ routes, y.host = r.host
    · rw [put_present hex]
      exact List.mem_map.2 ⟨x, h, if_neg hx⟩
    · rw [put_new fun y hy he => hex ⟨y, hy, he⟩]
      exact List.mem_append_left _ h

/-- What the routes that were written are loaded as. -/
theorem load_written {file : RoutesFile} {routes : List Route} :
    routes_load (((routes_save_atomic routes).map Prod.snd).getD file) = routes.filter (·.complete) ∨
      routes_load (((routes_save_atomic routes).map Prod.snd).getD file) = routes_load file := by
  unfold routes_save_atomic
  split
  · exact .inl (load_saved routes)
  · exact .inr rfl

/-- The routes for other hosts are those that were loaded before. -/
theorem mem_run {file : RoutesFile} {e : Edit} {x : Route} (hx : x.host ≠ e.host) :
    x ∈ routes_load (e.run file) ↔ x ∈ routes_load file := by
  have hcomplete (h : x ∈ routes_load file) : x.complete = true := routes_load_complete file x h
  cases e with
  | add r =>
    have hrun : (Edit.add r).run file = ((routes_save_atomic (put r (routes_load file))).map Prod.snd).getD file := rfl
    rw [hrun]
    rcases @load_written file (put r (routes_load file)) with hload | hload
    · rw [hload, List.mem_filter, mem_put_other hx]
      exact and_iff_left_of_imp hcomplete
    · rw [hload]
  | remove host =>
    have hrun : (Edit.remove host).run file = ((route_remove host file).map Prod.snd).getD file := rfl
    rw [hrun, route_remove]
    split
    · rcases @load_written file ((routes_load file).filter (·.host ≠ host)) with hload | hload
      · rw [hload, List.mem_filter, List.mem_filter]
        have hkept : x ∈ routes_load file → decide (x.host ≠ host) = true ∧ x.complete = true :=
          fun h => ⟨decide_eq_true hx, hcomplete h⟩
        exact ⟨fun h => h.1.1, fun h => ⟨⟨h, (hkept h).1⟩, (hkept h).2⟩⟩
      · rw [hload]
    · rfl

/-- Only a `remove` of a host that is not loaded returns false. -/
theorem call_false {file : RoutesFile} {e : Edit} :
    e.call file = some (false, file) ↔ ∃ host, e = .remove host ∧ ∀ r ∈ routes_load file, r.host ≠ host := by
  have hsave (routes : List Route) : routes_save_atomic routes ≠ some (false, file) := by
    unfold routes_save_atomic
    split <;> simp
  cases e with
  | add r =>
    exact iff_of_false (hsave _) (by simp)
  | remove host =>
    have hcall : (Edit.remove host).call file = route_remove host file := rfl
    rw [hcall, route_remove]
    split
    · rename_i hany
      refine iff_of_false (hsave _) ?_
      rintro ⟨_, ⟨⟩, hnone⟩
      obtain ⟨r, hr, hhost⟩ := List.any_eq_true.1 hany
      exact hnone r hr (of_decide_eq_true hhost)
    · rename_i hany
      refine iff_of_true rfl ⟨host, rfl, fun r hr hhost => hany ?_⟩
      exact List.any_eq_true.2 ⟨r, hr, decide_eq_true hhost⟩

/-- An edit loses no other route exactly if it is a `remove` of a host that no entry
in front of the first that throws has, or if all good entries for other hosts stand
in front of that. -/
theorem loses_none_iff (file : RoutesFile) (e : Edit) :
    e.LosesNone file ↔
      (∃ host, e = .remove host ∧ ∀ j ∈ readable file, ∀ r, Good j r → r.host ≠ host) ∨ InFront file e.host := by
  unfold Edit.LosesNone
  rw [call_false]
  refine or_congr ?_ ?_
  · refine exists_congr fun host => and_congr_right fun _ => ?_
    constructor
    · exact fun h j hj r hr => h r (mem_routes_load.2 ⟨j, hj, hr⟩)
    · intro h r hr
      obtain ⟨j, hj, hgood⟩ := mem_routes_load.1 hr
      exact h j hj r hgood
  · refine forall_congr' fun j => forall_congr' fun _ => forall_congr' fun r => forall_congr' fun _ => forall_congr' fun hne => ?_
    rw [mem_run hne, mem_routes_load]

/-- Two routes, the first with a number for its host. -/
def torn_routes : RoutesFile := some (some (.obj [(bytes "routes", .arr [
  .obj [(bytes "host", .num 5), (bytes "target", .str (bytes "web"))],
  .obj [(bytes "host", .str (bytes "b.example.org")), (bytes "target", .str (bytes "web"))]])]))

/-- When a third is added the second is gone from the file. -/
theorem torn_routes_lose :
    route_add ⟨bytes "c.example.org", bytes "api", 8080, true⟩ torn_routes =
      some (true, some (some (routes_json [⟨bytes "c.example.org", bytes "api", 8080, true⟩]))) ∧
    ¬ ∀ file (e : Edit), e.LosesNone file := by
  have hload : routes_load torn_routes = [] := by decide +kernel
  have hadd : route_add ⟨bytes "c.example.org", bytes "api", 8080, true⟩ torn_routes =
      some (true, some (some (routes_json [⟨bytes "c.example.org", bytes "api", 8080, true⟩]))) := by
    rw [route_add, hload]
    exact if_pos (by decide +kernel)
  refine ⟨hadd, fun h => ?_⟩
  rcases h torn_routes (.add ⟨bytes "c.example.org", bytes "api", 8080, true⟩) with hfalse | hkept
  · have hsame := hadd.symm.trans hfalse
    simp at hsame
  · have hsecond : Good (.obj [(bytes "host", .str (bytes "b.example.org")), (bytes "target", .str (bytes "web"))])
        ⟨bytes "b.example.org", bytes "web", 80, true⟩ := ⟨by decide +kernel, by decide +kernel⟩
    have hmem := (mem_run (by decide)).1 (hkept _ (List.mem_cons_of_mem _ List.mem_cons_self) _ hsecond (by decide))
    rw [hload] at hmem
    cases hmem

end Hostely.Exposure
