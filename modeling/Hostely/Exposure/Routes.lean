import Hostely.Lib.Json
import Mathlib.Data.List.Induction
import Mathlib.Logic.Function.Basic
/-!
# The routes of the proxy

`routes.json` is a list of routes that the commands read, change and write as a
whole. The proxy makes a table of it by hostname in lower case, in which a later
entry takes the place of an earlier one.
-/

open Hostely.Lib

namespace Hostely.Exposure

structure Route where
  host : Bytes
  target : Bytes
  port : Int32
  tls : Bool
deriving DecidableEq

/-- What the JSON parser makes of `routes.json`, if there is the file: nothing when
it throws. -/
abbrev RoutesFile := Option (Option Json)

/-! ## The file -/

def read_route (r : Json) : Option Route := do
  return {
    host := ← r.value_string (bytes "host") []
    target := ← r.value_string (bytes "target") []
    port := ← r.value_int (bytes "port") 80
    tls := ← r.value_bool (bytes "tls") true }

def Route.complete (r : Route) : Bool := r.host ≠ [] && r.target ≠ []

/-- The routes up to the first entry that throws. -/
def read_routes : List Json → List Route
  | [] => []
  | j :: rest =>
    match read_route j with
    | none => []
    | some r => if r.complete then r :: read_routes rest else read_routes rest

def routes_load (file : RoutesFile) : List Route :=
  match file.join.bind fun j => j.value (bytes "routes") (.arr []) with
  | none => []
  | some routes => read_routes routes.elements

def route_json (r : Route) : Json := .obj [
  (bytes "host", .str r.host),
  (bytes "port", .num r.port.toInt),
  (bytes "target", .str r.target),
  (bytes "tls", .bool r.tls)]

def routes_json (routes : List Route) : Json := .obj [(bytes "routes", .arr (routes.map route_json))]

/-- The result of a call and the file after it; `none` when the call throws, as
`dump` does on a text that is not UTF-8, before the file is replaced. -/
abbrev Call := Option (Bool × RoutesFile)

def routes_save_atomic (routes : List Route) : Call :=
  if (routes_json routes).dump.isSome then some (true, some (some (routes_json routes))) else none

/-- The loop of `route_add` over the routes, and what follows it. -/
def put (r : Route) (routes : List Route) : List Route :=
  let replaced := routes.any (·.host = r.host)
  let routes := routes.map fun existing => if existing.host = r.host then r else existing
  if replaced then routes else routes ++ [r]

def route_add (r : Route) (file : RoutesFile) : Call := routes_save_atomic (put r (routes_load file))

def route_remove (host : Bytes) (file : RoutesFile) : Call :=
  let routes := routes_load file
  let kept := routes.filter (·.host ≠ host)
  if routes.any (·.host = host) then routes_save_atomic kept else some (false, file)

/-! ## The table -/

/-- `RouteTable::by_host` -/
abbrev RouteTable := Bytes → Option (Bytes × Int32)

def rebuild_routes (file : RoutesFile) : RouteTable :=
  (routes_load file).foldl (fun next r => Function.update next (r.host.map tolower) (some (r.target, r.port))) fun _ => none

def lookup_route (host : Bytes) (routes : RouteTable) : Option (Bytes × Int32) := routes host

/-! ## The edits -/

/-- A call of one of the commands. -/
inductive Edit where
  | add (r : Route)
  | remove (host : Bytes)

/-- The file after a call; one that throws leaves it as it is. -/
def Edit.run (file : RoutesFile) : Edit → RoutesFile
  | add r => ((route_add r file).map Prod.snd).getD file
  | remove host => ((route_remove host file).map Prod.snd).getD file

/-- The file after some calls, when there was none before. -/
def run_edits (edits : List Edit) : RoutesFile := edits.foldl Edit.run none

def Edit.means (q : Bytes) (before : Option (Bytes × Int32)) : Edit → Option (Bytes × Int32)
  | add r => if r.host.map tolower = q then some (r.target, r.port) else before
  | remove host => if host.map tolower = q then none else before

/-- What the name means after the calls: the target and port of the last
`route_add` for it, in any letter case, unless a `route_remove` came later. -/
def latest (q : Bytes) (edits : List Edit) : Option (Bytes × Int32) := edits.foldl (Edit.means q) none

/-- A name in another letter case gets in the way: `add` puts the route where its
own spelling stands, in front of another spelling with another target; `remove`
leaves another spelling. The text of a route has to be UTF-8 and its host not
empty. -/
def Edit.fits (routes : List Route) : Edit → Bool
  | add r =>
    r.host ≠ [] && validUtf8 r.host && validUtf8 r.target &&
      (routes.all (·.host ≠ r.host) ||
        match (routes.filter fun x => x.host.map tolower = r.host.map tolower).getLast? with
        | none => true
        | some x => x.host = r.host || (x.target = r.target && x.port = r.port))
  | remove host => routes.all fun x => x.host.map tolower ≠ host.map tolower || x.host = host

/-! ## What a call does to the routes -/

theorem put_new {r : Route} {routes : List Route} (h : ∀ x ∈ routes, x.host ≠ r.host) : put r routes = routes ++ [r] := by
  have hany : routes.any (·.host = r.host) = false := by simpa using h
  have hmap : routes.map (fun x => if x.host = r.host then r else x) = routes :=
    (List.map_congr_left fun x hx => if_neg (h x hx)).trans (List.map_id _)
  unfold put
  rw [hany, hmap]
  rfl

theorem put_present {r : Route} {routes : List Route} (h : ∃ x ∈ routes, x.host = r.host) :
    put r routes = routes.map fun x => if x.host = r.host then r else x := by
  have hany : routes.any (·.host = r.host) = true := by simpa using h
  unfold put
  rw [hany]
  rfl

theorem mem_put {r x : Route} {routes : List Route} (h : x ∈ put r routes) : x = r ∨ x ∈ routes := by
  by_cases hex : ∃ x ∈ routes, x.host = r.host
  · rw [put_present hex] at h
    obtain ⟨y, hy, rfl⟩ := List.mem_map.1 h
    split
    · exact .inl rfl
    · exact .inr hy
  · rw [put_new fun x hx he => hex ⟨x, hx, he⟩] at h
    exact (List.mem_append.1 h).symm.imp_left List.mem_singleton.1

theorem mem_put_self (r : Route) (routes : List Route) : r ∈ put r routes := by
  by_cases hex : ∃ x ∈ routes, x.host = r.host
  · rw [put_present hex]
    obtain ⟨x, hx, he⟩ := hex
    exact List.mem_map.2 ⟨x, hx, if_pos he⟩
  · rw [put_new fun x hx he => hex ⟨x, hx, he⟩]
    exact List.mem_append_right _ List.mem_cons_self

def Route.utf8 (r : Route) : Bool := validUtf8 r.host && validUtf8 r.target

theorem read_route_json (r : Route) : read_route (route_json r) = some r := by
  have hhost : (route_json r).value_string (bytes "host") [] = some r.host := Json.value_string_of (Json.value_head _ _ _ _)
  have htarget : (route_json r).value_string (bytes "target") [] = some r.target := by
    refine Json.value_string_of ?_
    unfold route_json
    rw [Json.value_tail (by decide +kernel), Json.value_tail (by decide +kernel), Json.value_head]
  have hport : (route_json r).value_int (bytes "port") 80 = some r.port := by
    unfold Json.value_int route_json
    rw [Json.value_tail (by decide +kernel), Json.value_head]
    exact congrArg some (Int32.ofInt_toInt r.port)
  have htls : (route_json r).value_bool (bytes "tls") true = some r.tls := by
    unfold Json.value_bool route_json
    rw [Json.value_tail (by decide +kernel), Json.value_tail (by decide +kernel), Json.value_tail (by decide +kernel),
      Json.value_head]
    rfl
  simp [read_route, hhost, htarget, hport, htls]

theorem read_routes_json (routes : List Route) : read_routes (routes.map route_json) = routes.filter (·.complete) := by
  induction routes with
  | nil => rfl
  | cons r routes ih =>
    rw [List.map_cons, read_routes, read_route_json]
    cases hc : r.complete <;> simp [hc, ih]

/-- What is saved is loaded, but for routes without a host or a target. -/
theorem load_saved (routes : List Route) : routes_load (some (some (routes_json routes))) = routes.filter (·.complete) := by
  have hvalue : (routes_json routes).value (bytes "routes") (.arr []) = some (.arr (routes.map route_json)) :=
    Json.value_head _ _ _ _
  simp only [routes_load, Option.join_some, Option.bind_some, hvalue]
  exact read_routes_json routes

theorem dump_routes (routes : List Route) : (routes_json routes).dump.isSome = true ↔ ∀ r ∈ routes, r.utf8 = true := by
  have hnum : ∀ n, (Json.num n).dump.isSome = true := fun _ => rfl
  have hbool : ∀ b, (Json.bool b).dump.isSome = true := by decide
  rw [routes_json, Json.dump_obj]
  simp only [List.forall_mem_cons, Json.dump_str, Json.dump_arr, List.forall_mem_map, route_json, Json.dump_obj, validUtf8_bytes,
    hnum, hbool, true_and, List.not_mem_nil, false_implies, implies_true, and_true, Route.utf8, Bool.and_eq_true]

/-- Every route that is loaded can be saved. -/
def Saved (file : RoutesFile) : Prop := ∀ r ∈ routes_load file, r.utf8 = true

theorem routes_load_complete (file : RoutesFile) : ∀ r ∈ routes_load file, r.complete = true := by
  have hread : ∀ l, ∀ r ∈ read_routes l, r.complete = true := by
    intro l
    induction l with
    | nil => exact fun r hr => by cases hr
    | cons j rest ih =>
      intro r hr
      rw [read_routes] at hr
      split at hr
      · cases hr
      · split at hr
        · rcases List.mem_cons.1 hr with rfl | hr
          · assumption
          · exact ih r hr
        · exact ih r hr
  unfold routes_load
  split
  · exact fun r hr => by cases hr
  · exact hread _

variable {file : RoutesFile}

theorem route_complete (r : Route) : r.complete = true ↔ r.host ≠ [] ∧ r.target ≠ [] := by
  simp [Route.complete]

/-- The routes after an `add`: a text that is not UTF-8 makes it throw, an empty host
is dropped when the file is loaded next. -/
theorem load_add (hs : Saved file) {r : Route} (ht : r.target ≠ []) :
    routes_load ((Edit.add r).run file) =
      if r.host ≠ [] ∧ r.utf8 = true then put r (routes_load file) else routes_load file := by
  have hrun : (Edit.add r).run file = ((routes_save_atomic (put r (routes_load file))).map Prod.snd).getD file := rfl
  have hcomplete := routes_load_complete file
  rw [hrun, routes_save_atomic]
  by_cases hr : r.utf8 = true
  · have hdump : (routes_json (put r (routes_load file))).dump.isSome = true := by
      refine (dump_routes _).2 fun x hx => ?_
      rcases mem_put hx with rfl | hx
      · exact hr
      · exact hs x hx
    rw [if_pos hdump, Option.map_some, Option.getD_some, load_saved]
    by_cases hh : r.host = []
    · rw [if_neg fun h => h.1 hh, put_new, List.filter_append, List.filter_eq_self.2 hcomplete]
      · simp [Route.complete, hh]
      · intro x hx he
        exact ((route_complete x).1 (hcomplete x hx)).1 (he.trans hh)
    · rw [if_pos ⟨hh, hr⟩]
      refine List.filter_eq_self.2 fun x hx => ?_
      rcases mem_put hx with rfl | hx
      · exact (route_complete x).2 ⟨hh, ht⟩
      · exact hcomplete x hx
  · have hdump : ¬ (routes_json (put r (routes_load file))).dump.isSome = true :=
      fun h => hr ((dump_routes _).1 h r (mem_put_self r _))
    rw [if_neg hdump, if_neg fun h => hr h.2]
    rfl

/-- The routes after a `remove`. -/
theorem load_remove (hs : Saved file) (host : Bytes) :
    routes_load ((Edit.remove host).run file) = (routes_load file).filter (·.host ≠ host) := by
  have hrun : (Edit.remove host).run file = ((route_remove host file).map Prod.snd).getD file := rfl
  rw [hrun, route_remove]
  split
  · have hdump : (routes_json ((routes_load file).filter (·.host ≠ host))).dump.isSome = true :=
      (dump_routes _).2 fun x hx => hs x (List.mem_filter.1 hx).1
    rw [routes_save_atomic, if_pos hdump, Option.map_some, Option.getD_some, load_saved]
    exact List.filter_eq_self.2 fun x hx => routes_load_complete file x (List.mem_filter.1 hx).1
  · rename_i hany
    have hnone : ∀ x ∈ routes_load file, x.host ≠ host := by simpa using hany
    exact (List.filter_eq_self.2 fun x hx => decide_eq_true (hnone x hx)).symm

theorem saved_run (hs : Saved file) (e : Edit) (he : ∀ r, e = .add r → r.target ≠ []) : Saved (e.run file) := by
  intro x hx
  cases e with
  | add r =>
    rw [load_add hs (he r rfl)] at hx
    split at hx
    · rcases mem_put hx with rfl | hx
      · exact ‹_ ∧ _›.2
      · exact hs x hx
    · exact hs x hx
  | remove host =>
    rw [load_remove hs] at hx
    exact hs x (List.mem_filter.1 hx).1

/-! ## What the table shows -/

/-- The last of the routes for a name, in any letter case. -/
def shown (q : Bytes) (routes : List Route) : Option (Bytes × Int32) :=
  ((routes.filter fun r => r.host.map tolower = q).getLast?).map fun r => (r.target, r.port)

theorem lookup_rebuild (q : Bytes) (file : RoutesFile) : lookup_route q (rebuild_routes file) = shown q (routes_load file) := by
  unfold lookup_route rebuild_routes
  generalize routes_load file = routes
  induction routes using List.reverseRecOn with
  | nil => rfl
  | append_singleton routes r ih =>
    rw [List.foldl_append, List.foldl_cons, List.foldl_nil, shown, List.filter_append]
    by_cases hq : r.host.map tolower = q
    · subst hq
      simp
    · rw [Function.update_of_ne (Ne.symm hq), ih, List.filter_cons_of_neg (by simpa using hq), List.filter_nil, List.append_nil]
      rfl

section
variable {r : Route} {routes : List Route} {host q : Bytes}

theorem shown_put_other (hq : r.host.map tolower ≠ q) : shown q (put r routes) = shown q routes := by
  by_cases hex : ∃ x ∈ routes, x.host = r.host
  · have hfilter : (put r routes).filter (fun x => x.host.map tolower = q) = routes.filter fun x => x.host.map tolower = q := by
      rw [put_present hex]
      clear hex
      induction routes with
      | nil => rfl
      | cons x routes ih =>
        rw [List.map_cons]
        by_cases hx : x.host = r.host
        · rw [if_pos hx, List.filter_cons_of_neg (by simpa using hq), List.filter_cons_of_neg (by simpa [hx] using hq), ih]
        · rw [if_neg hx, List.filter_cons, List.filter_cons, ih]
    rw [shown, hfilter, shown]
  · rw [put_new fun x hx he => hex ⟨x, hx, he⟩, shown, List.filter_append, List.filter_cons_of_neg (by simpa using hq),
      List.filter_nil, List.append_nil, shown]

theorem shown_put_new (hnew : ∀ x ∈ routes, x.host ≠ r.host) :
    shown (r.host.map tolower) (put r routes) = some (r.target, r.port) := by
  rw [put_new hnew, shown, List.filter_append]
  simp

theorem shown_put_present (hex : ∃ x ∈ routes, x.host = r.host) :
    shown (r.host.map tolower) (put r routes) =
      ((routes.filter fun x => x.host.map tolower = r.host.map tolower).getLast?).map fun x =>
        if x.host = r.host then (r.target, r.port) else (x.target, x.port) := by
  have hsame : ∀ x : Route, (if x.host = r.host then r else x).host = x.host := by
    intro x
    split
    · exact ‹x.host = r.host›.symm
    · rfl
  have hfilter : (put r routes).filter (fun x => x.host.map tolower = r.host.map tolower) =
      (routes.filter fun x => x.host.map tolower = r.host.map tolower).map fun x => if x.host = r.host then r else x := by
    rw [put_present hex, List.filter_map]
    refine congrArg _ (List.filter_congr fun x _ => ?_)
    simp only [Function.comp_apply, hsame]
  rw [shown, hfilter, List.getLast?_map, Option.map_map]
  congr 1
  funext x
  simp only [Function.comp_apply]
  split <;> rfl

theorem shown_remove_other (hq : host.map tolower ≠ q) : shown q (routes.filter (·.host ≠ host)) = shown q routes := by
  have hfilter : (routes.filter (·.host ≠ host)).filter (fun x => x.host.map tolower = q) =
      routes.filter fun x => x.host.map tolower = q := by
    rw [List.filter_filter]
    refine List.filter_congr fun x _ => ?_
    by_cases hx : x.host = host
    · simp [hx, hq]
    · simp [hx]
  rw [shown, hfilter, shown]

theorem shown_remove_eq_none :
    shown (host.map tolower) (routes.filter (·.host ≠ host)) = none ↔
      ∀ x ∈ routes, x.host.map tolower = host.map tolower → x.host = host := by
  rw [shown, Option.map_eq_none_iff, List.getLast?_eq_none_iff, List.filter_filter, List.filter_eq_nil_iff]
  refine forall₂_congr fun x _ => ?_
  by_cases hx : x.host = host <;> simp [hx]

/-- A name that is shown belongs to a route. -/
theorem shown_eq_some {v : Bytes × Int32} (h : shown q routes = some v) :
    ∃ x ∈ routes, x.host.map tolower = q ∧ v = (x.target, x.port) := by
  obtain ⟨x, hx, rfl⟩ := Option.map_eq_some_iff.1 h
  obtain ⟨hm, hq⟩ := List.mem_filter.1 (List.mem_of_getLast? hx)
  exact ⟨x, hm, of_decide_eq_true hq, rfl⟩

end

/-! ## The table follows the edits -/

/-- The table shows every name as it should after the edits. -/
def Follows (routes : List Route) (edits : List Edit) : Prop :=
  ∀ q : Bytes, q.map tolower = q → shown q routes = latest q edits

theorem latest_append (q : Bytes) (edits : List Edit) (e : Edit) : latest q (edits ++ [e]) = e.means q (latest q edits) := by
  rw [latest, List.foldl_append]
  rfl

/-- The name that an edit is about. -/
def Edit.name : Edit → Bytes
  | add r => r.host.map tolower
  | remove host => host.map tolower

section
variable {edits : List Edit}

/-- One more edit has to be seen under its own name only. -/
theorem follows_append {routes routes' : List Route} (h : Follows routes edits) {e : Edit}
    (hother : ∀ q, e.name ≠ q → shown q routes' = shown q routes) :
    Follows routes' (edits ++ [e]) ↔ shown e.name routes' = e.means e.name (latest e.name edits) := by
  have hlower : e.name.map tolower = e.name := by cases e <;> exact map_tolower_tolower _
  have hmeans : ∀ q, e.name ≠ q → ∀ before, e.means q before = before := by
    intro q hq before
    cases e <;> exact if_neg hq
  constructor
  · intro hf
    rw [hf e.name hlower, latest_append]
  · intro hshown q hq
    rw [latest_append]
    by_cases hname : e.name = q
    · rw [← hname]
      exact hshown
    · rw [hother q hname, h q hq, hmeans q hname]

theorem follows_remove_iff (hs : Saved file) (h : Follows (routes_load file) edits) (host : Bytes) :
    Follows (routes_load ((Edit.remove host).run file)) (edits ++ [.remove host]) ↔
      (Edit.remove host).fits (routes_load file) = true := by
  have hself : (Edit.remove host).means (host.map tolower) (latest (host.map tolower) edits) = none := if_pos rfl
  rw [load_remove hs, follows_append h fun q hq => shown_remove_other (by exact hq), Edit.name, hself, shown_remove_eq_none]
  simp only [Edit.fits, List.all_eq_true, Bool.or_eq_true, decide_eq_true_eq, ne_eq]
  exact forall₂_congr fun x _ => Decidable.imp_iff_not_or

/-- The new route is the last one for its name. -/
theorem shown_put_iff {r : Route} {routes : List Route} :
    shown (r.host.map tolower) (put r routes) = some (r.target, r.port) ↔
      (routes.all (·.host ≠ r.host) ||
        match (routes.filter fun x => x.host.map tolower = r.host.map tolower).getLast? with
        | none => true
        | some x => x.host = r.host || (x.target = r.target && x.port = r.port)) = true := by
  by_cases hex : ∃ x ∈ routes, x.host = r.host
  · have hall : routes.all (·.host ≠ r.host) = false := by simpa using hex
    rw [shown_put_present hex, hall]
    cases hlast : (routes.filter fun x => x.host.map tolower = r.host.map tolower).getLast? with
    | none =>
      obtain ⟨x, hx, hhost⟩ := hex
      have hmem := List.getLast?_eq_none_iff.1 hlast
      exact absurd (hmem ▸ List.mem_filter.2 ⟨hx, by simp [hhost]⟩) List.not_mem_nil
    | some x => by_cases hhost : x.host = r.host <;> simp [hhost]
  · have hnew : ∀ x ∈ routes, x.host ≠ r.host := fun x hx hh => hex ⟨x, hx, hh⟩
    have hall : routes.all (·.host ≠ r.host) = true := by simpa using hnew
    rw [shown_put_new hnew, hall]
    simp

theorem follows_add_iff (hs : Saved file) (h : Follows (routes_load file) edits) {r : Route} (ht : r.target ≠ []) :
    Follows (routes_load ((Edit.add r).run file)) (edits ++ [.add r]) ↔ (Edit.add r).fits (routes_load file) = true := by
  have hself : (Edit.add r).means (r.host.map tolower) (latest (r.host.map tolower) edits) = some (r.target, r.port) :=
    if_pos rfl
  have hfits : (Edit.add r).fits (routes_load file) = true ↔ (r.host ≠ [] ∧ r.utf8 = true) ∧
      shown (r.host.map tolower) (put r (routes_load file)) = some (r.target, r.port) := by
    rw [shown_put_iff, Edit.fits, Route.utf8]
    simp only [Bool.and_eq_true, decide_eq_true_eq, and_assoc]
  rw [load_add hs ht, hfits]
  by_cases hok : r.host ≠ [] ∧ r.utf8 = true
  · rw [if_pos hok, and_iff_right hok, follows_append h fun q hq => shown_put_other (by exact hq), Edit.name, hself]
  · rw [if_neg hok, follows_append h fun _ _ => rfl, Edit.name, hself]
    refine iff_of_false (fun hshown => hok ?_) fun hfit => hok hfit.1
    -- the routes that are there are complete and UTF-8, so none of them shows the new one
    obtain ⟨x, hx, hhost, hv⟩ := shown_eq_some hshown
    obtain ⟨htarget, -⟩ := Prod.mk.inj hv
    have hxutf8 := hs x hx
    rw [Route.utf8, Bool.and_eq_true, ← validUtf8_tolower x.host, hhost, validUtf8_tolower, ← htarget] at hxutf8
    refine ⟨fun h0 => ((route_complete x).1 (routes_load_complete file x hx)).1 ?_, by simpa [Route.utf8] using hxutf8⟩
    rw [h0] at hhost
    exact List.map_eq_nil_iff.1 hhost

/-- After one more edit, exactly if it fits. -/
theorem follows_iff (hs : Saved file) (h : Follows (routes_load file) edits) (e : Edit)
    (he : ∀ r, e = .add r → r.target ≠ []) :
    Follows (routes_load (e.run file)) (edits ++ [e]) ↔ e.fits (routes_load file) = true := by
  cases e with
  | add r => exact follows_add_iff hs h (he r rfl)
  | remove host => exact follows_remove_iff hs h host

end

/-- For every sequence of edits with targets: the table rebuilt after each of them
shows every lower case name as the edits so far mean it, exactly if each edit fits
the routes it finds. -/
theorem routes_follow_iff (edits : List Edit) (ht : ∀ r, .add r ∈ edits → r.target ≠ []) :
    (∀ done, done <+: edits → ∀ q : Bytes, q.map tolower = q →
      lookup_route q (rebuild_routes (run_edits done)) = latest q done) ↔
    ∀ done e, done ++ [e] <+: edits → e.fits (routes_load (run_edits done)) = true := by
  have hfollows : ∀ done, (∀ q : Bytes, q.map tolower = q →
      lookup_route q (rebuild_routes (run_edits done)) = latest q done) ↔ Follows (routes_load (run_edits done)) done :=
    fun done => forall₂_congr fun q _ => by rw [lookup_rebuild]
  have hrun : ∀ done e, run_edits (done ++ [e]) = e.run (run_edits done) := by
    intro done e
    rw [run_edits, List.foldl_append]
    rfl
  have hsaved : ∀ done, done <+: edits → Saved (run_edits done) := by
    intro done
    induction done using List.reverseRecOn with
    | nil => exact fun _ r hr => by cases hr
    | append_singleton done e ih =>
      intro hpre
      rw [hrun]
      refine saved_run (ih ((List.prefix_append _ _).trans hpre)) e ?_
      rintro r rfl
      exact ht r (hpre.subset (by simp))
  have hstep : ∀ done e, done ++ [e] <+: edits → Follows (routes_load (run_edits done)) done →
      (Follows (routes_load (run_edits (done ++ [e]))) (done ++ [e]) ↔ e.fits (routes_load (run_edits done)) = true) := by
    intro done e hpre hdone
    rw [hrun]
    refine follows_iff (hsaved done ((List.prefix_append _ _).trans hpre)) hdone e ?_
    rintro r rfl
    exact ht r (hpre.subset (by simp))
  simp only [hfollows]
  constructor
  · intro hall done e hpre
    exact (hstep done e hpre (hall done ((List.prefix_append _ _).trans hpre))).1 (hall _ hpre)
  · intro hfits done
    induction done using List.reverseRecOn with
    | nil => exact fun _ q _ => rfl
    | append_singleton done e ih =>
      intro hpre
      exact (hstep done e hpre (ih ((List.prefix_append _ _).trans hpre))).2 (hfits done e hpre)

/-- One host, routed and removed. -/
def toyEdits : List Edit := [.add ⟨bytes "Shop.io", bytes "web", 80, true⟩, .remove (bytes "Shop.io")]

theorem routes_follow_shop :
    lookup_route (bytes "shop.io") (rebuild_routes (run_edits (toyEdits.take 1))) = some (bytes "web", 80) ∧
      lookup_route (bytes "shop.io") (rebuild_routes (run_edits toyEdits)) = none := by
  have ht : ∀ r, .add r ∈ toyEdits → r.target ≠ [] := by
    intro r hr
    rcases List.mem_cons.1 hr with hr | hr
    · rw [Edit.add.inj hr]
      decide +kernel
    · cases List.mem_singleton.1 hr
  have hfits : ∀ done e, done ++ [e] <+: toyEdits → e.fits (routes_load (run_edits done)) = true := by
    rintro (_ | ⟨a, _ | ⟨b, done⟩⟩) e hpre
    · obtain rfl := (List.cons_prefix_cons.1 hpre).1
      decide +kernel
    · have ha := (List.cons_prefix_cons.1 hpre).1
      have he := (List.cons_prefix_cons.1 (List.cons_prefix_cons.1 hpre).2).1
      rw [ha, he]
      decide +kernel
    · have hlen := hpre.length_le
      simp [toyEdits] at hlen
  have h := (routes_follow_iff toyEdits ht).2 hfits
  have hadded := h (toyEdits.take 1) (List.take_prefix _ _) (bytes "shop.io") (by decide +kernel)
  have hremoved := h toyEdits (List.prefix_refl _) (bytes "shop.io") (by decide +kernel)
  exact ⟨hadded.trans (by decide +kernel), hremoved.trans (by decide +kernel)⟩

/-- A host routed under two spellings, of which one is removed. -/
def toySpellings : List Edit :=
  [.add ⟨bytes "Shop.io", bytes "web", 80, true⟩, .add ⟨bytes "shop.io", bytes "web2", 81, true⟩, .remove (bytes "shop.io")]

/-- The removed host is still served, by the route under the other spelling. -/
theorem removed_still_served :
    lookup_route (bytes "shop.io") (rebuild_routes (run_edits toySpellings)) = some (bytes "web", 80) ∧
      latest (bytes "shop.io") toySpellings = none ∧
      ¬ ∀ q : Bytes, q.map tolower = q →
        lookup_route q (rebuild_routes (run_edits toySpellings)) = latest q toySpellings := by
  have hserved : lookup_route (bytes "shop.io") (rebuild_routes (run_edits toySpellings)) = some (bytes "web", 80) := by
    decide +kernel
  have hlatest : latest (bytes "shop.io") toySpellings = none := by decide +kernel
  refine ⟨hserved, hlatest, fun h => ?_⟩
  have hq := h (bytes "shop.io") (by decide +kernel)
  rw [hserved, hlatest] at hq
  cases hq

end Hostely.Exposure
