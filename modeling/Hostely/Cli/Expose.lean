import Hostely.Cli.Args
import Hostely.Exposure.Router
import Hostely.Exposure.Routes
import Hostely.Lib.Keyed
/-!
# hostely expose

Each command line asks for one edit of the routes, or for none. After any of them the
file is a map from hosts to routes, in which a host has what the last line about it
said; `route list` shows this map, `route rm` knows its hosts, and the proxy serves it.
-/

open Hostely.Lib

namespace Hostely.Cli

open Exposure (Route RoutesFile Edit routes_load route_add route_remove rebuild_routes lookup_route watch_zone put run_edits)

/-! ## The command -/

/-- What a command leaves and says. -/
structure Exposed where
  exit_code : Nat
  file : RoutesFile
  printed : List Bytes
  /-- The zone, the name and the target of the call of `set_cname`. -/
  cname : Option (Bytes × Bytes × Bytes)

def operand (args : ParsedArgs) (i : Nat) : Bytes := args.positionals_.getD i []

def route_line (r : Route) : Bytes :=
  r.host ++ bytes " -> " ++ r.target ++ bytes ":" ++ to_string r.port.toInt ++ (if r.tls then bytes " (tls)" else bytes " (plain)")

/-- `hostely expose route`; nothing when the file cannot be written and `dump` throws. -/
def run_route (file : RoutesFile) (args : ParsedArgs) : Option Exposed :=
  let sc := operand args 2
  if sc = bytes "list" ∨ sc = [] then
    let routes := routes_load file
    some ⟨0, file, if routes = [] then [bytes "no routes"] else routes.map route_line, none⟩
  else if sc = bytes "rm" then
    match args.positionals_[3]? with
    | none => some ⟨2, file, [], none⟩
    | some host => (route_remove host file).map fun (removed, file) => ⟨if removed then 0 else 1, file, [], none⟩
  else some ⟨2, file, [], none⟩

/-- A port that is no number is that of the web. -/
def new_route (args : ParsedArgs) : Route where
  host := operand args 1
  target := operand args 2
  port := (((args.get (bytes "port")).bind stoi).map Int32.ofInt).getD 80
  tls := !args.has (bytes "no-tls")

/-- `provider` says whether one is configured. -/
def run_expose (provider : Bool) (file : RoutesFile) (args : ParsedArgs) : Option Exposed :=
  if operand args 1 = bytes "route" then run_route file args
  else
    let host := operand args 1
    if host = [] ∨ operand args 2 = [] then some ⟨2, file, [], none⟩
    else if args.has (bytes "off") then (route_remove host file).map fun (_, file) => ⟨0, file, [], none⟩
    else (route_add (new_route args) file).map fun (added, file) =>
      if !added then ⟨1, file, [], none⟩
      else
        let cname := (args.get (bytes "cname")).getD []
        ⟨0, file, [], if cname ≠ [] ∧ provider then some (watch_zone host [], host, cname) else none⟩

/-- The file after some command lines, when there was none before; a command that throws
leaves it as it is. -/
def expose_lines (provider : Bool) (lines : List (List Bytes)) : RoutesFile :=
  lines.foldl (fun file argv => ((run_expose provider file (from_argv argv)).map Exposed.file).getD file) none

/-! ## What the lines ask for -/

def edit_of (args : ParsedArgs) : Option Edit :=
  if operand args 1 = bytes "route" then
    if operand args 2 = bytes "rm" then args.positionals_[3]?.map .remove else none
  else if operand args 1 = [] ∨ operand args 2 = [] then none
  else if args.has (bytes "off") then some (.remove (operand args 1))
  else some (.add (new_route args))

/-- A text that is not UTF-8 does not get into the file. -/
def sets (routes : Bytes → Option Route) : Edit → Bytes → Option Route
  | .add r => if r.utf8 then Function.update routes r.host (some r) else routes
  | .remove host => Function.update routes host none

/-- What each host is meant to have after the lines. -/
def meant (lines : List (List Bytes)) : Bytes → Option Route :=
  (lines.filterMap fun argv => edit_of (from_argv argv)).foldl sets fun _ => none

section
variable {provider : Bool} {file : RoutesFile} {args : ParsedArgs} {r x : Route} {routes : List Route} {map : Bytes → Option Route}

theorem expose_edit : ((run_expose provider file args).map Exposed.file).getD file =
    ((edit_of args).map fun e => e.run file).getD file := by
  have hremove {f : Bool → Nat} (host : Bytes) : (((route_remove host file).map fun (removed, file) =>
      (⟨f removed, file, [], none⟩ : Exposed)).map Exposed.file).getD file = (Edit.remove host).run file := by
    rw [Option.map_map]
    rfl
  unfold run_expose edit_of
  by_cases hroute : operand args 1 = bytes "route"
  · rw [if_pos hroute, if_pos hroute, run_route]
    dsimp only
    by_cases hlist : operand args 2 = bytes "list" ∨ operand args 2 = []
    · have hnot : operand args 2 ≠ bytes "rm" := by
        rcases hlist with heq | heq <;> rw [heq] <;> decide
      rw [if_pos hlist, if_neg hnot]
      rfl
    · rw [if_neg hlist]
      by_cases hrm : operand args 2 = bytes "rm"
      · rw [if_pos hrm, if_pos hrm]
        cases args.positionals_[3]? with
        | none => rfl
        | some host => exact hremove (f := fun removed => if removed then 0 else 1) host
      · rw [if_neg hrm, if_neg hrm]
        rfl
  · rw [if_neg hroute, if_neg hroute]
    dsimp only
    by_cases hempty : operand args 1 = [] ∨ operand args 2 = []
    · rw [if_pos hempty, if_pos hempty]
      rfl
    · rw [if_neg hempty, if_neg hempty]
      by_cases hoff : args.has (bytes "off") = true
      · rw [if_pos hoff, if_pos hoff]
        exact hremove (f := fun _ => 0) _
      · rw [if_neg hoff, if_neg hoff]
        show _ = ((route_add (new_route args) file).map Prod.snd).getD file
        cases route_add (new_route args) file with
        | none => rfl
        | some result =>
          obtain ⟨added, file'⟩ := result
          cases added <;> rfl

/-- The lines edit the routes as they ask to. -/
theorem expose_lines_edits (provider : Bool) (lines : List (List Bytes)) :
    expose_lines provider lines = run_edits (lines.filterMap fun argv => edit_of (from_argv argv)) := by
  unfold expose_lines run_edits
  generalize (none : RoutesFile) = file
  induction lines generalizing file with
  | nil => rfl
  | cons argv lines ih =>
    rw [List.foldl_cons, expose_edit, ih, List.filterMap_cons]
    cases edit_of (from_argv argv) <;> rfl

/-! ## The routes as a map -/

/-- The list holds what the map says, once. -/
structure Holds (routes : List Route) (map : Bytes → Option Route) : Prop where
  keyed : ∀ host r, map host = some r → r.host = host
  hosts : (routes.map Route.host).Nodup
  mem : ∀ r, r ∈ routes ↔ map r.host = some r

theorem update_keyed (h : ∀ host r, map host = some r → r.host = host) {host : Bytes} {entry : Option Route}
    (hentry : ∀ r, entry = some r → r.host = host) :
    ∀ host' r, Function.update map host entry host' = some r → r.host = host' := by
  intro host' r hr
  by_cases heq : host' = host
  · rw [heq, Function.update_self] at hr
    exact (hentry r hr).trans heq.symm
  · rw [Function.update_of_ne heq] at hr
    exact h host' r hr

theorem put_holds (h : Holds routes map) (r : Route) : Holds (put r routes) (Function.update map r.host (some r)) := by
  have hmem (x : Route) : Function.update map r.host (some r) x.host = some x ↔ x = r ∨ (x ∈ routes ∧ x.host ≠ r.host) := by
    by_cases hx : x.host = r.host
    · rw [hx, Function.update_self]
      simp [eq_comm]
    · rw [Function.update_of_ne hx, ← h.mem]
      have hne : x ≠ r := fun heq => hx (heq ▸ rfl)
      simp [hx, hne]
  have hkeyed := @update_keyed map h.keyed r.host (some r) fun x hx => Option.some.inj hx ▸ rfl
  by_cases hold : ∃ x ∈ routes, x.host = r.host
  · have hput : put r routes = replaceKey Route.host r routes := if_pos (by simpa using hold)
    rw [hput]
    refine ⟨hkeyed, by rw [keys_replaceKey]; exact h.hosts, fun x => ?_⟩
    rw [mem_replaceKey, hmem, and_iff_left (List.mem_map.2 hold)]
  · have hnew : ∀ x ∈ routes, x.host ≠ r.host := fun x hx heq => hold ⟨x, hx, heq⟩
    rw [Exposure.put_new hnew]
    have hfresh : r.host ∉ routes.map Route.host := fun hr => hold (List.mem_map.1 hr)
    refine ⟨hkeyed, nodup_append_key Route.host r routes h.hosts hfresh, fun x => ?_⟩
    rw [hmem, List.mem_append, List.mem_singleton]
    constructor
    · rintro (hx | rfl)
      · exact .inr ⟨hx, hnew x hx⟩
      · exact .inl rfl
    · rintro (rfl | ⟨hx, -⟩)
      · exact .inr rfl
      · exact .inl hx

theorem erase_holds (h : Holds routes map) (host : Bytes) :
    Holds (routes.filter (·.host ≠ host)) (Function.update map host none) := by
  refine ⟨update_keyed h.keyed fun _ hr => (by cases hr), nodup_eraseKey Route.host host routes h.hosts, fun x => ?_⟩
  rw [List.mem_filter, h.mem]
  by_cases hx : x.host = host
  · rw [hx, Function.update_self]
    simp
  · rw [Function.update_of_ne hx]
    simp [hx]

theorem edit_of_fields {e : Edit} (h : edit_of args = some e) : ∀ r, e = .add r → r.host ≠ [] ∧ r.target ≠ [] := by
  rintro r rfl
  unfold edit_of at h
  split at h
  · split at h
    · obtain ⟨host, -, heq⟩ := Option.map_eq_some_iff.1 h
      cases heq
    · cases h
  · split at h
    · cases h
    · rename_i hempty
      split at h
      · cases h
      · obtain rfl := Edit.add.inj (Option.some.inj h)
        exact not_or.1 hempty

/-- What the file holds after an edit that comes from a command line. -/
theorem edit_holds {e : Edit} (hsaved : Exposure.Saved file) (h : Holds (routes_load file) map)
    (he : ∀ r, e = .add r → r.host ≠ [] ∧ r.target ≠ []) : Holds (routes_load (e.run file)) (sets map e) := by
  cases e with
  | add r =>
    obtain ⟨hhost, htarget⟩ := he r rfl
    rw [Exposure.load_add hsaved htarget, sets]
    by_cases hutf8 : r.utf8 = true
    · rw [if_pos ⟨hhost, hutf8⟩, if_pos hutf8]
      exact put_holds h r
    · rw [if_neg fun hboth => hutf8 hboth.2, if_neg hutf8]
      exact h
  | remove host =>
    rw [Exposure.load_remove hsaved]
    exact erase_holds h host

theorem lines_hold (provider : Bool) (lines : List (List Bytes)) :
    Exposure.Saved (expose_lines provider lines) ∧ Holds (routes_load (expose_lines provider lines)) (meant lines) := by
  have hedits : ∀ e ∈ lines.filterMap (fun argv => edit_of (from_argv argv)), ∀ r, e = .add r → r.host ≠ [] ∧ r.target ≠ [] := by
    intro e he
    obtain ⟨argv, -, hedit⟩ := List.mem_filterMap.1 he
    exact edit_of_fields hedit
  rw [expose_lines_edits, meant]
  generalize lines.filterMap (fun argv => edit_of (from_argv argv)) = edits at hedits
  induction edits using List.reverseRecOn with
  | nil => exact ⟨fun _ hr => absurd hr List.not_mem_nil, fun _ _ hr => (by cases hr), List.nodup_nil,
    fun r => iff_of_false List.not_mem_nil (by simp)⟩
  | append_singleton edits e ih =>
    obtain ⟨hsaved, hholds⟩ := ih fun e he => hedits e (List.mem_append_left _ he)
    have he := hedits e (List.mem_append_right _ (List.mem_singleton_self e))
    unfold run_edits at hsaved hholds ⊢
    rw [List.foldl_append, List.foldl_append]
    exact ⟨Exposure.saved_run hsaved e fun r hr => (he r hr).2, edit_holds hsaved hholds he⟩

/-! ## What follows for the commands and the proxy -/

theorem Holds.known_iff (h : Holds routes map) (host : Bytes) : routes.any (·.host = host) = (map host).isSome := by
  rw [Bool.eq_iff_iff, List.any_eq_true, Option.isSome_iff_exists]
  constructor
  · rintro ⟨r, hr, heq⟩
    exact ⟨r, of_decide_eq_true heq ▸ (h.mem r).1 hr⟩
  · rintro ⟨r, hr⟩
    have hhost := h.keyed host r hr
    exact ⟨r, (h.mem r).2 (hhost ▸ hr), decide_eq_true hhost⟩

/-- Fewer routes can always be written. -/
theorem remove_returns (hsaved : Exposure.Saved file) (h : Holds (routes_load file) map) (host : Bytes) :
    ∃ file', route_remove host file = some ((map host).isSome, file') := by
  unfold route_remove
  dsimp only
  rw [h.known_iff]
  cases (map host).isSome with
  | false => exact ⟨file, rfl⟩
  | true =>
    have hdump : (Exposure.routes_json ((routes_load file).filter (·.host ≠ host))).dump.isSome = true :=
      (Exposure.dump_routes _).2 fun x hx => hsaved x (List.mem_filter.1 hx).1
    exact ⟨_, by rw [if_pos rfl, Exposure.routes_save_atomic, if_pos hdump]⟩

theorem add_returns_iff (hsaved : Exposure.Saved file) (r : Route) : (route_add r file).isSome = r.utf8 := by
  have hdump : (Exposure.routes_json (put r (routes_load file))).dump.isSome = r.utf8 := by
    rw [Bool.eq_iff_iff, Exposure.dump_routes]
    refine ⟨fun hall => hall r (Exposure.mem_put_self r _), fun hr x hx => ?_⟩
    rcases Exposure.mem_put hx with rfl | hx
    · exact hr
    · exact hsaved x hx
  unfold route_add Exposure.routes_save_atomic
  rw [hdump]
  cases r.utf8 <;> rfl

theorem throws_iff (hsaved : Exposure.Saved file) (h : Holds (routes_load file) map) (args : ParsedArgs) :
    run_expose provider file args = none ↔ ∃ r, edit_of args = some (.add r) ∧ r.utf8 = false := by
  have hremove (host : Bytes) {f : Bool × RoutesFile → Exposed} : (route_remove host file).map f ≠ none := by
    obtain ⟨file', hfile'⟩ := remove_returns hsaved h host
    simp [hfile']
  unfold run_expose edit_of
  by_cases hroute : operand args 1 = bytes "route"
  · rw [if_pos hroute, if_pos hroute, run_route]
    dsimp only
    refine iff_of_false ?_ ?_
    · split
      · simp
      · split
        · split
          · simp
          · exact hremove _
        · simp
    · rintro ⟨r, hr, -⟩
      split at hr
      · obtain ⟨host, -, heq⟩ := Option.map_eq_some_iff.1 hr
        cases heq
      · cases hr
  · rw [if_neg hroute, if_neg hroute]
    dsimp only
    by_cases hempty : operand args 1 = [] ∨ operand args 2 = []
    · rw [if_pos hempty, if_pos hempty]
      simp
    · rw [if_neg hempty, if_neg hempty]
      by_cases hoff : args.has (bytes "off") = true
      · rw [if_pos hoff, if_pos hoff]
        exact iff_of_false (hremove _) (by simp)
      · have hadd := add_returns_iff hsaved (new_route args)
        rw [if_neg hoff, if_neg hoff, Option.map_eq_none_iff, ← Option.isNone_iff_eq_none, ← Option.not_isSome, hadd]
        simp

/-- A name is only pointed somewhere once it is routed. -/
theorem cname_routed (hsaved : Exposure.Saved file) {e : Exposed} (he : run_expose provider file args = some e)
    {zone host target : Bytes} (hcname : e.cname = some (zone, host, target)) :
    target ≠ [] ∧ ∃ r ∈ routes_load e.file, r.host = host := by
  have hremove {f : Bool → Nat} {host' : Bytes} (he : ((route_remove host' file).map fun (removed, file) =>
      (⟨f removed, file, [], none⟩ : Exposed)) = some e) : False := by
    obtain ⟨result, -, rfl⟩ := Option.map_eq_some_iff.1 he
    cases hcname
  unfold run_expose at he
  split at he
  · unfold run_route at he
    dsimp only at he
    split at he
    · obtain rfl := Option.some.inj he
      cases hcname
    · split at he
      · split at he
        · obtain rfl := Option.some.inj he
          cases hcname
        · exact (hremove (f := fun removed => if removed then 0 else 1) he).elim
      · obtain rfl := Option.some.inj he
        cases hcname
  · dsimp only at he
    split at he
    · obtain rfl := Option.some.inj he
      cases hcname
    · rename_i hempty
      split at he
      · exact (hremove (f := fun _ => 0) he).elim
      · obtain ⟨⟨added, file'⟩, hadd, rfl⟩ := Option.map_eq_some_iff.1 he
        cases added with
        | false => cases hcname
        | true =>
          simp only [Bool.not_true, Bool.false_eq_true, if_false, Option.ite_none_right_eq_some, Option.some.injEq,
            Prod.mk.injEq] at hcname
          obtain ⟨⟨htarget, -⟩, -, hhost, rfl⟩ := hcname
          refine ⟨htarget, new_route args, ?_, hhost⟩
          have hfields := not_or.1 hempty
          have hutf8 : (new_route args).utf8 = true := by
            rw [← add_returns_iff hsaved, hadd]
            rfl
          have hrun : (Edit.add (new_route args)).run file = file' := by
            show ((route_add (new_route args) file).map Prod.snd).getD file = file'
            rw [hadd]
            rfl
          show new_route args ∈ routes_load file'
          rw [← hrun, Exposure.load_add hsaved hfields.2, if_pos ⟨hfields.1, hutf8⟩]
          exact Exposure.mem_put_self _ _

/-- The proxy serves the one route of a name. -/
theorem proxied (h : Holds (routes_load file) map) {q : Bytes} (hr : map r.host = some r) (hq : r.host.map tolower = q)
    (hone : ∀ x, map x.host = some x → x.host.map tolower = q → x = r) :
    lookup_route q (rebuild_routes file) = some (r.target, r.port) := by
  rw [Exposure.lookup_rebuild]
  cases hshown : Exposure.shown q (routes_load file) with
  | none =>
    have hempty := List.getLast?_eq_none_iff.1 (Option.map_eq_none_iff.1 hshown)
    have hmem : r ∈ (routes_load file).filter fun x => x.host.map tolower = q :=
      List.mem_filter.2 ⟨(h.mem r).2 hr, decide_eq_true hq⟩
    rw [hempty] at hmem
    cases hmem
  | some v =>
    obtain ⟨x, hx, hhost, hv⟩ := Exposure.shown_eq_some hshown
    rw [hv, hone x ((h.mem x).1 hx) hhost]

theorem not_proxied (h : Holds (routes_load file) map) {q : Bytes} (hnone : ∀ x, map x.host = some x → x.host.map tolower ≠ q) :
    lookup_route q (rebuild_routes file) = none := by
  rw [Exposure.lookup_rebuild]
  cases hshown : Exposure.shown q (routes_load file) with
  | none => rfl
  | some v =>
    obtain ⟨x, hx, hhost, -⟩ := Exposure.shown_eq_some hshown
    exact absurd hhost (hnone x ((h.mem x).1 hx))

/-- For every sequence of command lines: the file is the map of what the lines mean, the
next line throws exactly when it would put a text into it that is not UTF-8, `route rm`
knows exactly the hosts of the map, a CNAME is only made for a host that is routed, and
a name that stands for one of the hosts, in any letter case, is served as that host. -/
theorem expose_keeps_map (provider : Bool) (lines : List (List Bytes)) :
    let file := expose_lines provider lines
    ((routes_load file).map Route.host).Nodup ∧
    (∀ r, r ∈ routes_load file ↔ meant lines r.host = some r) ∧
    (∀ args, run_expose provider file args = none ↔ ∃ r, edit_of args = some (.add r) ∧ r.utf8 = false) ∧
    (∀ args e zone host target, run_expose provider file args = some e → e.cname = some (zone, host, target) →
      target ≠ [] ∧ ∃ r ∈ routes_load e.file, r.host = host) ∧
    (∀ args host, operand args 1 = bytes "route" → operand args 2 = bytes "rm" → args.positionals_[3]? = some host →
      ∃ file', run_expose provider file args = some ⟨if (meant lines host).isSome then 0 else 1, file', [], none⟩) ∧
    ∀ q, (∀ r, meant lines r.host = some r → r.host.map tolower = q →
        (∀ x, meant lines x.host = some x → x.host.map tolower = q → x = r) →
        lookup_route q (rebuild_routes file) = some (r.target, r.port)) ∧
      ((∀ r, meant lines r.host = some r → r.host.map tolower ≠ q) → lookup_route q (rebuild_routes file) = none) := by
  intro file
  obtain ⟨hsaved, h⟩ := lines_hold provider lines
  refine ⟨h.hosts, h.mem, throws_iff hsaved h, fun args e zone host target he hcname => cname_routed hsaved he hcname,
    fun args host hroute hrm hhost => ?_, fun q => ⟨fun r hr hq hone => ?_, not_proxied h⟩⟩
  · obtain ⟨file', hfile'⟩ := remove_returns hsaved h host
    have hnot : ¬ (operand args 2 = bytes "list" ∨ operand args 2 = []) := by
      rw [hrm]
      decide
    unfold run_expose run_route
    rw [if_pos hroute, if_neg hnot, if_pos hrm, hhost]
    dsimp only
    rw [hfile']
    exact ⟨file', rfl⟩
  · exact proxied h hr hq hone

end

end Hostely.Cli
