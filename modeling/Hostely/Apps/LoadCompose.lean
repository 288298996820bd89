import Hostely.Apps.Compose
import Hostely.Apps.Yaml
/-!
# load_compose

The services of a compose file, from the mapping under its `services` key. The
values go through `${VAR:-default}` interpolation, which asks the given
variables, then the `.env` file beside the compose file, then the process.
-/

open Hostely.Lib

namespace Hostely.Apps

/-! ## Interpolation -/

/-- Where a name finds its value: the variables of the call and of `.env`, then
the process environment. -/
structure Env where
  extra : List (Bytes × Bytes)
  getenv : Bytes → Option Bytes

/-- What `c_str` passes on. -/
def c_str (s : Bytes) : Bytes := s.takeWhile (· ≠ 0)

def Env.value (env : Env) (name : Bytes) : Bytes :=
  match env.extra.lookup name with
  | some value => value
  | none => (env.getenv (c_str name)).getD []

/-- The value of the expression between the braces. Without a default the value
of an unset name is empty. -/
def reference (env : Env) (expr : Bytes) : Bytes :=
  let (name, dflt) := match findSub? (bytes ":-") expr with
    | some sep => (expr.take sep, expr.drop (sep + 2))
    | none => match expr.idxOf? 45 with
      | some sep => if (findSub? (bytes ":?") expr).isSome then (expr, []) else (expr.take sep, expr.drop (sep + 1))
      | none => (expr, [])
  let val := env.value (trim name)
  if val ≠ [] then val else dflt

/-- `skip` counts the bytes of a reference that are still to be passed. -/
def interpolate_from (env : Env) (skip : Nat) : Bytes → Bytes
  | [] => []
  | c :: text =>
    if 0 < skip then interpolate_from env (skip - 1) text
    else if c = 36 ∧ text.head? = some 123 then
      match text.tail.idxOf? 125 with
      | none => c :: interpolate_from env 0 text
      | some n => reference env (text.tail.take n) ++ interpolate_from env (n + 2) text
    else c :: interpolate_from env 0 text

def interpolate (env : Env) (text : Bytes) : Bytes := interpolate_from env 0 text

/-! ## The values of a service -/

def node_scalar : Node → Bytes
  | .scalar text => text
  | _ => []

/-- The member `map`, empty in a node of another kind. -/
def Node.entries : Node → Entries
  | .map entries => entries
  | _ => []

/-- The text before and after the first `c`. -/
def split_first (c : UInt8) (text : Bytes) : Option (Bytes × Bytes) :=
  (text.idxOf? c).map fun i => (text.take i, text.drop (i + 1))

/-- The text before and after the last `c`. -/
def split_last (c : UInt8) (text : Bytes) : Option (Bytes × Bytes) :=
  (text.reverse.idxOf? c).map fun i => (text.take (text.length - 1 - i), text.drop (text.length - i))

/-- One entry of the list form; a bare name of an unset variable gives none. -/
def env_item (env : Env) (s : Bytes) : Option (Bytes × Bytes) :=
  match split_first 61 s with
  | some pair => some pair
  | none => (env.getenv (c_str s)).map fun value => (s, value)

def parse_env (n : Node) (env : Env) : List (Bytes × Bytes) :=
  match n with
  | .map entries => entries.map fun (k, v) => (k, interpolate env (node_scalar v))
  | .seq items => items.filterMap fun item => env_item env (interpolate env (node_scalar item))
  | .scalar _ => []

def port_spec (spec : Bytes) : Bytes × Bytes := (split_last 58 spec).getD (spec, spec)

def parse_ports (n : Node) : List (Bytes × Bytes) :=
  match n with
  | .seq items => items.map fun item => port_spec (trim (node_scalar item))
  | .scalar text => if text = [] then [] else [port_spec (trim text)]
  | .map _ => []

/-- An anonymous volume is skipped, a mode suffix dropped. -/
def volume_spec (s : Bytes) : Option (Bytes × Bytes) :=
  (split_first 58 s).map fun (src, dst) => (src, ((split_last 58 dst).map Prod.fst).getD dst)

def parse_volumes (n : Node) : List (Bytes × Bytes) :=
  match n with
  | .seq items => items.filterMap fun item => volume_spec (trim (node_scalar item))
  | _ => []

/-- The items of a flow sequence; each round passes a byte, so the length is
enough fuel. -/
def flow_items : Nat → Bytes → List Bytes
  | 0, _ => []
  | fuel + 1, body =>
    match body.dropWhile fun c => isspace c ∨ c = 44 with
    | [] => []
    | c :: rest =>
      let (item, rest) :=
        if c = 34 ∨ c = 39 then (rest.takeWhile (· ≠ c), (rest.dropWhile (· ≠ c)).drop 1)
        else (c :: rest.takeWhile (· ≠ 44), rest.dropWhile (· ≠ 44))
      if trim item = [] then flow_items fuel rest else trim item :: flow_items fuel rest

def parse_command (n : Node) : List Bytes :=
  match n with
  | .seq items => items.map node_scalar
  | .scalar text =>
    let s := trim text
    if text = [] then []
    else if s.head? = some 91 ∧ s.getLast? = some 93 then flow_items s.length s.tail.dropLast
    else words s
  | .map _ => []

def parse_depends_on (n : Node) : List Bytes :=
  match n with
  | .seq items => items.map fun item => trim (node_scalar item)
  | .map entries => entries.map Prod.fst
  | .scalar _ => []

def parse_dns (n : Node) : List Bytes :=
  match n with
  | .seq items => (items.map fun item => trim (node_scalar item)).filter (· ≠ [])
  | n => [trim (node_scalar n)].filter (· ≠ [])

/-! ## The file -/

structure ComposeFile where
  path : Bytes
  services : List ComposeService
deriving DecidableEq, Repr

/-- One line of `.env`; a name that has a value keeps it. -/
def dot_env_line (env : List (Bytes × Bytes)) (line : Bytes) : List (Bytes × Bytes) :=
  match split_first 61 (trim (strip_comment line)) with
  | none => env
  | some (k, v) => if (env.lookup (trim k)).isSome then env else assign (trim k) (unquote (trim v)) env

/-- Where the compose file lies. -/
def dir_of (path : Bytes) : Bytes := ((split_last 47 path).map Prod.fst).getD (bytes ".")

def no_image (name : Bytes) : Bytes :=
  bytes "service '" ++ name ++
    bytes "' has no image (hostely app v1 requires prebuilt images; `build:` is not supported yet)"

/-- One entry of the `services` mapping. -/
def load_service (env : Env) (entry : Bytes × Node) : Except Bytes ComposeService :=
  let (name, body) := entry
  let field {α : Type} (key : String) (read : Node → List α) : List α :=
    ((body.entries.lookup (bytes key)).map read).getD []
  let image := interpolate env (node_scalar ((body.entries.lookup (bytes "image")).getD (.scalar [])))
  if image = [] then .error (no_image name)
  else .ok {
    name := name
    image := image
    ports := (field "ports" parse_ports).map fun (h, c) => (interpolate env h, interpolate env c)
    env := field "environment" fun n => parse_env n env
    volumes := (field "volumes" parse_volumes).map fun (src, dst) => (interpolate env src, interpolate env dst)
    command := field "command" parse_command
    depends_on := field "depends_on" parse_depends_on
    dns := (field "dns" parse_dns).map (interpolate env)
    mem_limit := field "mem_limit" fun n => interpolate env (trim (node_scalar n)) }

/-- The services of the parsed file. -/
def read_services (path : Bytes) (env : Env) (root : Node) : Except Bytes (List ComposeService) :=
  match root.entries.lookup (bytes "services") with
  | some (.map svcs) => do
    let services ← svcs.mapM (load_service env)
    if services = [] then .error (bytes "`services:` block defines no services in " ++ path) else return services
  | _ => .error (bytes "no top-level `services:` block in " ++ path)

def load_lines (path : Bytes) (env : Env) (lines : List Line) : Except Bytes ComposeFile :=
  if lines = [] then .error (bytes "compose file is empty: " ++ path)
  else do
    let (root, _) ← (parse_root lines).mapError ParseError.message
    return ⟨path, ← read_services path env root⟩

/-- `files` gives the content of the files that open. -/
def load_compose (getenv : Bytes → Option Bytes) (files : Bytes → Option Bytes) (path : Bytes)
    (extra_env : List (Bytes × Bytes)) : Except Bytes ComposeFile := do
  let dot_env := (files (dir_of path ++ bytes "/.env")).getD []
  let env : Env := ⟨(getlines dot_env).foldl dot_env_line extra_env, getenv⟩
  let lines ← read_lines path (files path)
  load_lines path env lines

/-! ## What a load that succeeds went through -/

section
variable {getenv : Bytes → Option Bytes} {files : Bytes → Option Bytes} {path : Bytes} {env : Env} {lines : List Line}

theorem load_service_name {entry : Bytes × Node} {s : ComposeService} (h : load_service env entry = .ok s) :
    s.name = entry.1 := by
  unfold load_service at h
  dsimp only at h
  split at h
  · cases h
  · rw [← Except.ok.inj h]

/-- The services have the names of the entries under `services`. -/
theorem read_services_ok {root : Node} {services : List ComposeService} (h : read_services path env root = .ok services) :
    ∃ svcs, root.entries.lookup (bytes "services") = some (.map svcs) ∧
      services.map ComposeService.name = svcs.map Prod.fst := by
  unfold read_services at h
  split at h
  · rename_i svcs hsvcs
    obtain ⟨services', hload, h⟩ := bind_eq_ok h
    split at h
    · cases h
    · obtain rfl := Except.ok.inj h
      exact ⟨svcs, hsvcs, mapM_names (fun _ _ => load_service_name) hload⟩
  · cases h

theorem load_lines_ok {out : ComposeFile} (h : load_lines path env lines = .ok out) :
    ∃ root p, parse_root lines = .ok (root, p) ∧ read_services path env root = .ok out.services := by
  unfold load_lines at h
  split at h
  · cases h
  · obtain ⟨⟨root, p⟩, hroot, h⟩ := bind_eq_ok h
    obtain ⟨services, hservices, h⟩ := bind_eq_ok h
    obtain rfl := Except.ok.inj h
    refine ⟨root, p, ?_, hservices⟩
    cases hp : parse_root lines with
    | error e =>
      rw [hp] at hroot
      cases hroot
    | ok r =>
      rw [hp] at hroot
      exact congrArg Except.ok (Except.ok.inj hroot)

theorem load_compose_ok {extra_env : List (Bytes × Bytes)} {out : ComposeFile}
    (h : load_compose getenv files path extra_env = .ok out) :
    ∃ lines env, read_lines path (files path) = .ok lines ∧ load_lines path env lines = .ok out := by
  obtain ⟨lines, hlines, h⟩ := bind_eq_ok h
  exact ⟨lines, _, hlines, h⟩

end

end Hostely.Apps
