import Hostely.Apps.State
import Hostely.Services.Manager
/-!
# app up, stop and rm

`app_up` goes through the services in their order and keeps, starts or
recreates the container of each; the state file is written after the last one.
What the machine answers to one call (the files it reads, the CLI, the ports in
use) is a `World`.
-/

open Hostely.Lib Hostely.Services

namespace Hostely.Apps

/-! ## The machine -/

/-- The commands a call runs the CLI with. -/
inductive Verb where
  | ls | ls_a | start | stop | rm | run
deriving DecidableEq, Repr

/-- The answers to one call. The CLI is asked for the service at a position of
the order and, where the call goes through the old state, for the entry at a
position there; a port is asked for at a position of the service's ports. -/
structure World where
  find_compose_file : Bytes → Option Bytes
  load_compose : Bytes → List (Bytes × Bytes) → Except Bytes (List ComposeService)
  lan_ip : Bytes
  cli : Nat → Nat → Verb → CliResult
  port_in_use : Nat → Nat → Int → Bool
  /-- The state file can be opened for writing. -/
  opens : Bool
  /-- `remove` deletes the state file. -/
  removes : Bool

def Host.launch (h : Host) (name : Bytes) (c : Container) : Host :=
  { h with containers := Function.update h.containers name (some c) }

/-- `container rm -f`, which removes the container when it succeeds. -/
def Host.rm_container (h : Host) (r : CliResult) (name : Bytes) : Host :=
  if r.ok then { h with containers := Function.update h.containers name none } else h

/-- What a call leaves, and why it ended early if it did. -/
structure Ended where
  host : Host
  commands : List Command
  halt : Option Halt

/-! ## Names and addresses -/

def trim_slash (p : Bytes) : Bytes :=
  let trimmed := (p.reverse.dropWhile (· = 47)).reverse
  -- one character always stays
  if trimmed = [] then p.take 1 else trimmed

def basename_of (path : Bytes) : Bytes := afterLast 47 path

def app_name_from_dir (dir : Bytes) : Bytes :=
  let clean := (afterLast 47 (trim_slash dir)).map fun c => if isalnum c ∨ c = 45 ∨ c = 95 then c else 45
  if clean = [] then bytes "app" else clean

def app_name (dir : Bytes) (name_override : Option Bytes) : Bytes :=
  match name_override with
  | some name => if name ≠ [] then name else app_name_from_dir dir
  | none => app_name_from_dir dir

/-- The name of the container of a service, `ro.name`. -/
def container_name (app service : Bytes) : Bytes := app ++ bytes "-" ++ service

def looks_like_addr (k : Bytes) : Bool :=
  let u := k.map toupper
  [bytes "HOST", bytes "URL", bytes "ENDPOINT", bytes "ADDR", bytes "URI"].any fun part => (findSub? part u).isSome

/-- The order in which a set of names is gone through does not matter: a value
becomes `host` or stays. -/
def rewrite_value (svc_names : List Bytes) (host name v : Bytes) : Bytes :=
  svc_names.foldl (fun v other => if other = name ∨ other = [] then v else if v = other then host else v) v

/-- The service with its addresses rewritten, as everything after reads it. -/
def rewrite_env (svc_names : List Bytes) (host : Bytes) (s : ComposeService) : ComposeService :=
  { s with env := s.env.map fun (k, v) => (k, if looks_like_addr k then rewrite_value svc_names host s.name v else v) }

def volumes_of (app : Bytes) (s : ComposeService) : List (Bytes × Bytes) :=
  s.volumes.map fun (src, dst) =>
    if looks_absolute src then (src, dst)
    else if 47 ∉ src then (src, dst)
    else (app ++ bytes "-" ++ s.name ++ bytes "-" ++ basename_of (trim_slash dst), dst)

def run_options (app : Bytes) (s : ComposeService) (ports : List (Bytes × Bytes)) : RunOptions where
  name := container_name app s.name
  image := s.image
  ports := ports
  env := s.env
  volumes := volumes_of app s
  args := s.command
  dns := s.dns
  memory := s.mem_limit

/-! ## Reconciling -/

def container_exists_any_state (r : CliResult) (name : Bytes) : Bool :=
  r.ok && ((getlines r.stdout_text).drop 1).any fun line => (words line).head? = some name

inductive Found where
  | running | stopped | missing
deriving DecidableEq, Repr

def find_container (m : Manager) (cli : Verb → CliResult) (name : Bytes) : Found :=
  let running := match m.list (cli .ls) with
    | .ok infos => infos.any (·.name = name)
    | .error _ => false
  if running then .running
  else if container_exists_any_state (cli .ls_a) name then .stopped
  else .missing

/-- One entry of the old state: whether the service still has to be run, and
the commands sent. -/
def reconcile_entry (m : Manager) (cli : Nat → Verb → CliResult) (service name fingerprint : Bytes)
    (acc : Bool × List Command) (entry : AppServiceState × Nat) : Bool × List Command :=
  if entry.1.service ≠ service then acc
  else if entry.1.config_hash = fingerprint then
    match find_container m (cli entry.2) name with
    | .running => (false, acc.2)
    | .stopped => (false, acc.2 ++ [.start name])
    | .missing => acc
  else acc

def reconcile (m : Manager) (cli : Nat → Verb → CliResult) (service name fingerprint : Bytes)
    (old : List AppServiceState) : Bool × List Command :=
  old.zipIdx.foldl (reconcile_entry m cli service name fingerprint) (true, [])

/-! ## Ports -/

/-- `while (...) ++actual`; past `INT_MAX` the increment is undefined. -/
def next_free (taken : Int → Bool) : Nat → Int → Option Int
  | 0, _ => none
  | room + 1, actual => if taken actual then next_free taken room (actual + 1) else some actual

def pick_port (in_use : Int → Bool) (claimed_ports : List Int) (wanted : Int) : Option Int :=
  let taken p := in_use p || claimed_ports.contains p
  if taken wanted then next_free taken (INT_MAX - wanted).toNat (wanted + 1) else some wanted

def add_port (in_use : Nat → Int → Bool) (acc : List (Bytes × Bytes) × List Int) (port : Bytes × Bytes) :
    Option (List (Bytes × Bytes) × List Int) :=
  let wanted := atoi port.1
  if wanted ≤ 0 then some (acc.1 ++ [port], acc.2)
  else do
    let actual ← pick_port (in_use acc.1.length) acc.2 wanted
    return (acc.1 ++ [(to_string actual, port.2)], actual :: acc.2)

/-- The ports of one service, and the ports claimed after it. -/
def pick_ports (in_use : Nat → Int → Bool) (claimed_ports : List Int) (ports : List (Bytes × Bytes)) :
    Option (List (Bytes × Bytes) × List Int) :=
  ports.foldlM (add_port in_use) ([], claimed_ports)

/-- The ports recorded for a service; the last entry of its name counts. -/
def recorded_ports (service : Bytes) (old : List AppServiceState) (ports : List (Bytes × Bytes)) :
    List (Bytes × Bytes) :=
  old.foldl (fun ports old_svc => if old_svc.service = service then old_svc.ports else ports) ports

/-! ## app_up -/

/-- The variables of the loop over the services. -/
structure Up where
  host : Host
  claimed_ports : List Int
  services : List AppServiceState
  commands : List Command

/-- The services of the old state, none when it does not load. -/
def old_services (h : Host) (app : Bytes) : List AppServiceState := ((load_state h app).map AppState.services).getD []

def start_error (s : ComposeService) (e : ManagerError) : Bytes :=
  bytes "failed to start " ++ s.name ++ bytes ": " ++ e.message ++
    if e.stderr_tail ≠ [] then bytes "\n" ++ e.stderr_tail else []

section
variable (m : Manager) (w : World) (app : Bytes)

/-- Stops and removes the stale container. -/
def clear_stale (s : ComposeService) (u : Up) : Up :=
  let name := container_name app s.name
  { u with
    host := u.host.rm_container (w.cli u.services.length 0 .rm) name
    commands := u.commands ++ m.stop name ++ [.rm name] }

/-- The end of a round, with the ports picked. -/
def finish_service (s : ComposeService) (fingerprint : Bytes) (needs_run : Bool) (ports : List (Bytes × Bytes))
    (u : Up) : Up × Option Halt :=
  let name := container_name app s.name
  let st : AppServiceState := ⟨s.name, name, s.image, fingerprint, ports⟩
  if needs_run then
    let (commands, r) := m.run (w.cli u.services.length 0 .run) (run_options app s ports)
    let u := { u with commands := u.commands ++ commands }
    match r with
    | .error e => (u, some (.error (start_error s e)))
    | .ok _ => ({ u with host := u.host.launch name ⟨s, app⟩, services := u.services ++ [st] }, none)
  else ({ u with services := u.services ++ [st] }, none)

/-- One round of the loop, for a service whose addresses are rewritten. -/
def up_service (s : ComposeService) (u : Up) : Up × Option Halt :=
  let i := u.services.length
  match config_fingerprint s with
  | none => (u, some .thrown)
  | some fingerprint =>
    let old := old_services u.host app
    let (needs_run, started) := reconcile m (w.cli i) s.name (container_name app s.name) fingerprint old
    let u := { u with commands := u.commands ++ started }
    let u := if needs_run then clear_stale m w app s u else u
    match pick_ports (w.port_in_use i) u.claimed_ports s.ports with
    | none => (u, some .endless)
    | some (ports, claimed_ports) =>
      let ports := if !needs_run && old ≠ [] then recorded_ports s.name old ports else ports
      finish_service m w app s fingerprint needs_run ports { u with claimed_ports := claimed_ports }

def up_services : List ComposeService → Up → Up × Option Halt
  | [], u => (u, none)
  | s :: rest, u =>
    match up_service m w app s u with
    | (u, none) => up_services rest u
    | (u, some halt) => (u, some halt)

end

/-- Steps 1 and 2: the compose file, and its services in order with their
addresses rewritten. -/
def prepare (w : World) (dir : Bytes) (extra_env : List (Bytes × Bytes)) :
    Except Bytes (Bytes × List ComposeService) :=
  match w.find_compose_file dir with
  | none => .error (bytes "no compose.yaml / docker-compose.yml found in " ++ dir ++
      bytes " (searched the directory and subdirectories, depth 2)")
  | some compose_path =>
    match w.load_compose compose_path extra_env with
    | .error message => .error message
    | .ok services =>
      match topo_sort services with
      | .error e => .error e.message
      | .ok ordered =>
        let svc_names := ordered.map ComposeService.name
        .ok (compose_path, ordered.map (rewrite_env svc_names w.lan_ip))

def app_up (m : Manager) (w : World) (dir : Bytes) (name_override : Option Bytes)
    (extra_env : List (Bytes × Bytes)) (h : Host) : Ended :=
  let app := app_name dir name_override
  match prepare w dir extra_env with
  | .error message => ⟨h, [], some (.error message)⟩
  | .ok (compose_path, services) =>
    match up_services m w app services ⟨h, [], [], []⟩ with
    | (u, some halt) => ⟨u.host, u.commands, some halt⟩
    | (u, none) =>
      let (h, halt) := save_state w.opens ⟨app, compose_path, u.services⟩ u.host
      ⟨h, u.commands, halt⟩

/-! ## app_stop and app_rm -/

def no_known_app (app : Bytes) : Bytes :=
  bytes "no known app named '" ++ app ++ bytes "' (nothing was ever `hostely app up`'d from it)"

/-- Stopping a container does not remove it. -/
def app_stop (m : Manager) (app : Bytes) (h : Host) : Ended :=
  match load_state h app with
  | none => ⟨h, [], some (.error (no_known_app app))⟩
  | some st => ⟨h, st.services.reverse.flatMap fun s => m.stop s.container, none⟩

def app_rm (m : Manager) (w : World) (app : Bytes) (h : Host) : Ended :=
  let stopped := app_stop m app h
  match stopped.halt with
  | some _ => stopped
  | none =>
    let services := old_services h app
    let h := services.zipIdx.foldl (fun h (s, k) => h.rm_container (w.cli k 0 .rm) s.container) h
    let file := app_state_file h.state_dir app
    ⟨if w.removes then h.write file none else h, stopped.commands ++ services.map fun s => .rm s.container, none⟩

/-! ## Calls -/

inductive AppCall where
  | up (w : World) (dir : Bytes) (name_override : Option Bytes) (extra_env : List (Bytes × Bytes))
  | stop (app : Bytes)
  | rm (w : World) (app : Bytes)

def AppCall.app : AppCall → Bytes
  | up _ dir name_override _ => app_name dir name_override
  | stop app => app
  | rm _ app => app

def AppCall.run (m : Manager) (c : AppCall) (h : Host) : Ended :=
  match c with
  | up w dir name_override extra_env => app_up m w dir name_override extra_env h
  | stop app => app_stop m app h
  | rm w app => app_rm m w app h

/-- A call on `app` that returns. -/
def step (m : Manager) (app : Bytes) (h : Host) (c : AppCall) (h' : Host) : Prop :=
  c.app = app ∧ (c.run m h).halt ≠ some .endless ∧ (c.run m h).host = h'

/-! ## A small machine -/

def toyManager : Manager := ⟨bytes "container"⟩

def toyHost : Host := ⟨[], fun _ => none, fun _ => none⟩

def toyService (name image : String) : ComposeService := ⟨bytes name, bytes image, [], [], [], [], [], [], []⟩

/-- The CLI lists nothing, and does everything but run the service at a
position that `fails`. -/
def toyWorld (services : List ComposeService) (fails : Nat → Bool) : World where
  find_compose_file _ := some (bytes "shop/compose.yaml")
  load_compose _ _ := .ok services
  lan_ip := []
  cli i _ verb := ⟨if verb = .run ∧ fails i then 1 else 0, [], []⟩
  port_in_use _ _ _ := false
  opens := true
  removes := true

def toyUp (services : List ComposeService) (fails : Nat → Bool) : AppCall :=
  .up (toyWorld services fails) (bytes "shop") none []

end Hostely.Apps
