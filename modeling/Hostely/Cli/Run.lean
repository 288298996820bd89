import Hostely.Cli.Args
import Hostely.Services.Manager
/-!
# hostely run

What `run_run` reads of a command line, up to the call of the container CLI. The
options may stand in any order and either spelling; what follows a bare `--` is the
container's command.
-/

open Hostely.Lib

namespace Hostely.Cli

open Services (Manager CliResult RunOptions run_argv)

/-! ## Reading the options -/

inductive RunRefused where
  | usage
  /-- `--env expects KEY=VALUE` -/
  | env (value : Bytes)
  /-- `--volume expects src:dst` -/
  | volume (value : Bytes)
  | image
deriving DecidableEq, Repr

/-- The text on stderr or in the log. -/
def RunRefused.message : RunRefused → Bytes
  | .usage => bytes <| "Usage: hostely run <name> --image <image> [--port h:c]...\n" ++
      "      [--env K=V]... [--volume src:dst]... [--dns <ip>]... [-- cmd arg...]\n"
  | .env value => bytes "--env expects KEY=VALUE, got '" ++ value ++ bytes "'"
  | .volume value => bytes "--volume expects src:dst, got '" ++ value ++ bytes "'"
  | .image => bytes "--image is required"

/-- `find` and the two `substr` around it. -/
def cut (c : UInt8) (v : Bytes) : Option (Bytes × Bytes) := (v.findIdx? (· = c)).map fun i => (v.take i, v.drop (i + 1))

/-- One port is the same on host and container. -/
def parse_port (v : Bytes) : Bytes × Bytes := (cut 58 v).getD (v, v)

def parse_ports (args : ParsedArgs) : List (Bytes × Bytes) :=
  (args.options_.filter fun o => o.name = bytes "port").map fun o => parse_port o.value

/-- The loop over the options. -/
def run_option (opts : RunOptions) (o : ParsedOption) : Except RunRefused RunOptions :=
  if o.name = bytes "env" ∧ o.value ≠ [] then
    match cut 61 o.value with
    | none => .error (.env o.value)
    | some kv => .ok { opts with env := opts.env ++ [kv] }
  else if o.name = bytes "dns" ∧ o.value ≠ [] then .ok { opts with dns := opts.dns ++ [o.value] }
  else if o.name = bytes "volume" ∧ o.value ≠ [] then
    match cut 58 o.value with
    | none => .error (.volume o.value)
    | some sd => .ok { opts with volumes := opts.volumes ++ [sd] }
  else .ok opts

def run_options (args : ParsedArgs) : Except RunRefused RunOptions :=
  match args.operands with
  | [] => .error .usage
  | name :: command => do
    let opts : RunOptions := ⟨name, (args.get (bytes "image")).getD [], parse_ports args, [], [], [], [], []⟩
    let opts ← args.options_.foldlM run_option opts
    let opts := { opts with args := command }
    if opts.image = [] then .error .image else return opts

/-- The commands `run_run` sends, unless the line is refused; `r` is what the CLI comes back with. -/
def run_run (mgr : Manager) (r : CliResult) (args : ParsedArgs) : Except RunRefused (List Services.Command) :=
  (run_options args).map fun opts => (mgr.run r opts).1

/-! ## Spelling them -/

inductive RunItem where
  | port (host container : Bytes)
  | same_port (port : Bytes)
  | env (key value : Bytes)
  | volume (src dst : Bytes)
  | dns (server : Bytes)
  | image (image : Bytes)

def RunItem.name : RunItem → Bytes
  | .port .. | .same_port _ => bytes "port"
  | .env .. => bytes "env"
  | .volume .. => bytes "volume"
  | .dns _ => bytes "dns"
  | .image _ => bytes "image"

def RunItem.value : RunItem → Bytes
  | .port host container => host ++ 58 :: container
  | .same_port p => p
  | .env key value => key ++ 61 :: value
  | .volume src dst => src ++ 58 :: dst
  | .dns server => server
  | .image reference => reference

/-- The first part ends at the first mark. -/
def RunItem.Plain : RunItem → Prop
  | .port host _ => 58 ∉ host
  | .same_port p => 58 ∉ p
  | .env key _ => 61 ∉ key
  | .volume src _ => 58 ∉ src
  | .dns server => server ≠ []
  | .image reference => reference ≠ []

def RunItem.ports : RunItem → Option (Bytes × Bytes)
  | .port host container => some (host, container)
  | .same_port p => some (p, p)
  | _ => none

def RunItem.envs : RunItem → Option (Bytes × Bytes)
  | .env key value => some (key, value)
  | _ => none

def RunItem.volumes : RunItem → Option (Bytes × Bytes)
  | .volume src dst => some (src, dst)
  | _ => none

def RunItem.servers : RunItem → Option Bytes
  | .dns server => some server
  | _ => none

def RunItem.images : RunItem → Option Bytes
  | .image reference => some reference
  | _ => none

/-- As one token or as two; two only for what does not look like an option. -/
inductive Spells (i : RunItem) : List Bytes → Prop
  | joined : Spells i [bytes "--" ++ (i.name ++ 61 :: i.value)]
  | spaced : ¬ IsOption i.value → Spells i [bytes "--" ++ i.name, i.value]

inductive SpellsAll : List RunItem → List Bytes → Prop
  | nil : SpellsAll [] []
  | cons {i : RunItem} {tokens : List Bytes} {items : List RunItem} {line : List Bytes} : Spells i tokens → SpellsAll items line →
      SpellsAll (i :: items) (tokens ++ line)

def RunItem.option (i : RunItem) : ParsedOption := ⟨i.name, i.value, true⟩

section
variable {i : RunItem} {items items' : List RunItem} {tokens line rest : List Bytes} {args : ParsedArgs}

theorem option_names : ∀ name ∈ [bytes "port", bytes "env", bytes "volume", bytes "dns", bytes "image"], name ≠ [] ∧ 61 ∉ name := by
  decide

theorem item_name (i : RunItem) : i.name ≠ [] ∧ 61 ∉ i.name := by
  refine option_names _ ?_
  cases i <;> simp [RunItem.name]

theorem Spells.means (h : Spells i tokens) (hrest : Means rest args) :
    Means (tokens ++ rest) ((given i.name i.value).append args) := by
  obtain ⟨hname, heq⟩ := item_name i
  cases h with
  | joined =>
    obtain ⟨hoption, hne, hpart⟩ := @name_part_long (i.name ++ 61 :: i.value) (List.append_ne_nil_of_right_ne_nil _ (List.cons_ne_nil _ _))
    exact .joined hoption hne hpart heq hrest
  | spaced hvalue =>
    have hmeans := Means.valued (long_takes hname heq) hvalue hrest
    rwa [(name_part_long hname).2.2] at hmeans

theorem SpellsAll.means (h : SpellsAll items line) (hrest : Means rest args) :
    Means (line ++ rest) (ParsedArgs.append ⟨items.map RunItem.option, []⟩ args) := by
  induction h with
  | nil => exact hrest
  | cons hspells _ ih =>
    have hmeans := hspells.means ih
    rwa [← append_assoc, ← List.append_assoc] at hmeans

/-! ## What is read back -/

theorem names_apart : bytes "port" ≠ bytes "env" ∧ bytes "port" ≠ bytes "dns" ∧ bytes "port" ≠ bytes "volume" ∧
    bytes "dns" ≠ bytes "env" ∧ bytes "volume" ≠ bytes "env" ∧ bytes "volume" ≠ bytes "dns" ∧ bytes "image" ≠ bytes "env" ∧
    bytes "image" ≠ bytes "dns" ∧ bytes "image" ≠ bytes "volume" ∧ bytes "image" ≠ bytes "port" := by
  decide

theorem cut_at {c : UInt8} {a : Bytes} (h : c ∉ a) (b : Bytes) : cut c (a ++ c :: b) = some (a, b) := by
  unfold cut
  rw [findIdx?_before h, Option.map_some, List.take_left, List.drop_append, List.drop_of_length_le (Nat.le_succ _)]
  simp

theorem cut_none {c : UInt8} {v : Bytes} (h : c ∉ v) : cut c v = none := by
  unfold cut
  rw [Option.map_eq_none_iff, List.findIdx?_eq_none_iff]
  exact fun d hd => decide_eq_false fun he => h (he ▸ hd)

/-- The options with what an item adds to them. -/
def RunItem.addTo (opts : RunOptions) (i : RunItem) : RunOptions :=
  { opts with env := opts.env ++ i.envs.toList, dns := opts.dns ++ i.servers.toList, volumes := opts.volumes ++ i.volumes.toList }

theorem run_option_item (h : i.Plain) (opts : RunOptions) : run_option opts i.option = .ok (i.addTo opts) := by
  obtain ⟨hpe, hpd, hpv, hde, hve, hvd, hie, hid, hiv, -⟩ := names_apart
  unfold run_option RunItem.addTo
  cases i with
  | port host container => simp [RunItem.option, RunItem.name, hpe, hpd, hpv, RunItem.envs, RunItem.servers, RunItem.volumes]
  | same_port p => simp [RunItem.option, RunItem.name, hpe, hpd, hpv, RunItem.envs, RunItem.servers, RunItem.volumes]
  | env key value =>
    have hcut : cut 61 (key ++ 61 :: value) = some (key, value) := cut_at h value
    simp [RunItem.option, RunItem.name, RunItem.value, hcut, RunItem.envs, RunItem.servers, RunItem.volumes]
  | volume src dst =>
    have hcut : cut 58 (src ++ 58 :: dst) = some (src, dst) := cut_at h dst
    simp [RunItem.option, RunItem.name, RunItem.value, hve, hvd, hcut, RunItem.envs, RunItem.servers, RunItem.volumes]
  | dns server =>
    have hserver : server ≠ [] := h
    simp [RunItem.option, RunItem.name, RunItem.value, hde, hserver, RunItem.envs, RunItem.servers, RunItem.volumes]
  | image reference => simp [RunItem.option, RunItem.name, hie, hid, hiv, RunItem.envs, RunItem.servers, RunItem.volumes]

theorem run_option_items (h : ∀ i ∈ items, i.Plain) (opts : RunOptions) :
    (items.map RunItem.option).foldlM run_option opts = .ok { opts with
      env := opts.env ++ items.filterMap RunItem.envs
      dns := opts.dns ++ items.filterMap RunItem.servers
      volumes := opts.volumes ++ items.filterMap RunItem.volumes } := by
  induction items generalizing opts with
  | nil => simp; rfl
  | cons i items ih =>
    obtain ⟨hi, hitems⟩ := List.forall_mem_cons.1 h
    rw [List.map_cons, List.foldlM_cons, run_option_item hi]
    refine (ih hitems _).trans ?_
    cases i <;> simp [RunItem.addTo, RunItem.envs, RunItem.servers, RunItem.volumes, List.filterMap_cons]

theorem parse_ports_items (h : ∀ i ∈ items, i.Plain) (positionals : List Bytes) :
    parse_ports ⟨items.map RunItem.option, positionals⟩ = items.filterMap RunItem.ports := by
  obtain ⟨hpe, hpd, hpv, -, -, -, -, -, -, hip⟩ := names_apart
  unfold parse_ports
  dsimp only
  induction items with
  | nil => rfl
  | cons i items ih =>
    obtain ⟨hi, hitems⟩ := List.forall_mem_cons.1 h
    rw [List.map_cons, List.filter_cons]
    cases i with
    | port host container =>
      have hcut : parse_port (host ++ 58 :: container) = (host, container) := by rw [parse_port, cut_at hi]; rfl
      simp [RunItem.option, RunItem.name, RunItem.value, hcut, RunItem.ports, ← ih hitems]
    | same_port p =>
      have hcut : parse_port p = (p, p) := by rw [parse_port, cut_none hi]; rfl
      simp [RunItem.option, RunItem.name, RunItem.value, hcut, RunItem.ports, ← ih hitems]
    | env key value => simp [RunItem.option, RunItem.name, hpe.symm, RunItem.ports, List.filterMap_cons, ← ih hitems]
    | volume src dst => simp [RunItem.option, RunItem.name, hpv.symm, RunItem.ports, List.filterMap_cons, ← ih hitems]
    | dns server => simp [RunItem.option, RunItem.name, hpd.symm, RunItem.ports, List.filterMap_cons, ← ih hitems]
    | image reference => simp [RunItem.option, RunItem.name, hip, RunItem.ports, List.filterMap_cons, ← ih hitems]

theorem images_none (h : i.images = none) : i.name ≠ bytes "image" := by
  obtain ⟨-, -, -, -, -, -, hie, hid, hiv, hip⟩ := names_apart
  cases i with
  | image reference => cases h
  | port host container => exact hip.symm
  | same_port p => exact hip.symm
  | env key value => exact hie.symm
  | volume src dst => exact hiv.symm
  | dns server => exact hid.symm

theorem images_some {reference : Bytes} (h : i.images = some reference) : i = .image reference := by
  cases i with
  | image reference => exact congrArg RunItem.image (Option.some.inj h)
  | _ => cases h

theorem get_image (items : List RunItem) (positionals : List Bytes) :
    (ParsedArgs.get ⟨items.map RunItem.option, positionals⟩ (bytes "image")) = (items.filterMap RunItem.images).head? := by
  unfold ParsedArgs.get
  dsimp only
  induction items with
  | nil => rfl
  | cons i items ih =>
    rw [List.map_cons]
    cases hi : i.images with
    | none =>
      rw [List.find?_cons_of_neg (by simpa [RunItem.option] using images_none hi), List.filterMap_cons_none hi]
      exact ih
    | some reference =>
      rw [images_some hi, List.find?_cons_of_pos (by simp [RunItem.option, RunItem.name])]
      rfl

/-- The options that a list of items stands for. -/
def options_of (name image : Bytes) (items : List RunItem) (command : List Bytes) : RunOptions where
  name := name
  image := image
  ports := items.filterMap RunItem.ports
  env := items.filterMap RunItem.envs
  volumes := items.filterMap RunItem.volumes
  args := command
  dns := items.filterMap RunItem.servers
  memory := []

theorem run_options_items {name image : Bytes} {command : List Bytes} (h : ∀ i ∈ items, i.Plain)
    (himage : (items.filterMap RunItem.images).head? = some image) (hne : image ≠ []) (program : Bytes) :
    run_options ⟨items.map RunItem.option, program :: name :: command⟩ = .ok (options_of name image items command) := by
  unfold run_options
  show (do
    let opts : RunOptions := ⟨name, (ParsedArgs.get ⟨items.map RunItem.option, program :: name :: command⟩ (bytes "image")).getD [],
      parse_ports ⟨items.map RunItem.option, program :: name :: command⟩, [], [], [], [], []⟩
    let opts ← (items.map RunItem.option).foldlM run_option opts
    let opts := { opts with args := command }
    if opts.image = [] then .error .image else return opts) = _
  rw [get_image, himage, parse_ports_items h]
  dsimp only
  rw [run_option_items h]
  exact if_neg hne

end

end Hostely.Cli
