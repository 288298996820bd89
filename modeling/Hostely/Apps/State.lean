import Hostely.Apps.Compose
import Hostely.Lib.Json
/-!
# The state file of an app

What `hostely app` remembers between its calls: one JSON file per app with the
services it launched, each with its container and the fingerprint of its
configuration. The containers of the machine stand beside the files, each with
the service configuration it was launched from.
-/

open Hostely.Lib

namespace Hostely.Apps

structure AppServiceState where
  service : Bytes
  container : Bytes
  image : Bytes
  config_hash : Bytes
  ports : List (Bytes × Bytes)
deriving DecidableEq, Repr

structure AppState where
  name : Bytes
  compose_path : Bytes
  services : List AppServiceState
deriving DecidableEq, Repr

/-- A container as it was launched: from which configuration, and for which app. -/
structure Container where
  config : ComposeService
  app : Bytes
deriving DecidableEq, Repr

/-- What the JSON parser makes of a file: nothing when it throws, as it does on
text that is not UTF-8. -/
abbrev Content := Option { j : Json // j.dump.isSome }

/-- The containers and files of the machine. -/
structure Host where
  state_dir : Bytes
  files : Bytes → Option Content
  containers : Bytes → Option Container

def Host.write (h : Host) (file : Bytes) (content : Option Content) : Host :=
  { h with files := Function.update h.files file content }

/-! ## The fingerprint -/

/-- FNV-1a -/
def fnv1a (s : Bytes) : Bytes :=
  digits 16 (s.foldl (fun h c => (h ^^^ c.toUInt64) * 1099511628211) (1469598103934665603 : UInt64)).toNat

def json_pairs (l : List (Bytes × Bytes)) : Json := .arr (l.map fun (a, b) => .arr [.str a, .str b])

def json_strings (l : List Bytes) : Json := .arr (l.map .str)

/-- `none` when `dump` throws. -/
def config_fingerprint (s : ComposeService) : Option Bytes :=
  let j := Json.obj [
    (bytes "command", json_strings s.command),
    (bytes "dns", json_strings s.dns),
    (bytes "env", json_pairs s.env),
    (bytes "image", .str s.image),
    (bytes "mem_limit", .str s.mem_limit),
    (bytes "ports", json_pairs s.ports),
    (bytes "volumes", json_pairs s.volumes)]
  j.dump.map fnv1a

/-- What the fingerprint is taken of. -/
def ComposeService.config (s : ComposeService) : ComposeService := { s with name := [], depends_on := [] }

theorem config_fingerprint_config (s : ComposeService) : config_fingerprint s.config = config_fingerprint s := rfl

/-! ## load_state and save_state -/

def looks_absolute (p : Bytes) : Bool := p.head? = some 47

def app_state_file (state_dir app : Bytes) : Bytes :=
  let file := app ++ bytes ".json"
  -- an absolute path takes the place of the directory it is appended to
  if looks_absolute file then file else state_dir ++ bytes "/apps/" ++ file

def read_port : Json → Option (Option (Bytes × Bytes))
  | .arr [h, c] => do return some (← h.string, ← c.string)
  | _ => some none

def read_service (s : Json) : Option AppServiceState := do
  let ports ← (← s.value (bytes "ports") (.arr [])).elements.mapM read_port
  return {
    service := ← s.value_string (bytes "service") []
    container := ← s.value_string (bytes "container") []
    image := ← s.value_string (bytes "image") []
    config_hash := ← s.value_string (bytes "config_hash") []
    ports := ports.filterMap id }

def read_state (app : Bytes) (j : Json) : Option AppState := do
  return {
    name := ← j.value_string (bytes "name") app
    compose_path := ← j.value_string (bytes "compose_path") []
    services := ← (← j.value (bytes "services") (.arr [])).elements.mapM read_service }

/-- `none` where `load_state` returns false. -/
def load_state (h : Host) (app : Bytes) : Option AppState :=
  (h.files (app_state_file h.state_dir app)).join.bind fun j => read_state app j

def service_json (s : AppServiceState) : Json := .obj [
  (bytes "config_hash", .str s.config_hash),
  (bytes "container", .str s.container),
  (bytes "image", .str s.image),
  (bytes "ports", json_pairs s.ports),
  (bytes "service", .str s.service)]

def state_json (st : AppState) : Json := .obj [
  (bytes "compose_path", .str st.compose_path),
  (bytes "name", .str st.name),
  (bytes "services", .arr (st.services.map service_json))]

/-- Why a call ends early. -/
inductive Halt where
  | error (message : Bytes)
  /-- An exception of the JSON library. -/
  | thrown
  /-- The search for a free port never ends. -/
  | endless
deriving DecidableEq, Repr

/-- The file is opened, and emptied, before its text is made. -/
def save_state (opens : Bool) (st : AppState) (h : Host) : Host × Option Halt :=
  let file := app_state_file h.state_dir st.name
  if !opens then (h, some (.error (bytes "cannot write " ++ file)))
  else if hd : (state_json st).dump.isSome then (h.write file (some (some ⟨state_json st, hd⟩)), none)
  else (h.write file (some none), some .thrown)

/-! ## What is saved is loaded -/

theorem read_service_json (s : AppServiceState) : read_service (service_json s) = some s := by
  have hports : (service_json s).value (bytes "ports") (.arr []) = some (json_pairs s.ports) := by
    rw [service_json, Json.value_tail (by decide), Json.value_tail (by decide), Json.value_tail (by decide),
      Json.value_head]
  have hread : (json_pairs s.ports).elements.mapM read_port = some (s.ports.map some) :=
    Json.mapM_map (fun x : Bytes × Bytes => show read_port (.arr [.str x.1, .str x.2]) = some (some x) from rfl) s.ports
  have hservice : (service_json s).value_string (bytes "service") [] = some s.service := by
    apply Json.value_string_of
    rw [service_json, Json.value_tail (by decide), Json.value_tail (by decide), Json.value_tail (by decide),
      Json.value_tail (by decide), Json.value_head]
  have hcontainer : (service_json s).value_string (bytes "container") [] = some s.container := by
    apply Json.value_string_of
    rw [service_json, Json.value_tail (by decide), Json.value_head]
  have himage : (service_json s).value_string (bytes "image") [] = some s.image := by
    apply Json.value_string_of
    rw [service_json, Json.value_tail (by decide), Json.value_tail (by decide), Json.value_head]
  have hhash : (service_json s).value_string (bytes "config_hash") [] = some s.config_hash := by
    apply Json.value_string_of
    rw [service_json, Json.value_head]
  unfold read_service
  rw [hports, Option.bind_eq_bind, Option.bind_some, hread, hservice, hcontainer, himage, hhash]
  simp

theorem read_state_json (app : Bytes) (st : AppState) : read_state app (state_json st) = some st := by
  have hservices : (state_json st).value (bytes "services") (.arr []) = some (.arr (st.services.map service_json)) := by
    rw [state_json, Json.value_tail (by decide), Json.value_tail (by decide), Json.value_head]
  have hread : (Json.arr (st.services.map service_json)).elements.mapM read_service = some (st.services.map id) :=
    Json.mapM_map read_service_json st.services
  have hname : (state_json st).value_string (bytes "name") app = some st.name := by
    apply Json.value_string_of
    rw [state_json, Json.value_tail (by decide), Json.value_head]
  have hpath : (state_json st).value_string (bytes "compose_path") [] = some st.compose_path := by
    apply Json.value_string_of
    rw [state_json, Json.value_head]
  unfold read_state
  rw [hservices, hname, hpath, Option.bind_eq_bind, Option.bind_some, Option.bind_eq_bind, Option.bind_some,
    Option.bind_eq_bind, Option.bind_some, hread]
  simp

/-! ## Text that can be saved -/

/-- Pairs of strings that are UTF-8. -/
def ValidPairs (l : List (Bytes × Bytes)) : Prop := ∀ p ∈ l, validUtf8 p.1 = true ∧ validUtf8 p.2 = true

theorem json_pairs_valid (l : List (Bytes × Bytes)) : (json_pairs l).dump.isSome = true ↔ ValidPairs l := by
  rw [json_pairs, Json.dump_arr, List.forall_mem_map]
  apply forall₂_congr
  intro p _
  rw [Json.dump_arr]
  simp [Json.dump_str]

theorem fingerprint_valid {s : ComposeService} {fingerprint : Bytes} (h : config_fingerprint s = some fingerprint) :
    validUtf8 s.image = true ∧ ValidPairs s.ports ∧ validUtf8 fingerprint = true := by
  obtain ⟨text, htext, rfl⟩ := Option.map_eq_some_iff.1 h
  have hfields := (Json.dump_obj _).1 (Option.isSome_of_eq_some htext)
  simp only [List.forall_mem_cons] at hfields
  obtain ⟨_, _, _, himage, _, hports, _⟩ := hfields
  refine ⟨?_, (json_pairs_valid _).1 hports.2, validUtf8_ascii (digits_ascii _ _)⟩
  rw [← Json.dump_str]
  exact himage.2

theorem read_port_valid {j : Json} {p : Bytes × Bytes} (hj : j.dump.isSome = true) (h : read_port j = some (some p)) :
    validUtf8 p.1 = true ∧ validUtf8 p.2 = true := by
  unfold read_port at h
  split at h
  · have hpair := (Json.dump_arr _).1 hj
    simp only [List.forall_mem_cons] at hpair
    obtain ⟨h1, hh1, h⟩ := Option.bind_eq_some_iff.1 h
    obtain ⟨c1, hc1, h⟩ := Option.bind_eq_some_iff.1 h
    obtain rfl := Option.some.inj (Option.some.inj h)
    exact ⟨Json.string_valid hpair.1 hh1, Json.string_valid hpair.2.1 hc1⟩
  · cases h

/-- The ports that a file records can be saved again. -/
theorem read_service_valid {j : Json} {s : AppServiceState} (hj : j.dump.isSome = true) (h : read_service j = some s) :
    ValidPairs s.ports := by
  unfold read_service at h
  obtain ⟨v, hv, h⟩ := Option.bind_eq_some_iff.1 h
  obtain ⟨ports, hports, h⟩ := Option.bind_eq_some_iff.1 h
  have hs : s.ports = ports.filterMap id := by
    simp only [Option.bind_eq_bind, Option.bind_eq_some_iff] at h
    obtain ⟨_, _, _, _, _, _, _, _, h⟩ := h
    exact (congrArg AppServiceState.ports (Option.some.inj h)).symm
  intro p hp
  rw [hs, List.mem_filterMap] at hp
  obtain ⟨o, ho, rfl⟩ := hp
  obtain ⟨e, he, hread⟩ := mem_of_mapM hports ho
  exact read_port_valid (Json.elements_valid (Json.value_valid hj (by decide) hv) he) hread

theorem read_state_valid {app : Bytes} {j : Json} {st : AppState} (hj : j.dump.isSome = true)
    (h : read_state app j = some st) : ∀ s ∈ st.services, ValidPairs s.ports := by
  unfold read_state at h
  simp only [Option.bind_eq_bind, Option.bind_eq_some_iff] at h
  obtain ⟨_, _, _, _, v, hv, services, hservices, h⟩ := h
  obtain rfl := Option.some.inj h
  intro s hs
  obtain ⟨e, he, hread⟩ := mem_of_mapM hservices hs
  exact read_service_valid (Json.elements_valid (Json.value_valid hj (by decide) hv) he) hread

theorem state_json_valid (st : AppState) : (state_json st).dump.isSome = true ↔
    validUtf8 st.compose_path = true ∧ validUtf8 st.name = true ∧ ∀ s ∈ st.services,
      validUtf8 s.config_hash = true ∧ validUtf8 s.container = true ∧ validUtf8 s.image = true ∧
        ValidPairs s.ports ∧ validUtf8 s.service = true := by
  rw [state_json, Json.dump_obj]
  simp only [List.forall_mem_cons, Json.dump_str, Json.dump_arr, List.forall_mem_map, service_json, Json.dump_obj,
    json_pairs_valid, validUtf8_bytes, true_and, List.not_mem_nil, false_implies, implies_true, and_true]

section Files
variable (h : Host) (file app : Bytes) (content : Option Content)

@[simp] theorem Host.write_state_dir : (h.write file content).state_dir = h.state_dir := rfl
@[simp] theorem Host.write_self : (h.write file content).files file = content := Function.update_self ..

end Files

section Save
variable {h : Host} {st : AppState}

/-- Saving fails before the file is touched, or with an empty file, or works. -/
theorem save_cases (opens : Bool) (st : AppState) (h : Host) :
    (opens = false ∧ (save_state opens st h).1 = h ∧ (save_state opens st h).2 ≠ none) ∨
    (opens = true ∧ (state_json st).dump.isSome = false ∧ save_state opens st h =
      (h.write (app_state_file h.state_dir st.name) (some none), some .thrown)) ∨
    (opens = true ∧ ∃ hd, save_state opens st h =
      (h.write (app_state_file h.state_dir st.name) (some (some ⟨state_json st, hd⟩)), none)) := by
  unfold save_state
  cases opens with
  | false => exact .inl ⟨rfl, rfl, by simp⟩
  | true =>
    by_cases hd : (state_json st).dump.isSome
    · exact .inr (.inr ⟨rfl, hd, by simp [hd]⟩)
    · exact .inr (.inl ⟨rfl, by simpa using hd, by simp [hd]⟩)

/-- What was saved is what is loaded. -/
theorem load_saved {app : Bytes} {hd : (state_json st).dump.isSome}
    (hs : h.files (app_state_file h.state_dir app) = some (some ⟨state_json st, hd⟩)) : load_state h app = some st := by
  simp [load_state, hs, read_state_json]

end Save

end Hostely.Apps
