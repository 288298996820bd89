import Hostely.Lib.Json
/-!
# Rows of the dashboard

What `hostely top` reads from one element of `container ls --format json`.
`none` stands for a type error, which ends the call.
-/

open Hostely.Lib

namespace Hostely.Top

/-- The part of a row that the listing fills. -/
structure ContainerRow where
  name : Bytes := []
  image : Bytes := []
  state : Bytes := []
  ip : Bytes := []
  ports : Bytes := []
  cpus : UInt64 := 0
  mem_limit : UInt64 := 0
deriving DecidableEq

def short_image (reference : Bytes) : Bytes := afterLast 47 reference

def strip_cidr (ip : Bytes) : Bytes := ip.takeWhile (· ≠ 47)

/-! ## The parts of an element -/

def apply_image (row : ContainerRow) (cfg : Json) : Option ContainerRow := do
  let image ← cfg.value (bytes "image") (.obj [])
  if image.is_object then return { row with image := short_image (← image.value_string (bytes "reference") row.image) }
  else return row

def apply_name (row : ContainerRow) (entry cfg : Json) : Option ContainerRow := do
  let name ← entry.value_string (bytes "id") row.name
  if name = [] then return { row with name := ← cfg.value_string (bytes "id") name }
  else return { row with name := name }

/-- The address of the first network. -/
def apply_networks (row : ContainerRow) : Json → Option ContainerRow
  | .arr (.obj net :: _) => do
    return { row with ip := strip_cidr (← (Json.obj net).value_string (bytes "ipv4Address") []) }
  | _ => some row

def apply_status (row : ContainerRow) (entry : Json) : Option ContainerRow := do
  let status ← entry.value (bytes "status") (.obj [])
  if status.is_object then
    let state ← status.value_string (bytes "state") row.state
    apply_networks { row with state := state } (← status.value (bytes "networks") (.arr []))
  else return row

/-- One published port, after those before it. -/
def apply_port (out : Bytes) (p : Json) : Option Bytes :=
  if p.is_object then do
    let hp ← p.value_int (bytes "hostPort") 0
    let cp ← p.value_int (bytes "containerPort") 0
    let proto ← p.value_string (bytes "proto") (bytes "tcp")
    let sep := if out ≠ [] then bytes ", " else []
    return out ++ sep ++ to_string hp.toInt ++ bytes "->" ++ to_string cp.toInt ++ bytes "/" ++ proto
  else some out

def apply_ports (row : ContainerRow) (cfg : Json) : Option ContainerRow := do
  match ← cfg.value (bytes "publishedPorts") (.arr []) with
  | .arr ports => return { row with ports := ← ports.foldlM apply_port [] }
  | _ => return row

def apply_resources (row : ContainerRow) (cfg : Json) : Option ContainerRow := do
  let res ← cfg.value (bytes "resources") (.obj [])
  if res.is_object then
    let overhead ← res.value_unsigned (bytes "cpuOverhead") 0
    let cpus ← res.value_unsigned (bytes "cpus") 0
    return { row with cpus := (overhead + cpus).toUInt64, mem_limit := ← res.value_ulong (bytes "memoryInBytes") 0 }
  else return row

def apply_list_json (row : ContainerRow) (entry : Json) : Option ContainerRow :=
  if entry.is_object then do
    let cfg ← entry.value (bytes "configuration") (.obj [])
    if cfg.is_object then
      let row ← apply_image row cfg
      let row ← apply_name row entry cfg
      let row ← apply_status row entry
      let row ← apply_ports row cfg
      apply_resources row cfg
    else return row
  else some row

/-- The element is read as a running container of that name, with that address. -/
def ReadsRunning (entry : Json) (name ip : Bytes) : Prop :=
  ∃ row, apply_list_json {} entry = some row ∧ row.state = bytes "running" ∧ row.name = name ∧ row.ip = ip ∧
    name ≠ [] ∧ ip ≠ []

/-! ## What each part fills -/

section
variable {row row' : ContainerRow} {entry cfg : Json}

theorem apply_image_some (h : apply_image row cfg = some row') : ∃ image, row' = { row with image } := by
  obtain ⟨image, -, h⟩ := Option.bind_eq_some_iff.1 h
  split at h
  · obtain ⟨reference, -, h⟩ := Option.bind_eq_some_iff.1 h
    exact ⟨_, (Option.some.inj h).symm⟩
  · exact ⟨row.image, (Option.some.inj h).symm⟩

/-- The id of the element, or that of the configuration when there is none. -/
theorem apply_name_some (h : apply_name row entry cfg = some row') : ∃ name, row' = { row with name } ∧
    (entry.value_string (bytes "id") row.name = some name ∧ name ≠ [] ∨
      entry.value_string (bytes "id") row.name = some [] ∧ cfg.value_string (bytes "id") [] = some name) := by
  obtain ⟨name, hname, h⟩ := Option.bind_eq_some_iff.1 h
  split at h
  · rename_i hempty
    subst hempty
    obtain ⟨id, hid, h⟩ := Option.bind_eq_some_iff.1 h
    exact ⟨id, (Option.some.inj h).symm, .inr ⟨hname, hid⟩⟩
  · rename_i hne
    exact ⟨name, (Option.some.inj h).symm, .inl ⟨hname, hne⟩⟩

theorem apply_status_some (h : apply_status row entry = some row') : ∃ state ip, row' = { row with state, ip } := by
  obtain ⟨status, -, h⟩ := Option.bind_eq_some_iff.1 h
  split at h
  · obtain ⟨state, -, h⟩ := Option.bind_eq_some_iff.1 h
    obtain ⟨networks, -, h⟩ := Option.bind_eq_some_iff.1 h
    unfold apply_networks at h
    split at h
    · obtain ⟨ip, -, h⟩ := Option.bind_eq_some_iff.1 h
      exact ⟨state, _, (Option.some.inj h).symm⟩
    · exact ⟨state, row.ip, (Option.some.inj h).symm⟩
  · exact ⟨row.state, row.ip, (Option.some.inj h).symm⟩

theorem apply_ports_some (h : apply_ports row cfg = some row') : ∃ ports, row' = { row with ports } := by
  obtain ⟨ports, -, h⟩ := Option.bind_eq_some_iff.1 h
  split at h
  · obtain ⟨text, -, h⟩ := Option.bind_eq_some_iff.1 h
    exact ⟨text, (Option.some.inj h).symm⟩
  · exact ⟨row.ports, (Option.some.inj h).symm⟩

theorem apply_resources_some (h : apply_resources row cfg = some row') : ∃ cpus mem_limit, row' = { row with cpus, mem_limit } := by
  obtain ⟨res, -, h⟩ := Option.bind_eq_some_iff.1 h
  split at h
  · obtain ⟨overhead, -, h⟩ := Option.bind_eq_some_iff.1 h
    obtain ⟨cpus, -, h⟩ := Option.bind_eq_some_iff.1 h
    obtain ⟨memory, -, h⟩ := Option.bind_eq_some_iff.1 h
    exact ⟨_, _, (Option.some.inj h).symm⟩
  · exact ⟨row.cpus, row.mem_limit, (Option.some.inj h).symm⟩

/-- Without a status that is an object there is no address. -/
theorem apply_status_ip (h : apply_status row entry = some row') (hip : row'.ip ≠ row.ip) :
    ∃ status, entry.value (bytes "status") (.obj []) = some (.obj status) ∧ status ≠ [] := by
  obtain ⟨status, hstatus, h⟩ := Option.bind_eq_some_iff.1 h
  cases status with
  | obj fields =>
    refine ⟨fields, hstatus, ?_⟩
    rintro rfl
    have hobj : (Json.obj []).is_object = true := rfl
    rw [if_pos hobj] at h
    obtain ⟨state, -, h⟩ := Option.bind_eq_some_iff.1 h
    rw [← Option.some.inj h] at hip
    exact hip rfl
  | _ => exact absurd (congrArg ContainerRow.ip (Option.some.inj h).symm) hip

theorem apply_list_json_ip (h : apply_list_json row entry = some row') (hip : row'.ip ≠ row.ip) :
    ∃ status, entry.value (bytes "status") (.obj []) = some (.obj status) ∧ status ≠ [] := by
  unfold apply_list_json at h
  split at h
  · obtain ⟨cfg, -, h⟩ := Option.bind_eq_some_iff.1 h
    split at h
    · obtain ⟨row1, h1, h⟩ := Option.bind_eq_some_iff.1 h
      obtain ⟨row2, h2, h⟩ := Option.bind_eq_some_iff.1 h
      obtain ⟨row3, h3, h⟩ := Option.bind_eq_some_iff.1 h
      obtain ⟨row4, h4, h⟩ := Option.bind_eq_some_iff.1 h
      refine apply_status_ip h3 ?_
      obtain ⟨image, rfl⟩ := apply_image_some h1
      obtain ⟨name, rfl, -⟩ := apply_name_some h2
      obtain ⟨ports, rfl⟩ := apply_ports_some h4
      obtain ⟨cpus, mem_limit, rfl⟩ := apply_resources_some h
      exact hip
    · exact absurd (congrArg ContainerRow.ip (Option.some.inj h).symm) hip
  · exact absurd (congrArg ContainerRow.ip (Option.some.inj h).symm) hip

end

theorem ReadsRunning.status {entry : Json} {name ip : Bytes} (h : ReadsRunning entry name ip) :
    ∃ status, entry.value (bytes "status") (.obj []) = some (.obj status) ∧ status ≠ [] := by
  obtain ⟨row, hrow, -, -, rfl, -, hip⟩ := h
  exact apply_list_json_ip hrow hip

end Hostely.Top
