import Hostely.Lib.Fallible
import Hostely.Lib.Runs
import Hostely.Top.Sample
import Mathlib.Logic.Function.Basic
/-!
# The containers of the proxy

The proxy keeps a table of the running containers with their addresses. It reads
the listing of the `container` CLI anew every few seconds, and keeps the table it
has when the listing is not what it expects.
-/

open Hostely.Lib

namespace Hostely.Exposure

structure ContainerNet where
  name : Bytes
  ip : Bytes
  /-- container port -> host port -/
  published : Int → Option Int

abbrev ContainerNets := Bytes → Option ContainerNet

/-- How reading an element ends early: in an exception, or in a failed assertion of
the JSON library, which ends the process. -/
inductive Failure where
  | type_error
  | assertion
deriving DecidableEq

def typed {α : Type} (x : Option α) : Except Failure α := x.elim (.error .type_error) .ok

/-! ## Reading the listing -/

/-- `j[key]` of a constant value. -/
def index (j : Json) (key : Bytes) : Except Failure Json :=
  match j with
  | .obj fields => ((fields.find? (·.1 = key)).map (·.2)).elim (.error .assertion) .ok
  | _ => .error .type_error

/-- The address of the first network; none when there is no network. -/
def first_address : Json → Option Bytes
  | .null | .arr [] | .obj [] => some []
  | .arr (net :: _) => net.value_string (bytes "ipv4Address") []
  | _ => none

/-- A port that is no number is left out. -/
def publish (published : Int → Option Int) (item : Bytes × Json) : Int → Option Int :=
  let host_port := (if item.2.is_string then item.2.string else item.2.dump).bind stoi
  match host_port, stoi item.1 with
  | some host_port, some port => Function.update published port (some host_port)
  | _, _ => published

/-- One element; `none` when it is passed over. -/
def read_net (c : Json) : Except Failure (Option ContainerNet) := do
  let configuration ← index c (bytes "configuration")
  let name ← typed (configuration.value_string (bytes "id") [])
  let status ← typed (c.value_string (bytes "status") [])
  if status ≠ bytes "running" then return none
  else
    let networks ← typed ((← index c (bytes "status")).value (bytes "networks") (.arr []))
    let ip ← typed (first_address networks)
    let ports ← typed (configuration.value (bytes "ports") (.obj []))
    return some ⟨name, ip, ports.items.foldl publish fun _ => none⟩

def put_net (next : ContainerNets) (c : Json) : Except Failure ContainerNets := do
  match ← read_net c with
  | none => return next
  | some net => if net.name ≠ [] then return Function.update next net.name (some net) else return next

def read_nets (j : Json) : Except Failure ContainerNets := j.elements.foldlM put_net fun _ => none

/-- `listing` is what the JSON parser makes of the output of `container ls`, if the
command runs and the parser does not throw. There is no table after a failed
assertion. -/
def refresh_container_nets (listing : Option Json) (nets : ContainerNets) : Option ContainerNets :=
  match listing with
  | none => some nets
  | some j =>
    match read_nets j with
    | .ok next => some next
    | .error .type_error => some nets
    | .error .assertion => none

def container_target (name : Bytes) (nets : ContainerNets) : Option Bytes :=
  (nets name).bind fun net => if net.ip ≠ [] then some net.ip else none

/-- The tables that the proxy may come to have. -/
def ContainerNets.Reachable (nets : ContainerNets) : Prop :=
  Reaches (fun nets listing nets' => refresh_container_nets listing nets = some nets') (· = fun _ => none) nets

/-! ## No element gets through

The status that lets an element pass is a text, and in a text there are no
networks.
-/

theorem index_eq_ok {j v dflt : Json} {key : Bytes} (h : index j key = .ok v) : j.value key dflt = some v := by
  cases j with
  | obj fields =>
    simp only [index] at h
    rw [Json.value]
    cases hf : (fields.find? (·.1 = key)).map (·.2) with
    | none =>
      rw [hf] at h
      cases h
    | some w =>
      rw [hf] at h
      rw [Except.ok.inj h]
      rfl
  | _ => cases h

theorem typed_eq_ok {α : Type} {x : Option α} {a : α} (h : typed x = .ok a) : x = some a := by
  cases x with
  | none => cases h
  | some b => rw [Except.ok.inj h]

theorem read_net_none {c : Json} {net : Option ContainerNet} (h : read_net c = .ok net) : net = none := by
  obtain ⟨configuration, -, h⟩ := bind_eq_ok h
  obtain ⟨name, -, h⟩ := bind_eq_ok h
  obtain ⟨text, htext, h⟩ := bind_eq_ok h
  split at h
  · exact (Except.ok.inj h).symm
  · obtain ⟨status, hstatus, h⟩ := bind_eq_ok h
    obtain ⟨networks, hnetworks, -⟩ := bind_eq_ok h
    -- what was read as a text is indexed as an object
    obtain ⟨j, hj, hstring⟩ := Option.bind_eq_some_iff.1 (typed_eq_ok htext)
    obtain rfl := Option.some.inj (hj.symm.trans (index_eq_ok hstatus))
    cases j with
    | obj fields => cases hstring
    | _ => cases typed_eq_ok hnetworks

theorem put_net_eq {next next' : ContainerNets} {c : Json} (h : put_net next c = .ok next') : next' = next := by
  obtain ⟨net, hnet, h⟩ := bind_eq_ok h
  obtain rfl := read_net_none hnet
  exact (Except.ok.inj h).symm

theorem read_nets_empty {j : Json} {next : ContainerNets} (h : read_nets j = .ok next) : next = fun _ => none :=
  foldlM_inv (· = fun _ => none) rfl (fun _ _ _ _ hb hput => (put_net_eq hput).trans hb) h

/-- The table is empty, whatever the CLI lists. -/
theorem ContainerNets.Reachable.empty {nets : ContainerNets} (h : nets.Reachable) : nets = fun _ => none := by
  refine Reaches.inv (I := fun nets => nets = fun _ => none) (fun _ h0 => h0) (fun nets listing nets' hnets hstep => ?_) h
  unfold refresh_container_nets at hstep
  split at hstep
  · exact (Option.some.inj hstep).symm.trans hnets
  · split at hstep
    · rename_i hread
      exact (Option.some.inj hstep).symm.trans (read_nets_empty hread)
    · exact (Option.some.inj hstep).symm.trans hnets
    · cases hstep

/-- No container has a target. -/
theorem container_target_none {nets : ContainerNets} (h : nets.Reachable) (name : Bytes) : container_target name nets = none := by
  rw [h.empty]
  rfl

/-! ## The dashboard reads them

To the dashboard the status is an object.
-/

theorem read_net_throws {c : Json} {status : List (Bytes × Json)} (h : c.value (bytes "status") (.obj []) = some (.obj status))
    (hne : status ≠ []) (net : Option ContainerNet) : read_net c ≠ .ok net := by
  intro hread
  obtain ⟨configuration, -, hread⟩ := bind_eq_ok hread
  obtain ⟨name, -, hread⟩ := bind_eq_ok hread
  obtain ⟨text, htext, -⟩ := bind_eq_ok hread
  obtain ⟨j, hj, hstring⟩ := Option.bind_eq_some_iff.1 (typed_eq_ok htext)
  cases c with
  | obj fields =>
    simp only [Json.value] at h hj
    cases hf : (fields.find? (·.1 = bytes "status")).map (·.2) with
    | none =>
      rw [hf] at h
      exact hne (Json.obj.inj (Option.some.inj h)).symm
    | some w =>
      rw [hf] at h hj
      obtain rfl := Option.some.inj h
      obtain rfl := Option.some.inj hj
      cases hstring
  | _ => cases h

/-- One running container with an address, and the whole listing is refused. -/
theorem read_nets_throws {entries : List Json} {e : Json} (he : e ∈ entries) {name ip : Bytes}
    (h : Top.ReadsRunning e name ip) (next : ContainerNets) : read_nets (.arr entries) ≠ .ok next := by
  intro hread
  obtain ⟨status, hstatus, hne⟩ := h.status
  obtain ⟨c, c', hput⟩ := foldlM_ok_round hread he
  obtain ⟨net, hnet, -⟩ := bind_eq_ok hput
  exact read_net_throws hstatus hne net hnet

/-- A running container of the dashboard is never a target of the proxy: its listing
leaves the table as it was, and it was empty. -/
theorem running_never_target {nets : ContainerNets} (hr : nets.Reachable) {entries : List Json} {e : Json} (he : e ∈ entries)
    {name ip : Bytes} (h : Top.ReadsRunning e name ip) :
    (¬ ∃ nets', refresh_container_nets (some (.arr entries)) nets = some nets' ∧ container_target name nets' = some ip) ∧
      ∀ nets', refresh_container_nets (some (.arr entries)) nets = some nets' → nets' = nets := by
  constructor
  · rintro ⟨nets', hrefresh, htarget⟩
    have hr' : nets'.Reachable := Reaches.step (a := some (.arr entries)) hr hrefresh
    rw [container_target_none hr'] at htarget
    cases htarget
  · intro nets' hrefresh
    unfold refresh_container_nets at hrefresh
    dsimp only at hrefresh
    split at hrefresh
    · exact absurd ‹_› (read_nets_throws he h _)
    · exact (Option.some.inj hrefresh).symm
    · cases hrefresh

/-- A running container as the CLI lists it. -/
def toyEntry : Json := .obj [
  (bytes "configuration", .obj [(bytes "id", .str (bytes "web"))]),
  (bytes "status", .obj [
    (bytes "networks", .arr [.obj [(bytes "ipv4Address", .str (bytes "192.168.64.3/24"))]]),
    (bytes "state", .str (bytes "running"))])]

theorem toyEntry_running : Top.ReadsRunning toyEntry (bytes "web") (bytes "192.168.64.3") := by
  refine ⟨⟨bytes "web", [], bytes "running", bytes "192.168.64.3", [], 0, 0⟩, ?_, rfl, rfl, rfl, ?_, ?_⟩
  all_goals decide +kernel

theorem running_never_target_web :
    ¬ ∃ nets, refresh_container_nets (some (.arr [toyEntry])) (fun _ => none) = some nets ∧
      container_target (bytes "web") nets = some (bytes "192.168.64.3") :=
  (running_never_target (.init rfl) List.mem_cons_self toyEntry_running).1

/-- The dashboard shows the container, the proxy has an empty table after the
listing. -/
theorem web_not_running :
    Top.ReadsRunning toyEntry (bytes "web") (bytes "192.168.64.3") ∧
      ∃ nets, refresh_container_nets (some (.arr [toyEntry])) (fun _ => none) = some nets ∧
        container_target (bytes "web") nets = none ∧
        ¬ ∀ entries e name ip, e ∈ entries → Top.ReadsRunning e name ip →
          ∃ nets, refresh_container_nets (some (.arr entries)) (fun _ => none) = some nets ∧
            container_target name nets = some ip := by
  have hread : read_nets (.arr [toyEntry]) = .error .type_error := by rfl
  have hrefresh : refresh_container_nets (some (.arr [toyEntry])) (fun _ => none) = some fun _ => none := by
    rw [refresh_container_nets, hread]
  refine ⟨toyEntry_running, _, hrefresh, rfl, fun hall => ?_⟩
  obtain ⟨nets, h, htarget⟩ := hall _ _ _ _ List.mem_cons_self toyEntry_running
  obtain rfl := Option.some.inj (hrefresh.symm.trans h)
  cases htarget

end Hostely.Exposure
