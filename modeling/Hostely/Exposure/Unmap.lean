import Hostely.Exposure.NatPmp
import Hostely.Lib.Keyed
/-!
# Unmapping a port

A gateway has mappings by protocol and internal port, which is also how a request with
lifetime 0 names the one to delete. `router_unmap_port` gives the external port, which
is ignored, and 0 for the internal one, which stands for all of them.
-/

open Hostely.Lib Hostely.Tunnel

namespace Hostely.Exposure.NatPmp

/-! ## The gateway -/

structure Mapping where
  opcode : UInt8
  internal : UInt16
  external : UInt16
deriving DecidableEq, Repr

def Mapping.key (m : Mapping) : UInt8 × UInt16 := (m.opcode, m.internal)

structure Gateway where
  mappings : List Mapping
  keyed : (mappings.map Mapping.key).Nodup

def Gateway.none : Gateway := ⟨[], List.nodup_nil⟩

/-- The fields of a request, which its length tells from others. -/
structure MapRequest where
  opcode : UInt8
  internal : UInt16
  external : UInt16
  lifetime : UInt32
deriving DecidableEq, Repr

def read_request : Bytes → Option MapRequest
  | [_, op, _, _, i, i', e, e', l, l', l'', l'''] => some ⟨op, get_u16 i i', get_u16 e e', get_u32 l l' l'' l'''⟩
  | _ => .none

/-- The result codes other than success. -/
inductive Refusal where
  | unsupported_version
  | not_authorized
  | network_failure
  | out_of_resources
  | unsupported_opcode
deriving DecidableEq, Repr

def Refusal.code : Refusal → UInt16
  | unsupported_version => 1
  | not_authorized => 2
  | network_failure => 3
  | out_of_resources => 4
  | unsupported_opcode => 5

def reply_bytes (r : MapRequest) (code : UInt16) (external : UInt16) : Bytes :=
  [0, r.opcode + 128] ++ put_u16 code ++ [0, 0, 0, 0] ++ put_u16 r.internal ++ put_u16 external ++ put_u32 r.lifetime

/-- How an exchange goes: the request is lost, refused, or served, when the reply may
still be lost. -/
inductive Exchange where
  | lost
  | refuses (refusal : Refusal)
  | serves (answered : Bool)
deriving DecidableEq, Repr

theorem Gateway.others_keyed (g : Gateway) (op : UInt8) : ((g.mappings.filter fun m => m.opcode ≠ op).map Mapping.key).Nodup :=
  g.keyed.sublist (List.filter_sublist.map _)

theorem Gateway.erased_keyed (g : Gateway) (k : UInt8 × UInt16) : ((eraseKey Mapping.key k g.mappings).map Mapping.key).Nodup :=
  nodup_eraseKey Mapping.key k g.mappings g.keyed

theorem Gateway.added_keyed (g : Gateway) (m : Mapping) (h : m.key ∉ g.mappings.map Mapping.key) :
    ((g.mappings ++ [m]).map Mapping.key).Nodup := nodup_append_key Mapping.key m g.mappings g.keyed h

section
variable (assign : List Mapping → MapRequest → UInt16)

/-- The mappings after a request that is served, and the external port of the reply.
`assign` chooses that of a new mapping. -/
def Gateway.serve (g : Gateway) (r : MapRequest) : Gateway × UInt16 :=
  if r.lifetime = 0 then
    -- the external port is ignored
    if r.internal = 0 then (⟨g.mappings.filter fun m => m.opcode ≠ r.opcode, g.others_keyed r.opcode⟩, 0)
    else (⟨eraseKey Mapping.key (r.opcode, r.internal) g.mappings, g.erased_keyed _⟩, 0)
  else
    let m : Mapping := ⟨r.opcode, r.internal, assign g.mappings r⟩
    if h : m.key ∈ g.mappings.map Mapping.key then
      (g, ((g.mappings.find? fun old => old.key = m.key).map Mapping.external).getD 0)
    else (⟨g.mappings ++ [m], g.added_keyed m h⟩, m.external)

def Gateway.exchange (g : Gateway) (req : Bytes) (x : Exchange) : Gateway × Option Bytes :=
  match x, read_request req with
  | .refuses refusal, some r => (g, some (reply_bytes r refusal.code 0))
  | .serves answered, some r =>
    let (g, external) := g.serve assign r
    (g, if answered then some (reply_bytes r 0 external) else .none)
  | _, _ => (g, .none)

/-! ## Calls -/

/-- The request, for two hours. -/
def map_request (proto : Bytes) (ext internal : Int) : Bytes :=
  [0, opcode proto, 0, 0] ++ put_u16 (UInt16.ofInt internal) ++ put_u16 (UInt16.ofInt ext) ++ put_u32 7200

/-- The loop of `natpmp_map`. -/
def Gateway.attempts (proto req : Bytes) (g : Gateway) : List Exchange → Gateway × Option Ip
  | [] => (g, .none)
  | x :: xs =>
    let (g, answer) := g.exchange assign req x
    match natpmp_attempt proto answer with
    | some ip => (g, some ip)
    | .none => Gateway.attempts proto req g xs

structure MapCall where
  proto : Bytes
  ext : Int
  internal : Int
  exchanges : Nat → Exchange

def Gateway.natpmp_map (g : Gateway) (c : MapCall) : Gateway × Option Ip :=
  g.attempts assign c.proto (map_request c.proto c.ext c.internal) ((List.range 4).map c.exchanges)

/-- The gateway after some calls. -/
def made (calls : List MapCall) : Gateway := calls.foldl (fun g c => (g.natpmp_map assign c).1) .none

/-- The internal port and the lifetime are left 0. -/
def unmap_request (proto : Bytes) (ext_port : Int) : Bytes :=
  [0, opcode proto, 0, 0, 0, 0] ++ put_u16 (UInt16.ofInt ext_port) ++ [0, 0, 0, 0]

/-- Whatever comes back counts as an acknowledgement. -/
def Gateway.router_unmap_port (g : Gateway) (ext_port : Int) (proto : Bytes) (x : Exchange) : Gateway × Bool :=
  let (g, answer) := g.exchange assign (unmap_request proto ext_port) x
  (g, (udp_exchange 16 answer).isSome)

/-! ## What is unmapped -/

/-- The mapping that is to be removed. -/
def Named (ext_port : Int) (proto : Bytes) (m : Mapping) : Prop := m.opcode = opcode proto ∧ (m.external.toNat : Int) = ext_port

/-- The call removes this mapping and no other, and true stands for a reply with
result code 0. -/
structure UnmapsOnly (g : Gateway) (ext_port : Int) (proto : Bytes) (x : Exchange) : Prop where
  mappings : ∀ m, m ∈ (g.router_unmap_port assign ext_port proto x).1.mappings ↔ m ∈ g.mappings ∧ ¬ Named ext_port proto m
  acknowledged : (g.router_unmap_port assign ext_port proto x).2 = true →
    ∃ reply, (g.exchange assign (unmap_request proto ext_port) x).2 = some reply ∧ result_code reply = 0

end

/-- When the call is right: a request that is lost has nothing to remove, one that is
served finds no other mapping of the protocol, and none is refused. -/
def Unmappable (g : Gateway) (ext_port : Int) (proto : Bytes) : Exchange → Prop
  | .lost => ∀ m ∈ g.mappings, ¬ Named ext_port proto m
  | .refuses _ => False
  | .serves _ => ∀ m ∈ g.mappings, m.opcode = opcode proto → Named ext_port proto m

section
variable {assign : List Mapping → MapRequest → UInt16} {g : Gateway} {ext_port : Int} {proto : Bytes}

theorem read_unmap_request (proto : Bytes) (ext_port : Int) :
    read_request (unmap_request proto ext_port) = some ⟨opcode proto, 0, UInt16.ofInt ext_port, 0⟩ := by
  have hinternal : get_u16 0 0 = 0 := by decide
  have hlifetime : get_u32 0 0 0 0 = 0 := by decide
  show some (MapRequest.mk (opcode proto) (get_u16 0 0) (get_u16 _ _) (get_u32 0 0 0 0)) = _
  rw [get_put_u16, hinternal, hlifetime]

theorem result_code_reply (r : MapRequest) (code external : UInt16) : result_code (reply_bytes r code external) = code :=
  get_put_u16 code

theorem exchange_lost (req : Bytes) : g.exchange assign req .lost = (g, .none) := by
  unfold Gateway.exchange
  cases read_request req <;> rfl

theorem exchange_refuses (refusal : Refusal) : g.exchange assign (unmap_request proto ext_port) (.refuses refusal) =
    (g, some (reply_bytes ⟨opcode proto, 0, UInt16.ofInt ext_port, 0⟩ refusal.code 0)) := by
  unfold Gateway.exchange
  rw [read_unmap_request]

/-- All mappings of the protocol go. -/
theorem exchange_serves (answered : Bool) : g.exchange assign (unmap_request proto ext_port) (.serves answered) =
    (⟨g.mappings.filter fun m => m.opcode ≠ opcode proto, g.others_keyed (opcode proto)⟩,
      if answered then some (reply_bytes ⟨opcode proto, 0, UInt16.ofInt ext_port, 0⟩ 0 0) else .none) := by
  unfold Gateway.exchange
  rw [read_unmap_request]
  rfl

/-- The call is right exactly if it is served and every mapping of the protocol has the
external port it names, or it is lost and no mapping does. -/
theorem unmaps_only_iff_gateway (x : Exchange) : UnmapsOnly assign g ext_port proto x ↔ Unmappable g ext_port proto x := by
  cases x with
  | lost =>
    constructor
    · intro h m hm hnamed
      have hafter := (h.mappings m).1
      rw [Gateway.router_unmap_port, exchange_lost] at hafter
      exact (hafter hm).2 hnamed
    · intro h
      refine ⟨fun m => ?_, fun htrue => ?_⟩
      · rw [Gateway.router_unmap_port, exchange_lost]
        exact ⟨fun hm => ⟨hm, h m hm⟩, And.left⟩
      · rw [Gateway.router_unmap_port, exchange_lost] at htrue
        cases htrue
  | refuses refusal =>
    refine iff_of_false (fun h => ?_) id
    -- the refusal counts as an acknowledgement
    have htrue : (g.router_unmap_port assign ext_port proto (.refuses refusal)).2 = true := by
      rw [Gateway.router_unmap_port, exchange_refuses]
      rfl
    obtain ⟨reply, hreply, hcode⟩ := h.acknowledged htrue
    rw [exchange_refuses] at hreply
    obtain rfl := Option.some.inj hreply
    rw [result_code_reply] at hcode
    cases refusal <;> exact absurd hcode (by decide)
  | serves answered =>
    have hafter (m : Mapping) : m ∈ (g.router_unmap_port assign ext_port proto (.serves answered)).1.mappings ↔
        m ∈ g.mappings ∧ m.opcode ≠ opcode proto := by
      rw [Gateway.router_unmap_port, exchange_serves]
      simp
    constructor
    · intro h m hm hop
      by_contra hnamed
      exact ((hafter m).1 ((h.mappings m).2 ⟨hm, hnamed⟩)).2 hop
    · intro h
      refine ⟨fun m => ?_, fun htrue => ?_⟩
      · rw [hafter]
        exact and_congr_right fun hm => ⟨fun hop hnamed => hop hnamed.1, fun hnamed hop => hnamed (h m hm hop)⟩
      · rw [exchange_serves]
        cases answered with
        | false =>
          rw [Gateway.router_unmap_port, exchange_serves] at htrue
          cases htrue
        | true => exact ⟨_, rfl, result_code_reply _ _ _⟩

/-- What comes back when all attempts are made. -/
def Gateway.answers (assign : List Mapping → MapRequest → UInt16) (req : Bytes) (g : Gateway) : List Exchange → List (Option Bytes)
  | [] => []
  | x :: xs => (g.exchange assign req x).2 :: Gateway.answers assign req (g.exchange assign req x).1 xs

/-- The loop gives what `natpmp_map` makes of these answers. -/
theorem attempts_answers (req : Bytes) (xs : List Exchange) :
    (g.attempts assign proto req xs).2 = (g.answers assign req xs).findSome? (natpmp_attempt proto) := by
  induction xs generalizing g with
  | nil => rfl
  | cons x xs ih =>
    rw [Gateway.attempts, Gateway.answers, List.findSome?_cons]
    dsimp only
    cases natpmp_attempt proto (g.exchange assign req x).2 with
    | some ip => rfl
    | none => exact ih

/-- A call against the gateway is one with four answers. -/
theorem natpmp_map_answers (c : MapCall) : ∃ answers, (g.natpmp_map assign c).2 = natpmp_map c.proto answers := by
  refine ⟨fun i => ((g.answers assign (map_request c.proto c.ext c.internal) ((List.range 4).map c.exchanges))[i]?).getD .none, ?_⟩
  exact attempts_answers _ _

end

/-! ## Two mappings -/

/-- After runs of `natpmp_map` the call is right exactly if it is served and every
mapping of the protocol has the external port it names, or it is lost and no mapping
does. -/
theorem unmaps_only_iff (assign : List Mapping → MapRequest → UInt16) (calls : List MapCall) (ext_port : Int) (proto : Bytes)
    (x : Exchange) : UnmapsOnly assign (made assign calls) ext_port proto x ↔ Unmappable (made assign calls) ext_port proto x :=
  unmaps_only_iff_gateway x

/-- The gateway takes the port that is suggested. -/
def suggested (_ : List Mapping) (r : MapRequest) : UInt16 := r.external

def web : List MapCall :=
  [⟨bytes "tcp", 443, 8443, fun _ => .serves true⟩, ⟨bytes "tcp", 80, 8080, fun _ => .serves true⟩]

/-- To unmap port 443 is to unmap port 80 as well, and a refusal is reported as done. -/
theorem unmap_removes_all :
    (made suggested web).mappings = [⟨1, 8443, 443⟩, ⟨1, 8080, 80⟩] ∧
    ((made suggested web).router_unmap_port suggested 443 (bytes "tcp") (.serves true)).1.mappings = [] ∧
    ((made suggested web).router_unmap_port suggested 443 (bytes "tcp") (.refuses .not_authorized)).2 = true ∧
    ¬ ∀ assign calls ext_port proto x, UnmapsOnly assign (made assign calls) ext_port proto x := by
  have hmade : (made suggested web).mappings = [⟨1, 8443, 443⟩, ⟨1, 8080, 80⟩] := by decide +kernel
  refine ⟨hmade, by decide +kernel, by decide +kernel, fun h => ?_⟩
  have hright := (unmaps_only_iff_gateway _).1 (h suggested web 443 (bytes "tcp") (.serves true))
  have hnamed := hright ⟨1, 8080, 80⟩ (hmade ▸ by decide) (by decide)
  exact absurd hnamed.2 (by decide)

end Hostely.Exposure.NatPmp
