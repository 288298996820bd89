import Hostely.Tunnel.Frame
import Mathlib.Logic.Function.Basic
/-!
# NAT-PMP

The requests to the gateway, and what is taken from its replies. Of the result code,
which is two bytes, high byte first, only the first is looked at, and the reply to a
mapping is read as if there were an address in it.
-/

open Hostely.Lib Hostely.Tunnel

namespace Hostely.Exposure.NatPmp

/-! ## Addresses -/

/-- Four bytes, as they come. -/
structure Ip where
  a : UInt8
  b : UInt8
  c : UInt8
  d : UInt8
deriving DecidableEq, Repr

def Ip.zero : Ip := ⟨0, 0, 0, 0⟩

def inet_ntop (ip : Ip) : Bytes :=
  digits 10 ip.a.toNat ++ bytes "." ++ digits 10 ip.b.toNat ++ bytes "." ++ digits 10 ip.c.toNat ++ bytes "." ++ digits 10 ip.d.toNat

/-- Back from the text. -/
def read_ip (text : Bytes) : Ip :=
  let n := fun i => (decimal ((splitAt (· = 46) text).getD i [])).toUInt8
  ⟨n 0, n 1, n 2, n 3⟩

theorem read_inet_ntop (ip : Ip) : read_ip (inet_ntop ip) = ip := by
  have hdot (n : Nat) : ∀ c ∈ digits 10 n, decide (c = 46) = false := by
    intro c hc
    have hdigit := digits_isdigit n c hc
    refine decide_eq_false ?_
    rintro rfl
    exact absurd hdigit (by decide)
  have hbyte (b : UInt8) : (decimal (digits 10 b.toNat)).toUInt8 = b := by
    rw [decimal_digits]
    simp
  have hpieces : splitAt (· = 46) (inet_ntop ip) =
      [digits 10 ip.a.toNat, digits 10 ip.b.toNat, digits 10 ip.c.toNat, digits 10 ip.d.toNat] := by
    simp only [inet_ntop, show bytes "." = [46] by decide, List.append_assoc, List.cons_append, List.nil_append]
    rw [splitAt_append (hdot _) (by decide), splitAt_append (hdot _) (by decide), splitAt_append (hdot _) (by decide),
      splitAt_none (hdot _)]
  simp only [read_ip, hpieces, List.getD_cons_zero, List.getD_cons_succ, hbyte]

theorem inet_ntop_injective : Function.Injective inet_ntop := Function.LeftInverse.injective read_inet_ntop

theorem inet_ntop_nonempty (ip : Ip) : inet_ntop ip ≠ [] := by
  simp [inet_ntop, show bytes "." = [46] by decide]

/-- The bytes from the eighth on. -/
def ip_at (reply : Bytes) : Ip := ⟨reply.getD 8 0, reply.getD 9 0, reply.getD 10 0, reply.getD 11 0⟩

/-! ## Exchanges -/

/-- One exchange: the datagram that came back, if any, and what of it fits into the
buffer. -/
def udp_exchange (size : Nat) (answer : Option Bytes) : Option Bytes :=
  match answer with
  | none => none
  | some datagram => if datagram = [] then none else some (datagram.take size)

def natpmp_public_ip (answer : Option Bytes) : Option Ip :=
  match udp_exchange 16 answer with
  | none => none
  | some resp =>
    if resp.length < 12 then none
    else if resp.getD 1 0 ≠ 128 || resp.getD 2 0 ≠ 0 then none
    else some (ip_at resp)

def opcode (proto : Bytes) : UInt8 := if proto = bytes "udp" then 2 else 1

/-- One of the four attempts. -/
def natpmp_attempt (proto : Bytes) (answer : Option Bytes) : Option Ip :=
  match udp_exchange 16 answer with
  | none => none
  | some resp =>
    if 16 ≤ resp.length && resp.getD 1 0 = opcode proto + 128 && resp.getD 2 0 = 0 then some (ip_at resp) else none

def natpmp_map (proto : Bytes) (answers : Nat → Option Bytes) : Option Ip :=
  (List.range 4).findSome? fun attempt => natpmp_attempt proto (answers attempt)

/-- Nothing is read from the reply but that it grants the mapping. -/
def pcp_map (answer : Option Bytes) : Bool :=
  match udp_exchange 110 answer with
  | none => false
  | some resp =>
    if resp.length < 60 then false
    else if resp.getD 0 0 ≠ 2 || resp.getD 1 0 ≠ 129 then false
    else resp.getD 3 0 = 0

/-! ## The ladder -/

structure RouterMapResult where
  ok : Bool
  method : Bytes
  public_ip : Bytes
  error : Bytes
deriving DecidableEq, Repr

/-- What a call meets. -/
structure Router where
  gateway : Bool
  pcp : Option Bytes
  natpmp : Nat → Option Bytes
  upnp : Bool

def router_map_port (r : Router) (proto : Bytes) : RouterMapResult :=
  if !r.gateway then ⟨false, [], [], bytes "no default IPv4 gateway found"⟩
  -- neither PCP nor UPnP gives an address
  else if pcp_map r.pcp then ⟨true, bytes "pcp", [], []⟩
  else match natpmp_map proto r.natpmp with
    | some ip => ⟨true, bytes "natpmp", if ip ≠ .zero then inet_ntop ip else [], []⟩
    | none =>
      if r.upnp then ⟨true, bytes "upnp", [], []⟩
      else ⟨false, [], [], bytes "router refused mapping (PCP, NAT-PMP and UPnP all failed)"⟩

/-! ## The layout of a reply -/

def result_code (reply : Bytes) : UInt16 := get_u16 (reply.getD 2 0) (reply.getD 3 0)

/-- A reply of this length and opcode that grants what was asked. -/
structure Grants (length : Nat) (op : UInt8) (reply : Bytes) : Prop where
  length : length ≤ reply.length
  op : reply.getD 1 0 = op
  code : result_code reply = 0

/-- A reply that is taken for one that grants. -/
structure Taken (length : Nat) (op : UInt8) (reply : Bytes) : Prop where
  length : length ≤ reply.length
  op : reply.getD 1 0 = op
  high : reply.getD 2 0 = 0

/-- A refusal whose result code is below 256: only its low byte is not 0. -/
def LowRefusal (length : Nat) (op : UInt8) (reply : Bytes) : Prop := Taken length op reply ∧ reply.getD 3 0 ≠ 0

/-- An address the gateway sent: that of a reply about the public address. -/
def Router.Sends (r : Router) (ip : Ip) : Prop :=
  ∃ reply, (r.pcp = some reply ∨ ∃ i < 4, r.natpmp i = some reply) ∧ 12 ≤ reply.length ∧ reply.getD 1 0 = 128 ∧ ip_at reply = ip

section
variable {reply : Bytes} {proto : Bytes} {ip : Ip}

theorem result_code_zero : result_code reply = 0 ↔ reply.getD 2 0 = 0 ∧ reply.getD 3 0 = 0 := by
  have hhigh := (reply.getD 2 0).toNat_lt
  have hlow := (reply.getD 3 0).toNat_lt
  rw [result_code, get_u16, ← UInt16.toNat_inj, ← UInt8.toNat_inj, ← UInt8.toNat_inj]
  simp only [Nat.toUInt16_eq, UInt16.toNat_ofNat', UInt16.toNat_zero, UInt8.toNat_zero]
  omega

theorem grants_iff {length : Nat} {op : UInt8} : Grants length op reply ↔ Taken length op reply ∧ reply.getD 3 0 = 0 := by
  constructor
  · rintro ⟨hlength, hop, hcode⟩
    obtain ⟨hhigh, hlow⟩ := result_code_zero.1 hcode
    exact ⟨⟨hlength, hop, hhigh⟩, hlow⟩
  · rintro ⟨⟨hlength, hop, hhigh⟩, hlow⟩
    exact ⟨hlength, hop, result_code_zero.2 ⟨hhigh, hlow⟩⟩

/-! ## What a reply is taken for -/

theorem getD_take {n i : Nat} (h : i < n) (text : Bytes) : (text.take n).getD i 0 = text.getD i 0 := by
  rw [List.getD_eq_getElem?_getD, List.getD_eq_getElem?_getD, List.getElem?_take_of_lt h]

/-- What is read of a reply is in the buffer. -/
theorem ip_at_take (reply : Bytes) : ip_at (reply.take 16) = ip_at reply := by
  unfold ip_at
  rw [getD_take (by decide), getD_take (by decide), getD_take (by decide), getD_take (by decide)]

theorem taken_take {length : Nat} {op : UInt8} (h : length ≤ 16) : Taken length op (reply.take 16) ↔ Taken length op reply := by
  have hlength : length ≤ (reply.take 16).length ↔ length ≤ reply.length := by
    rw [List.length_take]
    omega
  constructor
  · rintro ⟨hl, hop, hhigh⟩
    rw [getD_take (by decide)] at hop hhigh
    exact ⟨hlength.1 hl, hop, hhigh⟩
  · rintro ⟨hl, hop, hhigh⟩
    exact ⟨hlength.2 hl, (getD_take (by decide) reply).trans hop, (getD_take (by decide) reply).trans hhigh⟩

theorem taken_nonempty {length : Nat} {op : UInt8} (h : Taken length op reply) (hlength : 0 < length) : reply ≠ [] := by
  rintro rfl
  exact absurd h.length (by simpa using Nat.ne_of_gt hlength)

theorem public_ip_some : natpmp_public_ip (some reply) = some ip ↔ Taken 12 128 reply ∧ ip_at reply = ip := by
  rw [← taken_take (show 12 ≤ 16 by decide), ← ip_at_take reply]
  constructor
  · intro h
    unfold natpmp_public_ip udp_exchange at h
    by_cases hempty : reply = []
    · simp [hempty] at h
    · simp only [hempty, if_false] at h
      split at h
      · cases h
      · split at h
        · cases h
        · rename_i hlength hbytes
          simp only [ne_eq, Bool.or_eq_true, decide_eq_true_eq, not_or, Decidable.not_not] at hbytes
          exact ⟨⟨by omega, hbytes.1, hbytes.2⟩, Option.some.inj h⟩
  · rintro ⟨htaken, rfl⟩
    have hempty := taken_nonempty ((taken_take (by decide)).1 htaken) (by decide)
    unfold natpmp_public_ip udp_exchange
    simp only [hempty, if_false]
    have hbytes : ¬ (decide ((reply.take 16).getD 1 0 ≠ 128) || decide ((reply.take 16).getD 2 0 ≠ 0)) = true := by
      rw [htaken.op, htaken.high]
      decide
    rw [if_neg (Nat.not_lt.2 htaken.length), if_neg hbytes]

theorem attempt_some : natpmp_attempt proto (some reply) = some ip ↔ Taken 16 (opcode proto + 128) reply ∧ ip_at reply = ip := by
  rw [← taken_take (show 16 ≤ 16 by decide), ← ip_at_take reply]
  constructor
  · intro h
    unfold natpmp_attempt udp_exchange at h
    by_cases hempty : reply = []
    · simp [hempty] at h
    · simp only [hempty, if_false] at h
      split at h
      · rename_i haccepted
        simp only [Bool.and_eq_true, decide_eq_true_eq] at haccepted
        exact ⟨⟨haccepted.1.1, haccepted.1.2, haccepted.2⟩, Option.some.inj h⟩
      · cases h
  · rintro ⟨htaken, rfl⟩
    have hempty := taken_nonempty ((taken_take (by decide)).1 htaken) (by decide)
    unfold natpmp_attempt udp_exchange
    simp only [hempty, if_false]
    rw [if_pos (by simp only [htaken.length, htaken.op, htaken.high, decide_true, Bool.and_self])]

/-- The first reply that is taken for a grant. -/
def FirstTaken (r : Router) (proto reply : Bytes) : Prop :=
  ∃ i < 4, r.natpmp i = some reply ∧ Taken 16 (opcode proto + 128) reply ∧
    ∀ j < i, ∀ earlier, r.natpmp j = some earlier → ¬ Taken 16 (opcode proto + 128) earlier

theorem attempt_none (answer : Option Bytes) : natpmp_attempt proto answer = none ↔
    ∀ reply, answer = some reply → ¬ Taken 16 (opcode proto + 128) reply := by
  cases answer with
  | none => exact iff_of_true rfl nofun
  | some reply =>
    rw [Option.eq_none_iff_forall_ne_some]
    constructor
    · intro h reply' hreply htaken
      obtain rfl := Option.some.inj hreply
      exact h _ (attempt_some.2 ⟨htaken, rfl⟩)
    · exact fun h ip hip => h reply rfl (attempt_some.1 hip).1

/-- A search through the first numbers. -/
theorem findSome_range {α : Type} {f : Nat → Option α} {n : Nat} {a : α} :
    (List.range n).findSome? f = some a ↔ ∃ i < n, f i = some a ∧ ∀ j < i, f j = none := by
  induction n with
  | zero => simp
  | succ n ih =>
    rw [List.range_succ, List.findSome?_append, Option.or_eq_some_iff, ih, List.findSome?_eq_none_iff]
    constructor
    · rintro (⟨i, hi, hsome, hnone⟩ | ⟨hnone, hlast⟩)
      · exact ⟨i, by omega, hsome, hnone⟩
      · exact ⟨n, by omega, by simpa using hlast, fun j hj => hnone j (List.mem_range.2 hj)⟩
    · rintro ⟨i, hi, hsome, hnone⟩
      rcases Nat.lt_succ_iff_lt_or_eq.1 hi with hlt | rfl
      · exact .inl ⟨i, hlt, hsome, hnone⟩
      · exact .inr ⟨fun j hj => hnone j (List.mem_range.1 hj), by simpa using hsome⟩

theorem natpmp_map_some {r : Router} :
    natpmp_map proto r.natpmp = some ip ↔ ∃ reply, FirstTaken r proto reply ∧ ip_at reply = ip := by
  unfold natpmp_map FirstTaken
  rw [findSome_range]
  constructor
  · rintro ⟨i, hi, hsome, hnone⟩
    cases hreply : r.natpmp i with
    | none =>
      rw [hreply] at hsome
      cases hsome
    | some reply =>
      rw [hreply, attempt_some] at hsome
      exact ⟨reply, ⟨i, hi, hreply, hsome.1, fun j hj => (attempt_none _).1 (hnone j hj)⟩, hsome.2⟩
  · rintro ⟨reply, ⟨i, hi, hreply, htaken, hbefore⟩, hip⟩
    exact ⟨i, hi, hreply ▸ attempt_some.2 ⟨htaken, hip⟩, fun j hj => (attempt_none _).2 (hbefore j hj)⟩

/-! ## What replies ought to mean -/

/-- The address of a reply is given exactly if the reply grants one. -/
def PublicIpRight (reply : Bytes) : Prop := ∀ ip, natpmp_public_ip (some reply) = some ip ↔ Grants 12 128 reply ∧ ip_at reply = ip

/-- An attempt succeeds exactly if the reply grants the mapping. -/
def AttemptRight (proto reply : Bytes) : Prop :=
  (natpmp_attempt proto (some reply)).isSome = true ↔ Grants 16 (opcode proto + 128) reply

/-- An address that is reported was sent as one. -/
def AddressSent (r : Router) (proto : Bytes) : Prop :=
  (router_map_port r proto).public_ip = [] ∨ ∃ ip, r.Sends ip ∧ (router_map_port r proto).public_ip = inet_ntop ip

theorem public_ip_right_iff (reply : Bytes) : PublicIpRight reply ↔ ¬ LowRefusal 12 128 reply := by
  unfold PublicIpRight LowRefusal
  constructor
  · rintro h ⟨htaken, hlow⟩
    exact hlow (grants_iff.1 ((h _).1 (public_ip_some.2 ⟨htaken, rfl⟩)).1).2
  · intro h ip
    rw [public_ip_some]
    refine and_congr_left fun _ => ⟨fun htaken => grants_iff.2 ⟨htaken, ?_⟩, fun hgrants => (grants_iff.1 hgrants).1⟩
    by_contra hlow
    exact h ⟨htaken, hlow⟩

theorem attempt_right_iff (proto reply : Bytes) : AttemptRight proto reply ↔ ¬ LowRefusal 16 (opcode proto + 128) reply := by
  have hsome : (natpmp_attempt proto (some reply)).isSome = true ↔ Taken 16 (opcode proto + 128) reply := by
    rw [Option.isSome_iff_exists]
    exact ⟨fun ⟨ip, hip⟩ => (attempt_some.1 hip).1, fun htaken => ⟨_, attempt_some.2 ⟨htaken, rfl⟩⟩⟩
  unfold AttemptRight LowRefusal
  rw [hsome, grants_iff]
  tauto

/-- A mapping reply has ports where the address is looked for. -/
theorem address_sent_iff (r : Router) (proto : Bytes) : AddressSent r proto ↔
    r.gateway = false ∨ pcp_map r.pcp = true ∨
      ∀ reply, FirstTaken r proto reply → ip_at reply = .zero ∨ r.Sends (ip_at reply) := by
  unfold AddressSent router_map_port
  cases r.gateway with
  | false => exact iff_of_true (.inl rfl) (.inl rfl)
  | true =>
    cases hpcp : pcp_map r.pcp with
    | true => exact iff_of_true (.inl rfl) (.inr (.inl rfl))
    | false =>
      have honly (reply : Bytes) (h : FirstTaken r proto reply) : natpmp_map proto r.natpmp = some (ip_at reply) :=
        natpmp_map_some.2 ⟨reply, h, rfl⟩
      cases hmap : natpmp_map proto r.natpmp with
      | none =>
        refine iff_of_true (.inl ?_) (.inr (.inr fun reply h => ?_))
        · cases r.upnp <;> rfl
        · cases hmap.symm.trans (honly reply h)
      | some ip =>
        obtain ⟨reply, hfirst, hreply⟩ := natpmp_map_some.1 hmap
        have hcondition : (∀ reply, FirstTaken r proto reply → ip_at reply = .zero ∨ r.Sends (ip_at reply)) ↔
            ip = .zero ∨ r.Sends ip := by
          refine ⟨fun h => hreply ▸ h reply hfirst, fun h reply' hfirst' => ?_⟩
          rwa [Option.some.inj ((honly reply' hfirst').symm.trans hmap)]
        simp only [Bool.not_true, Bool.false_eq_true, if_false, Bool.true_eq_false, false_or, hcondition]
        by_cases hzero : ip = .zero
        · simp [hzero]
        · simp only [hzero, ne_eq, not_false_eq_true, if_true, inet_ntop_nonempty, false_or]
          constructor
          · rintro ⟨ip', hsends, htext⟩
            rwa [inet_ntop_injective htext]
          · exact fun hsends => ⟨ip, hsends, rfl⟩

end

/-- A reply about the public address, and one to a mapping, is taken for what it is
exactly if it is no refusal with a code below 256; and the address that is reported of
a mapping was sent as one exactly if there is none to report, or the ports that stand
in its place were also sent as an address. -/
theorem natpmp_decoded_iff (r : Router) (proto reply : Bytes) :
    (PublicIpRight reply ↔ ¬ LowRefusal 12 128 reply) ∧
    (AttemptRight proto reply ↔ ¬ LowRefusal 16 (opcode proto + 128) reply) ∧
    (AddressSent r proto ↔ r.gateway = false ∨ pcp_map r.pcp = true ∨
      ∀ taken, FirstTaken r proto taken → ip_at taken = .zero ∨ r.Sends (ip_at taken)) :=
  ⟨public_ip_right_iff reply, attempt_right_iff proto reply, address_sent_iff r proto⟩

/-- The gateway has no address itself: network failure, which is code 3. -/
def failureReply : Bytes := [0, 128, 0, 3, 0, 0, 0, 9, 0, 0, 0, 0]

/-- The mapping is not authorized, which is code 2. -/
def refusedReply : Bytes := [0, 129, 0, 2, 0, 0, 0, 9, 31, 144, 0, 0, 0, 0, 0, 0]

/-- TCP port 8080 is mapped to port 443. -/
def mappedReply : Bytes := [0, 129, 0, 0, 0, 0, 0, 9, 31, 144, 1, 187, 0, 0, 28, 32]

def mapped : Router := ⟨true, none, fun _ => some mappedReply, false⟩

/-- Refusals are read as an address and as a mapping, and two ports as 31.144.1.187. -/
theorem failure_taken_for_address :
    natpmp_public_ip (some failureReply) = some .zero ∧ natpmp_attempt (bytes "tcp") (some refusedReply) = some ⟨31, 144, 0, 0⟩ ∧
    (router_map_port mapped (bytes "tcp")).public_ip = bytes "31.144.1.187" ∧
    (¬ ∀ reply, PublicIpRight reply) ∧ (¬ ∀ proto reply, AttemptRight proto reply) ∧ ¬ ∀ r proto, AddressSent r proto := by
  refine ⟨by decide, by decide +kernel, by decide +kernel, fun h => ?_, fun h => ?_, fun h => ?_⟩
  · exact (public_ip_right_iff failureReply).1 (h failureReply) ⟨⟨by decide, by decide, by decide⟩, by decide⟩
  · have hopcode : opcode (bytes "tcp") = 1 := by decide
    refine (attempt_right_iff (bytes "tcp") refusedReply).1 (h _ _) ⟨⟨by decide, ?_, by decide⟩, by decide⟩
    rw [hopcode]
    decide
  · have hfirst : FirstTaken mapped (bytes "tcp") mappedReply :=
      ⟨0, by decide, rfl, ⟨by decide, by decide +kernel, by decide⟩, fun j hj => absurd hj (Nat.not_lt_zero j)⟩
    rcases (address_sent_iff mapped (bytes "tcp")).1 (h _ _) with hgateway | hpcp | hsent
    · cases hgateway
    · cases hpcp
    · rcases hsent mappedReply hfirst with hzero | ⟨reply, hreply, -, hop, -⟩
      · exact absurd hzero (by decide)
      · -- there is no other reply, and it is to a mapping
        rcases hreply with hpcp | ⟨i, -, hi⟩
        · cases hpcp
        · obtain rfl := Option.some.inj hi
          exact absurd hop (by decide)

end Hostely.Exposure.NatPmp
