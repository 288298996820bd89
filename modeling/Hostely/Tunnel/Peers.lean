import Hostely.Tunnel.Quiet
/-!
# Two sessions on one connection

A client and a server, each with its `Mux`, and between them what each has sent and
the other has not handled yet. On both sides streams are opened, accepted, written,
read and closed in any order, and each reader handles the frames of the other side
one after the other.

While neither side has taken more than 2^31 ids, every stream of one side has one
partner on the other, and what is written to it is what its partner reads.
-/

open Hostely.Lib

namespace Hostely.Tunnel

/-! ## The two sides -/

structure Peer where
  side : Side
  /-- The frames of the other side that the reader is through with. -/
  read : Nat
  /-- The bytes of each object that `send_frame` got out. -/
  written : Nat → Bytes
  /-- The bytes that were read from each object. -/
  taken : Nat → Bytes
  /-- The objects that this side closed itself. -/
  hung : List Nat

def Peer.new (client : Bool) : Peer := ⟨.new client, 0, fun _ => [], fun _ => [], []⟩

namespace Peer

abbrev mux (p : Peer) : Mux := p.side.session.mux

def set_mux (p : Peer) (m : Mux) : Peer := { p with side := { p.side with session := { p.side.session with mux := m } } }

/-- The frames for the other side: behind one that did not go out whole there is
none. -/
def wire (p : Peer) : List Frame := (p.mux.sent.takeWhile Prod.snd).map Prod.fst

end Peer

/-- What one side does. -/
inductive Deed where
  /-- Anything but handling a frame or writing. -/
  | event (e : Event)
  /-- The reader handles the next frame of the other side. -/
  | handle
  /-- A turn of the loop of `MuxStream::write` that has found the stream open. -/
  | write (i : Nat) (buf : Bytes)
  | try_read (i : Nat) (len : Nat)
deriving DecidableEq

namespace Peer

/-- Whether the event is one of a side on its own; a stream that is closed exists. -/
def may (p : Peer) : Event → Bool
  | .act (.frame _) => false
  | .act (.write _ _) => false
  | .act (.close_stream i) => i < p.mux.objects.length
  | _ => true

/-- The objects that an event closes. -/
def hangs (p : Peer) : Event → List Nat
  | .act (.close_stream i) => [i]
  | .close_finish => p.mux.table
  | _ => []

/-- The frame that a turn of `write` sends. -/
def data_frame (p : Peer) (i : Nat) (buf : Bytes) : Frame := ⟨kTypeData, 0, (p.mux.id i).getD 0, buf⟩

/-- What `try_read` takes from an object. -/
def takes (p : Peer) (i len : Nat) : Bytes := ((p.mux.objects[i]?.map fun s => (s.try_read len).1.getD []).getD [])

/-- The next state of a side, if it can do this; `incoming` is what the other side has
for it. -/
def next (socket : Nat → List Int) (incoming : List Frame) (p : Peer) : Deed → Option Peer
  | .event e =>
    if p.may e then (p.side.next socket e).map fun t => { p with side := t, hung := p.hung ++ p.hangs e } else none
  | .handle =>
    match incoming[p.read]? with
    | none => none
    | some f =>
      -- a reader that waits for itself is never through with the frame
      (p.side.next socket (.act (.frame f))).map fun t =>
        { p with side := t, read := if t.session.stuck then p.read else p.read + 1 }
  | .write i buf =>
    if p.side.session.stuck || p.side.session.destroyed || p.mux.objects.length ≤ i || buf = [] || kDataFrameCap < buf.length then none
    else match Mux.send_frame socket (p.data_frame i buf) [] p.mux with
      | .ok (ok, m) =>
        some { p.set_mux m with written := if ok then Function.update p.written i (p.written i ++ buf) else p.written }
      | .error _ => none
  | .try_read i len =>
    if p.mux.objects.length ≤ i then none
    else some { p.set_mux (p.mux.modify i fun s => (s.try_read len).2) with
      taken := Function.update p.taken i (p.taken i ++ p.takes i len) }

end Peer

/-- Both sides, the client's under `true`. -/
abbrev Link := Bool → Peer

namespace Link

def new : Link := Peer.new

/-- One side does something, whenever it likes. -/
def next (socket : Bool → Nat → List Int) (s : Link) (a : Bool × Deed) : Option Link :=
  ((s a.1).next (socket a.1) (s !a.1).wire a.2).map (Function.update s a.1)

def step (socket : Bool → Nat → List Int) (s : Link) (a : Bool × Deed) (t : Link) : Prop := next socket s a = some t

end Link

/-! ## What is on the wire -/

namespace Peer

/-- The frames that went out whole, also behind one that did not. -/
def outgoing (p : Peer) : List Frame := (p.mux.sent.filter Prod.snd).map Prod.fst

/-- What the reader of `p` has handled. -/
def got (p q : Peer) : List Frame := q.wire.take p.read

theorem wire_prefix_sent (p : Peer) : p.wire <+: p.mux.sent.map Prod.fst := (List.takeWhile_prefix _).map _

theorem wire_prefix_outgoing (p : Peer) : p.wire <+: p.outgoing := by
  have hall : (p.mux.sent.takeWhile Prod.snd).filter Prod.snd = p.mux.sent.takeWhile Prod.snd :=
    List.filter_eq_self.2 fun e he => List.mem_takeWhile_imp he
  unfold wire outgoing
  refine List.IsPrefix.map _ ⟨(p.mux.sent.dropWhile Prod.snd).filter Prod.snd, ?_⟩
  conv_rhs => rw [← @List.takeWhile_append_dropWhile _ Prod.snd p.mux.sent, List.filter_append, hall]

/-- Before anything has failed all is on the wire. -/
theorem wire_of_ok {p : Peer} (h : ∀ e ∈ p.mux.sent, e.2 = true) : p.wire = p.outgoing := by
  rw [wire, outgoing, List.takeWhile_eq_self_iff.2 h, List.filter_eq_self.2 h]

theorem wire_grows {p p' : Peer} (h : p.mux.sent <+: p'.mux.sent) : p.wire <+: p'.wire := by
  obtain ⟨es, hes⟩ := h
  unfold wire
  rw [← hes, List.takeWhile_append]
  refine List.IsPrefix.map _ ?_
  split
  · rename_i hall
    rw [List.takeWhile_eq_self_iff.2 (List.takeWhile_eq_self_iff.1 ((List.takeWhile_prefix _).eq_of_length hall))]
    exact List.prefix_append _ _
  · exact List.prefix_rfl

/-- What was handled does not change when more is sent. -/
theorem got_grows {p q q' : Peer} (hread : p.read ≤ q.wire.length) (h : q.mux.sent <+: q'.mux.sent) :
    p.got q' = p.got q ∧ p.read ≤ q'.wire.length := by
  obtain ⟨fs, hfs⟩ := wire_grows h
  unfold got
  rw [← hfs, List.take_append_of_le_length hread, List.length_append]
  exact ⟨rfl, by omega⟩

theorem got_next {p p' q : Peer} {f : Frame} (hf : q.wire[p.read]? = some f) (hread : p'.read = p.read + 1) :
    p'.got q = p.got q ++ [f] ∧ p'.read ≤ q.wire.length := by
  have hlt := (List.getElem?_eq_some_iff.1 hf).1
  unfold got
  rw [hread, List.take_add_one, hf]
  exact ⟨rfl, hlt⟩

end Peer

/-! ## The invariant -/

/-- Each side has taken few enough ids for none to come round. -/
def Peer.Few (p : Peer) : Prop := p.side.own.length ≤ 2 ^ 31

/-- What holds of a side by itself. -/
structure Alone (client : Bool) (p : Peer) : Prop where
  numbered : Numbered client p.side
  unique : ∀ i j x, p.mux.id i = some x → p.mux.id j = some x → i = j
  mine : ∀ i x, p.mux.id i = some x → (x, i) ∈ p.side.own ∨ i ∈ p.mux.opened
  own : ∀ e ∈ p.side.own, p.mux.id e.2 = some e.1
  table : Tabled p.mux
  /-- While the reader runs the table is never cleared. -/
  standing : p.side.session.finished = false → ∀ i x, p.mux.id i = some x → p.mux.streams.lookup x = some i
  joined : ∀ d, p.side.session.closer = some (d, true) → p.side.session.finished = true
  known : ∀ e ∈ p.mux.sent, ∀ x b, e.1.carries = some (x, b) → ∃ i, p.mux.id i = some x
  in_order : InOrder Frame.carries Frame.announces (p.mux.sent.map Prod.fst)
  syns : announced Frame.announces (p.mux.sent.map Prod.fst) = p.side.own.map Prod.fst
  sendable : ∀ e ∈ p.mux.sent, Sendable e.1
  alive : p.mux.dead = false → ∀ e ∈ p.mux.sent, e.2 = true
  fins : ∀ e ∈ p.mux.sent, ∀ x, e.1.hangs_up = some x → ∃ i, p.mux.id i = some x ∧ p.mux.closed i = true
  written : ∀ i x, p.mux.id i = some x → p.written i = project Frame.carries x p.outgoing
  unused : ∀ i, p.mux.id i = none → p.written i = [] ∧ p.taken i = []

/-- What holds of a side by what it has read of the other. -/
structure Between (p q : Peer) : Prop where
  read : p.read ≤ q.wire.length
  opened : p.mux.opened.map p.mux.id = (announced Frame.announces (p.got q)).map some
  got : ∀ i x, p.mux.id i = some x → p.taken i ++ p.mux.buffer i = project Frame.carries x (p.got q)
  ended : ∀ i x, p.mux.id i = some x → p.mux.closed i = true → i ∈ p.hung ∨ ∃ f ∈ p.got q, f.hangs_up = some x

theorem alone_new (client : Bool) : Alone client (.new client) where
  numbered := numbered_new client
  unique i j x hi := by cases hi
  mine i x hi := by cases hi
  own e he := by cases he
  table e he := by cases he
  standing _ i x hi := by cases hi
  joined d hd := by cases hd
  known e he := by cases he
  in_order := List.Pairwise.nil
  syns := rfl
  sendable e he := by cases he
  alive _ e he := by cases he
  fins e he := by cases he
  written i x hi := by cases hi
  unused _ _ := ⟨rfl, rfl⟩

theorem between_new (client : Bool) (q : Peer) : Between (.new client) q where
  read := Nat.zero_le _
  opened := rfl
  got i x hi := by cases hi
  ended i x hi := by cases hi

/-! ## Ids -/

section
variable {client : Bool} {p q : Peer}

theorem nth_id_inj {j k : Nat} (hj : j < 2 ^ 31) (hk : k < 2 ^ 31) (h : nth_id client j = nth_id client k) : j = k := by
  rcases Nat.le_total j k with hle | hle
  · have := (nth_id_eq_iff client hle).1 h
    omega
  · have := (nth_id_eq_iff client hle).1 h.symm
    omega

/-- The two sides number their streams apart. -/
theorem nth_id_apart {j k : Nat} : nth_id client j ≠ nth_id (!client) k := by
  intro h
  have hj := nth_id_parity client j
  have hk := nth_id_parity (!client) k
  rw [h, hk] at hj
  cases client <;> simp at hj

theorem Numbered.id_eq {s : Side} (h : Numbered client s) {e : UInt32 × Nat} (he : e ∈ s.own) :
    ∃ j, s.own[j]? = some e ∧ j < s.own.length ∧ e.1 = nth_id client j := by
  obtain ⟨j, hj⟩ := List.getElem?_of_mem he
  exact ⟨j, hj, (List.getElem?_eq_some_iff.1 hj).1, h.ids j e hj⟩

theorem Numbered.nodup {s : Side} (h : Numbered client s) (hfew : s.own.length ≤ 2 ^ 31) : (s.own.map Prod.fst).Nodup := by
  refine List.pairwise_iff_getElem.2 fun j k hj hk hjk heq => ?_
  rw [List.length_map] at hj hk
  rw [List.getElem_map, List.getElem_map, h.ids j _ (List.getElem?_eq_getElem hj),
    h.ids k _ (List.getElem?_eq_getElem hk)] at heq
  have := nth_id_inj (by omega) (by omega) heq
  omega

/-- The streams of the peer have ids that the peer took. -/
theorem Between.peers_id (h : Between p q) (hq : Alone (!client) q) {i : Nat} (hi : i ∈ p.mux.opened) {x : UInt32}
    (hx : p.mux.id i = some x) :
    x ∈ announced Frame.announces (p.got q) ∧ ∃ e ∈ q.side.own, e.1 = x := by
  have hmem : p.mux.id i ∈ p.mux.opened.map p.mux.id := List.mem_map_of_mem hi
  rw [h.opened, hx, List.mem_map] at hmem
  obtain ⟨y, hy, hyx⟩ := hmem
  obtain rfl := Option.some.inj hyx
  refine ⟨hy, ?_⟩
  have hsent : p.got q <+: q.mux.sent.map Prod.fst := (List.take_prefix _ _).trans q.wire_prefix_sent
  have hown := (@announced_before _ _ Frame.announces _ _ hsent).subset hy
  rw [hq.syns, List.mem_map] at hown
  exact hown

/-- The next id of a side belongs to no object yet. -/
theorem fresh_own (hp : Alone client p) (hq : Alone (!client) q) (hpq : Between p q) (hfew : p.side.own.length < 2 ^ 31) (i : Nat) :
    p.mux.id i ≠ some p.mux.next_id := by
  intro hi
  have hnext : p.mux.next_id = nth_id client p.side.own.length := hp.numbered.next
  rcases hp.mine i _ hi with hmem | hmem
  · obtain ⟨j, -, hlt, hj⟩ := hp.numbered.id_eq hmem
    have hsame : nth_id client j = nth_id client p.side.own.length := hj.symm.trans hnext
    have := nth_id_inj (by omega) hfew hsame
    omega
  · obtain ⟨-, e, he, hx⟩ := hpq.peers_id hq hmem hi
    obtain ⟨j, -, -, hj⟩ := hq.numbered.id_eq he
    exact nth_id_apart ((hnext.symm.trans hx.symm).trans hj)

/-- Nor does the id of a SYN that is to be handled. -/
theorem fresh_syn (hp : Alone client p) (hq : Alone (!client) q) (hpq : Between p q) (hfew : q.Few) {f : Frame} {x : UInt32}
    (hf : q.wire[p.read]? = some f) (hx : f.announces = some x) (i : Nat) : p.mux.id i ≠ some x := by
  intro hi
  have hhandled : p.got q ++ [f] <+: q.mux.sent.map Prod.fst := by
    have htake : q.wire.take (p.read + 1) = p.got q ++ [f] := by rw [List.take_add_one, hf]; rfl
    rw [← htake]
    exact (List.take_prefix _ _).trans q.wire_prefix_sent
  have hids := @announced_before _ _ Frame.announces _ _ hhandled
  have hlast : announced Frame.announces [f] = [x] := by simp [announced, hx]
  rw [hq.syns, announced_append, hlast] at hids
  rcases hp.mine i x hi with hmem | hmem
  · have hpeer : x ∈ q.side.own.map Prod.fst := hids.subset (by simp)
    obtain ⟨e, he, hex⟩ := List.mem_map.1 hpeer
    obtain ⟨j, -, -, hj⟩ := hq.numbered.id_eq he
    obtain ⟨k, -, -, hk⟩ := hp.numbered.id_eq hmem
    exact nth_id_apart (hk.symm.trans (hex.symm.trans hj))
  · -- it was announced before
    have hnodup := hids.sublist.nodup (hq.numbered.nodup hfew)
    exact (List.nodup_append.1 hnodup).2.2 x (hpq.peers_id hq hmem hi).1 x (by simp) rfl

end

end Hostely.Tunnel
