import Hostely.Lib.Runs
import Hostely.Tunnel.Mux
/-!
# The pumps

`bridge_stream` copies between a stream and the local service, `serve_public` between
a stream and a public client. A pump runs beside the reader thread, which handles the
frames of the stream, and the other side of its socket. What `poll`, `recv`, `send`
and `send_frame` answer comes with the step that asks.
-/

open Hostely.Lib

namespace Hostely.Tunnel

namespace Pump

/-- Which of the two it is, and what `serve_public` was called with. -/
inductive Side where
  | bridge_stream
  | serve_public (host : Bytes) (origin_port_hint : Int) (head : Bytes)
deriving DecidableEq, Repr

/-- The destination line, which the relay writes and the client reads. -/
def Side.dst : Side → Bytes
  | bridge_stream => []
  | serve_public host origin_port_hint _ => host ++ bytes ":" ++ to_string origin_port_hint ++ bytes "\n"

/-- What was read of the request before the stream was opened. -/
def Side.head : Side → Bytes
  | bridge_stream => []
  | serve_public _ _ head => head

/-- `while (!g_stop && !stream->closed())` in `bridge_stream`; `serve_public` asks
`closed()` at the end of the round. -/
def Side.asks_first : Side → Bool
  | bridge_stream => true
  | serve_public _ _ _ => false

/-- What follows a call of `write`. -/
inductive Next where
  | head
  | loop
  /-- The test of the flags, `POLLHUP` or `POLLERR` among them if so. -/
  | flags (hup : Bool)
deriving DecidableEq, Repr

inductive End where
  | no_upstream
  | g_stop
  | closed
  | write_failed
  | recv
  | hup
  | send_failed
deriving DecidableEq, Repr

/-- Where the pump stands. -/
inductive Phase where
  | read_dst
  | connect
  | top
  | poll
  | recv (hup : Bool)
  /-- `write` before its look at `closed_`. -/
  | write (rest : Bytes) (next : Next)
  /-- `write` at its call of `send_frame`. -/
  | frame (rest : Bytes) (next : Next)
  | flags (hup : Bool)
  | drain
  /-- What `try_read` gave, as far as the socket has not taken it. -/
  | send (rest : Bytes)
  | bottom
  | ended (why : End)
deriving DecidableEq, Repr

/-- `sizeof buf` -/
def block_size : Nat := 32 * 1024

/-- The line is cut off when it is longer. -/
def dst_limit : Nat := 512

end Pump

structure Pump where
  stream : MuxStream
  phase : Pump.Phase
  g_stop : Bool
  /-- The FIN of the peer was handled. -/
  fin : Bool
  /-- The DATA that was handled before the FIN. -/
  received : Bytes
  /-- The destination line as far as it is read. -/
  dst : Bytes
  /-- What the socket took. -/
  written : Bytes
  /-- In the socket and not read. -/
  unread : Bytes
  /-- What the other side of the socket wrote. -/
  offered : Bytes
  /-- The other side of the socket has closed. -/
  hung_up : Bool
  /-- The payloads that went out while the stream was open. -/
  sent : Bytes
  /-- A call of `write` returned false. -/
  refused : Bool
deriving DecidableEq, Repr

namespace Pump

def start (side : Side) (id : UInt32) : Pump where
  stream := .new id
  phase :=
    match side with
    | .bridge_stream => .read_dst
    | .serve_public _ _ _ => .write side.dst .head
  g_stop := false
  fin := false
  received := []
  dst := []
  written := []
  unread := []
  offered := []
  hung_up := false
  sent := []
  refused := false

inductive Event where
  /-- The reader thread handles a DATA frame or the FIN of the stream. -/
  | data (d : Bytes)
  | fin
  /-- SIGINT or SIGTERM. -/
  | stop
  /-- The other side of the socket writes or closes. -/
  | arrive (d : Bytes)
  | hang_up
  /-- The pump goes on, with what a call of its step answered; 0 stands for an
  error as well. -/
  | connected (ok : Bool)
  | polled (readable hup : Bool)
  | recvd (n : Nat)
  | framed (ok : Bool)
  | took (n : Nat)
  | moves
deriving DecidableEq, Repr

/-- There is a socket. -/
def Phase.connected : Phase → Bool
  | read_dst => false
  | connect => false
  | ended .no_upstream => false
  | _ => true

def go (s : Pump) (phase : Phase) : Pump := { s with phase := phase }

def shut (s : MuxStream) : MuxStream := { s with closed := true }

/-- The pump leaves its loop and closes the stream. -/
def finish (s : Pump) (why : End) : Pump := { s with stream := shut s.stream, phase := .ended why }

section
variable (side : Side)

/-- `write` returned true. -/
def wrote (s : Pump) : Next → Pump
  | .head => s.go (.write side.head .loop)
  | .loop => s.go .top
  | .flags hup => s.go (.flags hup)

def refuse (s : Pump) : Pump := { s with refused := true }

/-- `write` returned false, which only the loop looks at. -/
def write_failed (s : Pump) (why : End) : Next → Pump
  | .flags _ => s.refuse.finish why
  | next => s.refuse.wrote side next

/-- A byte of the destination line. -/
def take_dst (s : Pump) (b : UInt8) (stream : MuxStream) : Pump :=
  if b = 10 then { s with stream := stream, phase := .connect }
  else { s with
    stream := stream
    dst := s.dst ++ [b]
    phase := if (s.dst ++ [b]).length > dst_limit then .connect else .read_dst }

/-- A step that asks nobody. A `read` that has to wait has none. -/
def move (s : Pump) : Option Pump :=
  match s.phase with
  | .read_dst =>
    match s.stream.try_read 1 with
    | (none, _) => none
    -- the stream is closed and drained: what there is of the line must do
    | (some [], _) => some (s.go .connect)
    | (some (b :: _), stream) => some (s.take_dst b stream)
  | .top =>
    if s.g_stop then some (s.finish .g_stop)
    else if side.asks_first && s.stream.closed then some (s.finish .closed)
    else some (s.go .poll)
  | .write rest next =>
    if rest = [] then some (s.wrote side next)
    else if s.stream.closed then some (s.write_failed side .closed next)
    else some (s.go (.frame rest next))
  | .flags hup => some (if hup then s.finish .hup else s.go .drain)
  | .drain =>
    match s.stream.try_read block_size with
    | (some (b :: d), stream) => some { s with stream := stream, phase := .send (b :: d) }
    -- 0 and -1 both end the inner loop
    | _ => some (s.go (if side.asks_first then .top else .bottom))
  | .bottom => some (if s.stream.closed then s.finish .closed else s.go .top)
  | _ => none

def sending (s : Pump) (rest : Bytes) (n : Nat) : Pump :=
  { s with
    written := s.written ++ rest.take n
    phase := if rest.drop n = [] then .drain else .send (rest.drop n) }

/-- A frame of `write` went out. -/
def framed (s : Pump) (rest : Bytes) (next : Next) : Pump :=
  { s with
    sent := if s.stream.closed then s.sent else s.sent ++ rest.take kDataFrameCap
    phase := .write (rest.drop kDataFrameCap) next }

/-- A block read from the socket is written to the stream. -/
def block (s : Pump) (n : Nat) (hup : Bool) : Pump :=
  { s with unread := s.unread.drop n, phase := .write (s.unread.take n) (.flags hup) }

/-- `poll` may report a hang-up once the other side has closed, and then reports bytes
that are left. It may report that there is something to read if there is, or the end. -/
def may_poll (s : Pump) (readable hup : Bool) : Bool :=
  (!readable || s.unread ≠ [] || s.hung_up) && (!hup || s.hung_up && (readable || s.unread = []))

def next (s : Pump) (e : Event) : Option Pump :=
  match e, s.phase with
  | .data d, _ =>
    some { s with stream := s.stream.push_data d, received := if s.fin then s.received else s.received ++ d }
  | .fin, _ => some { s with stream := shut s.stream, fin := true }
  | .stop, _ => some { s with g_stop := true }
  | .arrive d, phase =>
    if phase.connected && !s.hung_up then some { s with unread := s.unread ++ d, offered := s.offered ++ d } else none
  | .hang_up, phase => if phase.connected then some { s with hung_up := true } else none
  | .connected ok, .connect => some (if ok then s.go .top else s.finish .no_upstream)
  | .polled readable hup, .poll =>
    if s.may_poll readable hup then some (s.go (if readable then .recv hup else .flags hup)) else none
  -- it reads what is there, and 0 or an error at the end only
  | .recvd n, .recv hup =>
    if n = 0 then if s.unread = [] then some (s.finish .recv) else none
    else if n ≤ block_size ∧ n ≤ s.unread.length then some (s.block n hup)
    else none
  | .framed ok, .frame rest next => some (if ok then s.framed rest next else s.write_failed side .write_failed next)
  | .took n, .send rest =>
    if n = 0 then some (s.finish .send_failed)
    else if n ≤ rest.length then some (s.sending rest n)
    else none
  | .moves, _ => s.move side
  | _, _ => none

def step (s : Pump) (e : Event) (t : Pump) : Prop := s.next side e = some t

def initial (s : Pump) : Prop := ∃ id, s = start side id

/-! ## What a step can do -/

inductive Moves (s : Pump) : Event → Pump → Prop
  | data (d : Bytes) :
    Moves s (.data d)
      { s with stream := s.stream.push_data d, received := if s.fin then s.received else s.received ++ d }
  | fin : Moves s .fin { s with stream := shut s.stream, fin := true }
  | stop : Moves s .stop { s with g_stop := true }
  | arrive (d : Bytes) (hc : s.phase.connected = true) (ho : s.hung_up = false) :
    Moves s (.arrive d) { s with unread := s.unread ++ d, offered := s.offered ++ d }
  | hang_up (hc : s.phase.connected = true) : Moves s .hang_up { s with hung_up := true }
  | dst_byte {b : UInt8} {rest : Bytes} (hp : s.phase = .read_dst) (hb : s.stream.buffer = b :: rest) :
    Moves s .moves (s.take_dst b { s.stream with buffer := rest })
  | dst_end (hp : s.phase = .read_dst) (hb : s.stream.buffer = []) (hc : s.stream.closed = true) :
    Moves s .moves (s.go .connect)
  | connected (hp : s.phase = .connect) : Moves s (.connected true) (s.go .top)
  | unconnected (hp : s.phase = .connect) : Moves s (.connected false) (s.finish .no_upstream)
  | top_stop (hp : s.phase = .top) (hg : s.g_stop = true) : Moves s .moves (s.finish .g_stop)
  | top_closed (hp : s.phase = .top) (ha : side.asks_first = true) (hc : s.stream.closed = true) :
    Moves s .moves (s.finish .closed)
  | top (hp : s.phase = .top) (ho : side.asks_first = false ∨ s.stream.closed = false) : Moves s .moves (s.go .poll)
  | readable {hup : Bool} (hp : s.phase = .poll) (hm : s.may_poll true hup = true) :
    Moves s (.polled true hup) (s.go (.recv hup))
  | unreadable {hup : Bool} (hp : s.phase = .poll) (hm : s.may_poll false hup = true) :
    Moves s (.polled false hup) (s.go (.flags hup))
  | recv_end {hup : Bool} (hp : s.phase = .recv hup) (hu : s.unread = []) : Moves s (.recvd 0) (s.finish .recv)
  | recvd {hup : Bool} {n : Nat} (hp : s.phase = .recv hup) (hn : n ≤ s.unread.length) :
    Moves s (.recvd n) (s.block n hup)
  | wrote {next : Next} (hp : s.phase = .write [] next) : Moves s .moves (s.wrote side next)
  | write_closed {rest : Bytes} {next : Next} (hp : s.phase = .write rest next) (hr : rest ≠ [])
    (hc : s.stream.closed = true) : Moves s .moves (s.write_failed side .closed next)
  | write {rest : Bytes} {next : Next} (hp : s.phase = .write rest next) : Moves s .moves (s.go (.frame rest next))
  | framed {rest : Bytes} {next : Next} (hp : s.phase = .frame rest next) :
    Moves s (.framed true) (s.framed rest next)
  | unframed {rest : Bytes} {next : Next} (hp : s.phase = .frame rest next) :
    Moves s (.framed false) (s.write_failed side .write_failed next)
  | flags_hup (hp : s.phase = .flags true) : Moves s .moves (s.finish .hup)
  | flags (hp : s.phase = .flags false) : Moves s .moves (s.go .drain)
  | drain (hp : s.phase = .drain) :
    Moves s .moves
      { s with
        stream := { s.stream with buffer := s.stream.buffer.drop block_size }
        phase := .send (s.stream.buffer.take block_size) }
  | drained (hp : s.phase = .drain) (hb : s.stream.buffer = []) :
    Moves s .moves (s.go (if side.asks_first then .top else .bottom))
  | took {rest : Bytes} {n : Nat} (hp : s.phase = .send rest) : Moves s (.took n) (s.sending rest n)
  | untaken {rest : Bytes} (hp : s.phase = .send rest) : Moves s (.took 0) (s.finish .send_failed)
  | bottom_closed (hp : s.phase = .bottom) (hc : s.stream.closed = true) : Moves s .moves (s.finish .closed)
  | bottom (hp : s.phase = .bottom) (hc : s.stream.closed = false) : Moves s .moves (s.go .top)

variable {side}

theorem try_read_cons {s : MuxStream} {b : UInt8} {rest : Bytes} (hb : s.buffer = b :: rest) (n : Nat) :
    s.try_read (n + 1) = (some (b :: rest.take n), { s with buffer := rest.drop n }) := by
  rw [MuxStream.try_read, if_neg (by rw [hb]; exact List.cons_ne_nil b rest), hb]
  rfl

theorem try_read_nil {s : MuxStream} (hb : s.buffer = []) (n : Nat) :
    s.try_read n = (if s.closed then some [] else none, s) := by
  rw [MuxStream.try_read, if_pos hb]

theorem moves_of_move {s t : Pump} (h : s.move side = some t) : Moves side s .moves t := by
  unfold move at h
  split at h
  · rename_i hp
    cases hb : s.stream.buffer with
    | nil =>
      rw [try_read_nil hb] at h
      cases hc : s.stream.closed with
      | false => simp [hc] at h
      | true =>
        simp only [hc, if_true] at h
        obtain rfl := Option.some.inj h
        exact .dst_end hp hb hc
    | cons b rest =>
      rw [try_read_cons hb] at h
      obtain rfl := Option.some.inj h
      exact .dst_byte hp hb
  · rename_i hp
    split at h
    · rename_i hg
      obtain rfl := Option.some.inj h
      exact .top_stop hp hg
    · split at h
      · rename_i hc
        obtain rfl := Option.some.inj h
        rw [Bool.and_eq_true] at hc
        exact .top_closed hp hc.1 hc.2
      · rename_i ho
        obtain rfl := Option.some.inj h
        exact .top hp (Bool.and_eq_false_iff.1 (Bool.not_eq_true _ ▸ ho))
  · rename_i rest next hp
    split at h
    · rename_i hr
      obtain rfl := Option.some.inj h
      exact .wrote (hr ▸ hp)
    · rename_i hr
      split at h
      · rename_i hc
        obtain rfl := Option.some.inj h
        exact .write_closed hp hr hc
      · obtain rfl := Option.some.inj h
        exact .write hp
  · rename_i hup hp
    obtain rfl := Option.some.inj h
    cases hup with
    | false => exact .flags hp
    | true => exact .flags_hup hp
  · rename_i hp
    cases hb : s.stream.buffer with
    | nil =>
      have hr := try_read_nil hb block_size
      cases hc : s.stream.closed <;>
      · rw [hc] at hr
        simp only [hr] at h
        obtain rfl := Option.some.inj h
        exact .drained hp hb
    | cons b rest =>
      rw [block_size, try_read_cons hb] at h
      obtain rfl := Option.some.inj h
      have hd : Moves side s .moves _ := .drain hp
      rw [hb] at hd
      exact hd
  · rename_i hp
    obtain rfl := Option.some.inj h
    cases hc : s.stream.closed with
    | false => exact .bottom hp hc
    | true => exact .bottom_closed hp hc
  · cases h

theorem moves_of_step {s t : Pump} {e : Event} (h : step side s e t) : Moves side s e t := by
  unfold step next at h
  split at h
  · obtain rfl := Option.some.inj h
    exact .data _
  · obtain rfl := Option.some.inj h
    exact .fin
  · obtain rfl := Option.some.inj h
    exact .stop
  · split at h
    · rename_i hc
      obtain rfl := Option.some.inj h
      rw [Bool.and_eq_true, Bool.not_eq_true'] at hc
      exact .arrive _ hc.1 hc.2
    · cases h
  · split at h
    · rename_i hc
      obtain rfl := Option.some.inj h
      exact .hang_up hc
    · cases h
  · rename_i ok hp
    obtain rfl := Option.some.inj h
    cases ok with
    | false => exact .unconnected hp
    | true => exact .connected hp
  · rename_i readable hup hp
    split at h
    · rename_i hm
      obtain rfl := Option.some.inj h
      cases readable with
      | false => exact .unreadable hp hm
      | true => exact .readable hp hm
    · cases h
  · rename_i n hup hp
    split at h
    · rename_i hn
      split at h
      · rename_i hu
        obtain rfl := Option.some.inj h
        exact hn ▸ .recv_end hp hu
      · cases h
    · split at h
      · rename_i hn
        obtain rfl := Option.some.inj h
        exact .recvd hp hn.2
      · cases h
  · rename_i ok rest next hp
    obtain rfl := Option.some.inj h
    cases ok with
    | false => exact .unframed hp
    | true => exact .framed hp
  · rename_i n rest hp
    split at h
    · rename_i hn
      obtain rfl := Option.some.inj h
      exact hn ▸ .untaken hp
    · split at h
      · obtain rfl := Option.some.inj h
        exact .took hp
      · cases h
  · exact moves_of_move h
  · cases h

end

end Pump

end Hostely.Tunnel
