import Hostely.Lib.Locks
import Hostely.Lib.SortedMap
import Hostely.Tunnel.Frame
/-!
# Streams over one connection

`MuxStream` and `Mux`, each operation with the mutexes it takes. A stream is an
object that `shared_ptr`s keep: the table `streams_`, the slot
`pending_accept_` and whoever was given it. What `::send` answers to each call
of `send_frame` is given by a socket.
-/

open Hostely.Lib

namespace Hostely.Tunnel

/-! ## MuxStream -/

structure MuxStream where
  id : UInt32
  buffer : Bytes
  closed : Bool
deriving DecidableEq, Repr

def MuxStream.new (id : UInt32) : MuxStream := ⟨id, [], false⟩

def MuxStream.push_data (s : MuxStream) (d : Bytes) : MuxStream := { s with buffer := s.buffer ++ d }

/-- The bytes read: none yet when the buffer is empty and the stream open, no bytes
when it is closed. -/
def MuxStream.try_read (s : MuxStream) (len : Nat) : Option Bytes × MuxStream :=
  if s.buffer = [] then (if s.closed then some [] else none, s)
  else (some (s.buffer.take len), { s with buffer := s.buffer.drop len })

/-! ## Mux -/

inductive Mutex where
  | mu
  | send_mu
  /-- `mu_` of a stream object. -/
  | stream (i : Nat)
deriving DecidableEq, Repr

structure Mux where
  /-- The stream objects in the order they were made; one is named by its place. -/
  objects : List MuxStream
  streams : List (UInt32 × Nat)
  next_id : UInt32
  pending_accept : Option Nat
  dead : Bool
  /-- The objects that others were given and have not dropped. -/
  users : List Nat
  /-- The objects made for a SYN of the peer. -/
  opened : List Nat
  /-- What `accept_stream` returned. -/
  handed : List Nat
  /-- What the table kept when it was cleared. -/
  cleared : List Nat
  /-- The calls of `send_frame`, each with its outcome. -/
  sent : List (Frame × Bool)
deriving DecidableEq, Repr

/-- A new `Mux`, before its reader has seen anything. -/
def Mux.new (client : Bool) : Mux where
  objects := []
  streams := []
  next_id := if client then 1 else 2
  pending_accept := none
  dead := false
  users := []
  opened := []
  handed := []
  cleared := []
  sent := []

namespace Mux

def closed (m : Mux) (i : Nat) : Bool := (m.objects[i]?.map MuxStream.closed).getD false

/-- An object changes. -/
def modify (m : Mux) (i : Nat) (f : MuxStream → MuxStream) : Mux := { m with objects := m.objects.modify i f }

def set_closed (m : Mux) (i : Nat) : Mux := m.modify i fun s => { s with closed := true }

/-- A call of `send_frame` is recorded. -/
def log (m : Mux) (f : Frame) (ok : Bool) : Mux := { m with sent := m.sent ++ [(f, ok)] }

def fin_frame (m : Mux) (i : Nat) : Frame :=
  ⟨kTypeWindowUpdate, kFlagFin, (m.objects[i]?.map MuxStream.id).getD 0, []⟩

/-- The last `shared_ptr` to the object is gone. -/
def unreferenced (m : Mux) (i : Nat) : Bool :=
  m.pending_accept ≠ some i && !m.users.contains i && m.streams.all fun e => e.2 ≠ i

/-- A new object stands in the table. -/
def put (m : Mux) (id : UInt32) : Mux :=
  { m with objects := m.objects ++ [MuxStream.new id], streams := assign id m.objects.length m.streams }

/-- The object that a new one destroys by taking its place. -/
def replaced (m : Mux) (id : UInt32) : Option Nat := (m.streams.lookup id).filter (m.put id).unreferenced

/-- The next stream id is used up. -/
def numbered (m : Mux) : Mux := { m with next_id := m.next_id + 2 }

/-- A stream is handed out by `open_stream`. -/
def given (m : Mux) (i : Nat) : Mux := { m with users := m.users ++ [i] }

/-- The stream of a SYN waits in the slot, if that is free. -/
def offered (m : Mux) (i : Nat) : Mux :=
  { m with
    opened := m.opened ++ [i]
    pending_accept := if m.pending_accept.isSome then m.pending_accept else some i }

/-- The stream in the slot is handed out by `accept_stream`. -/
def accepted (m : Mux) (i : Nat) : Mux :=
  { m with pending_accept := none, users := m.users ++ [i], handed := m.handed ++ [i] }

/-- The objects in the table. -/
def table (m : Mux) : List Nat := m.streams.map Prod.snd

/-- The table is cleared of these objects. -/
def emptied (m : Mux) (table : List Nat) : Mux := { m with streams := [], cleared := m.cleared ++ table }

def killed (m : Mux) : Mux := { m with dead := true }

def syn_frame (id : UInt32) : Frame := ⟨kTypeWindowUpdate, kFlagSyn, id, []⟩

def ack_frame (id : UInt32) : Frame := ⟨kTypeWindowUpdate, kFlagAck, id, []⟩

section
variable (socket : Nat → List Int)

/-- Whether the next call of `send_frame` gets its frame out. -/
def goes_out (m : Mux) (f : Frame) : Bool := (Tunnel.send_frame (socket m.sent.length) f).2

def send_frame (f : Frame) : Locks Mutex Mux Bool :=
  Locks.lock_guard .send_mu do
    let m ← Locks.look
    let ok := m.goes_out socket f
    Locks.change (log · f ok)
    if ok then return true
    else do
      -- whoever holds `mu_` already waits for itself here
      Locks.lock_guard .mu (Locks.change killed)
      return false

/-- `MuxStream::close` -/
def close_stream (i : Nat) : Locks Mutex Mux Unit := do
  let was ← Locks.lock_guard (.stream i) do
    let m ← Locks.look
    Locks.change (set_closed · i)
    return m.closed i
  if was then return ()
  else do
    -- the stream's own mutex is free again
    let m ← Locks.look
    let _ ← send_frame socket (m.fin_frame i)
    return ()

/-- `MuxStream::write`; the others act between the frames. -/
def write (between : Nat → Mux → Mux) (i : Nat) : Nat → Bytes → Locks Mutex Mux Bool
  | 0, _ => return true
  | fuel + 1, buf =>
    if buf = [] then return true
    else do
      let closed ← Locks.lock_guard (.stream i) do
        let m ← Locks.look
        return m.closed i
      if closed then return false
      else do
        let m ← Locks.look
        let id := (m.objects[i]?.map MuxStream.id).getD 0
        let ok ← send_frame socket ⟨kTypeData, 0, id, buf.take kDataFrameCap⟩
        if !ok then return false
        else do
          Locks.change (between fuel)
          write between i fuel (buf.drop kDataFrameCap)

/-- `streams_[id] = s` with a new object. The one it replaces is destroyed, and so
closed, if nothing else keeps it. -/
def register (id : UInt32) : Locks Mutex Mux Nat := do
  let m ← Locks.look
  Locks.change (put · id)
  match m.replaced id with
  | none => return m.objects.length
  | some old => do
    close_stream socket old
    return m.objects.length

def open_stream : Locks Mutex Mux Nat :=
  Locks.lock_guard .mu do
    let m ← Locks.look
    Locks.change numbered
    let i ← register socket m.next_id
    let _ ← send_frame socket (syn_frame m.next_id)
    Locks.change (given · i)
    return i

/-- One turn of the loop of `accept_stream`: nothing yet, or what it returns, which
is null on a dead session. -/
def poll : Locks Mutex Mux (Option (Option Nat)) :=
  Locks.lock_guard .mu do
    let m ← Locks.look
    if m.dead then return some none
    else match m.pending_accept with
      | none => return none
      | some i => do
        Locks.change (accepted · i)
        return some (some i)

/-- The others act while it sleeps. Without a result it is still waiting. -/
def accept_stream (between : Nat → Mux → Mux) : Nat → Locks Mutex Mux (Option (Option Nat))
  | 0 => poll
  | turns + 1 => do
    match ← poll with
    | some r => return some r
    | none => do
      Locks.change (between turns)
      accept_stream between turns

/-! ## read_loop, a frame at a time -/

def on_data (f : Frame) : Locks Mutex Mux Unit := do
  let found ← Locks.lock_guard .mu do
    let m ← Locks.look
    return m.streams.lookup f.stream_id
  match found with
  | none => return ()
  | some i => Locks.lock_guard (.stream i) (Locks.change (modify · i (·.push_data f.payload)))

def on_syn (sid : UInt32) : Locks Mutex Mux Unit :=
  Locks.lock_guard .mu do
    let i ← register socket sid
    Locks.change (offered · i)
    let _ ← send_frame socket (ack_frame sid)
    return ()

def on_fin (sid : UInt32) : Locks Mutex Mux Unit :=
  Locks.lock_guard .mu do
    let m ← Locks.look
    match m.streams.lookup sid with
    | none => return ()
    | some i => close_stream socket i

def on_ping (flags : UInt16) : Locks Mutex Mux Unit :=
  if flags = 0 then do
    let _ ← send_frame socket ⟨kTypePing, kFlagAck, 0, []⟩
    return ()
  else return ()

/-- `dead_ = true`, as the loop sets it before it ends. -/
def die : Locks Mutex Mux Unit := Locks.lock_guard .mu (Locks.change killed)

/-- The switch over the type of a frame. -/
def on_frame (f : Frame) : Locks Mutex Mux Unit :=
  if f.type = kTypeData then on_data f
  else if f.type = kTypeWindowUpdate then
    if f.flags &&& kFlagSyn ≠ 0 then on_syn socket f.stream_id
    else if f.flags &&& kFlagFin ≠ 0 then on_fin socket f.stream_id
    else return ()
  else if f.type = kTypePing then on_ping socket f.flags
  else if f.type = kTypeGoAway then die
  else return ()

/-- A SYN, whatever its other flags. -/
theorem on_frame_syn {f : Frame} (hwindow : f.type = kTypeWindowUpdate) (hflag : f.flags &&& kFlagSyn ≠ 0) :
    on_frame socket f = on_syn socket f.stream_id := by
  have hdata : ¬ f.type = kTypeData := by
    rw [hwindow]
    decide
  rw [on_frame, if_neg hdata, if_pos hwindow, if_pos hflag]

/-! ## Mux::close -/

/-- The first part; whether the call goes on. -/
def close_first : Locks Mutex Mux Bool :=
  Locks.lock_guard .mu do
    let m ← Locks.look
    if m.dead then return false
    else do
      Locks.change killed
      return true

def close_all : List Nat → Locks Mutex Mux Unit
  | [] => return ()
  | i :: rest => do
    close_stream socket i
    close_all rest

/-- The part after the reader is joined. What the table kept is closed when it is
cleared, so destroying it sends nothing. -/
def close_streams : Locks Mutex Mux Unit :=
  Locks.lock_guard .mu do
    let m ← Locks.look
    close_all socket m.table
    Locks.change (emptied · m.table)

/-- `others` act until the reader is joined. -/
def close (others : Mux → Mux) : Locks Mutex Mux Unit := do
  let first ← close_first
  if first then do
    Locks.change others
    close_streams socket
  else return ()

end

/-! ## What the operations keep -/

/-- A preorder that the small changes respect: a frame is sent, the session dies, an
object changes and is not opened again. -/
structure Tolerant (R : Mux → Mux → Prop) : Prop where
  refl : ∀ m, R m m
  trans : ∀ a b c, R a b → R b c → R a c
  log : ∀ m f ok, R m (m.log f ok)
  killed : ∀ m, R m m.killed
  modify : ∀ m i f, (∀ s, s.closed = true → (f s).closed = true) → R m (m.modify i f)

section
variable {socket : Nat → List Int} {R : Mux → Mux → Prop}

namespace Tolerant
variable {α β : Type} {x : Locks Mutex Mux α} {k : α → Locks Mutex Mux β}

theorem pure (h : Tolerant R) (a : α) : Locks.Keeps R (Pure.pure a : Locks Mutex Mux α) := Locks.Keeps.pure h.refl a

theorem bind (h : Tolerant R) (hx : Locks.Keeps R x) (hk : ∀ a, Locks.Keeps R (k a)) : Locks.Keeps R (x >>= k) :=
  Locks.Keeps.bind h.trans hx hk

theorem look (h : Tolerant R) {k : Mux → Locks Mutex Mux β} (hk : ∀ m, Locks.Keeps R (k m)) :
    Locks.Keeps R (Locks.look >>= k) :=
  h.bind (Locks.Keeps.look h.refl) hk

theorem change (h : Tolerant R) {g : Mux → Mux} (hg : ∀ m, R m (g m)) {k : Unit → Locks Mutex Mux β}
    (hk : Locks.Keeps R (k ())) : Locks.Keeps R (Locks.change g >>= k) :=
  h.bind (Locks.Keeps.change hg) fun _ => hk

theorem send_frame (h : Tolerant R) (f : Frame) : Locks.Keeps R (Mux.send_frame socket f) := by
  refine Locks.Keeps.lock_guard _ (h.look fun m => h.change (fun m => h.log m f _) ?_)
  split
  · exact h.pure _
  · exact h.bind (Locks.Keeps.lock_guard _ (Locks.Keeps.change h.killed)) fun _ => h.pure _

theorem close_stream (h : Tolerant R) (i : Nat) : Locks.Keeps R (Mux.close_stream socket i) := by
  refine h.bind (Locks.Keeps.lock_guard _ (h.look fun m => h.change (fun m => ?_) (h.pure _))) fun was => ?_
  · exact h.modify m i _ fun _ _ => rfl
  · split
    · exact h.pure _
    · exact h.look fun m => h.bind (h.send_frame _) fun _ => h.pure _

theorem write (h : Tolerant R) {between : Nat → Mux → Mux} (hb : ∀ n m, R m (between n m)) (i fuel : Nat) (buf : Bytes) :
    Locks.Keeps R (Mux.write socket between i fuel buf) := by
  induction fuel generalizing buf with
  | zero => exact h.pure _
  | succ fuel ih =>
    unfold Mux.write
    split
    · exact h.pure _
    · refine h.bind (Locks.Keeps.lock_guard _ (h.look fun m => h.pure _)) fun closed => ?_
      split
      · exact h.pure _
      · refine h.look fun m => h.bind (h.send_frame _) fun ok => ?_
        split
        · exact h.pure _
        · exact h.change (hb fuel) (ih _)

theorem on_data (h : Tolerant R) (f : Frame) : Locks.Keeps R (Mux.on_data f) := by
  refine h.bind (Locks.Keeps.lock_guard _ (h.look fun m => h.pure _)) fun found => ?_
  split
  · exact h.pure _
  · exact Locks.Keeps.lock_guard _ (Locks.Keeps.change fun m => h.modify m _ _ fun _ hs => hs)

theorem on_fin (h : Tolerant R) (sid : UInt32) : Locks.Keeps R (Mux.on_fin socket sid) := by
  refine Locks.Keeps.lock_guard _ (h.look fun m => ?_)
  split
  · exact h.pure _
  · exact h.close_stream _

theorem on_ping (h : Tolerant R) (flags : UInt16) : Locks.Keeps R (Mux.on_ping socket flags) := by
  unfold Mux.on_ping
  split
  · exact h.bind (h.send_frame _) fun _ => h.pure _
  · exact h.pure _

theorem die (h : Tolerant R) : Locks.Keeps R Mux.die := Locks.Keeps.lock_guard _ (Locks.Keeps.change h.killed)

/-- A frame that is no SYN. -/
theorem on_frame (h : Tolerant R) (f : Frame) (hf : f.type = kTypeWindowUpdate → f.flags &&& kFlagSyn = 0) :
    Locks.Keeps R (Mux.on_frame socket f) := by
  unfold Mux.on_frame
  split
  · exact h.on_data f
  · split
    · rename_i hwindow
      rw [if_neg (not_not.2 (hf hwindow))]
      split
      · exact h.on_fin _
      · exact h.pure _
    · split
      · exact h.on_ping _
      · split
        · exact h.die
        · exact h.pure _

end Tolerant

end

end Mux

/-! ## Every operation -/

/-- An operation of `Mux` or `MuxStream`, with what the other threads do to the
shared state while it holds no mutex. -/
inductive Call where
  | open_stream
  | accept_stream (between : Nat → Mux → Mux) (turns : Nat)
  | write (between : Nat → Mux → Mux) (i : Nat) (buf : Bytes)
  /-- `MuxStream::close`, also as the destructor calls it. -/
  | close_stream (i : Nat)
  | close (others : Mux → Mux)
  | frame (f : Frame)
  /-- `read_loop` sees the end of the connection or bytes it does not take. -/
  | die

section
variable (socket : Nat → List Int)

def Call.run (c : Call) : Locks Mutex Mux Unit :=
  match c with
  | open_stream => do
    let _ ← Mux.open_stream socket
    return ()
  | accept_stream between turns => do
    let _ ← Mux.accept_stream between turns
    return ()
  | write between i buf => do
    let _ ← Mux.write socket between i buf.length buf
    return ()
  | close_stream i => Mux.close_stream socket i
  | close others => Mux.close socket others
  | frame f => Mux.on_frame socket f
  | die => Mux.die

end

end Hostely.Tunnel
