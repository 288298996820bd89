import Hostely.Tunnel.Mux
/-!
# Which operations take a mutex twice

`send_frame` takes `mu_` when its frame does not go out. An operation that sends
while it holds `mu_` then waits for itself; the others never do. On the way
every operation gets the state it leaves.
-/

open Hostely.Lib

namespace Hostely.Tunnel

namespace Mux

/-! ## What the operations do -/

/-- The frames that closing an object sends. -/
def fins (m : Mux) (i : Nat) : List Frame := if m.closed i then [] else [m.fin_frame i]

/-- The object is closed, and its FIN went out. -/
def closes (m : Mux) (i : Nat) : Mux :=
  { m.set_closed i with sent := m.sent ++ (m.fins i).map (·, true) }

def replace_fins (m : Mux) (id : UInt32) : List Frame :=
  match m.replaced id with
  | none => []
  | some old => (m.put id).fins old

def registers (m : Mux) (id : UInt32) : Mux :=
  match m.replaced id with
  | none => m.put id
  | some old => (m.put id).closes old

/-- The frames that closing these objects one after the other sends. -/
def all_fins (m : Mux) : List Nat → List Frame
  | [] => []
  | i :: rest => m.fins i ++ all_fins (m.closes i) rest

def closes_all (m : Mux) : List Nat → Mux
  | [] => m
  | i :: rest => closes_all (m.closes i) rest

section
variable {socket : Nat → List Int} {held : List Mutex} {m : Mux} {f : Frame} {i : Nat} {id : UInt32}

/-- Whether these frames, sent from the `n`-th call of `send_frame` on, all go out. -/
def all_out (socket : Nat → List Int) (n : Nat) : List Frame → Bool
  | [] => true
  | f :: fs => (Tunnel.send_frame (socket n) f).2 && all_out socket (n + 1) fs

theorem all_out_append (n : Nat) (a b : List Frame) :
    all_out socket n (a ++ b) = (all_out socket n a && all_out socket (n + a.length) b) := by
  induction a generalizing n with
  | nil => simp [all_out]
  | cons f a ih =>
    rw [List.cons_append, all_out, all_out, ih, Bool.and_assoc, List.length_cons]
    congr 3
    omega

theorem send_frame_out (hs : .send_mu ∉ held) (h : m.goes_out socket f = true) :
    send_frame socket f held m = .ok (true, m.log f true) := by
  rw [send_frame, Locks.lock_guard_free hs]
  simp [h, log]

theorem send_frame_fails (hs : .send_mu ∉ held) (hmu : .mu ∉ held) (h : m.goes_out socket f = false) :
    send_frame socket f held m = .ok (false, (m.log f false).killed) := by
  rw [send_frame, Locks.lock_guard_free hs]
  have hdead : Locks.lock_guard .mu (Locks.change killed) (.send_mu :: held) (m.log f false) =
      .ok ((), (m.log f false).killed) := by
    rw [Locks.lock_guard_free (by simp [hmu])]
    rfl
  simp only [Locks.look_bind, Locks.change_bind, h, Bool.false_eq_true, if_false]
  exact Locks.bind_ok hdead

/-- A frame that does not go out while `mu_` is held. -/
theorem send_frame_relocks (hs : .send_mu ∉ held) (hmu : .mu ∈ held) (h : m.goes_out socket f = false) :
    send_frame socket f held m = .error .mu := by
  rw [send_frame, Locks.lock_guard_free hs]
  simp only [Locks.look_bind, Locks.change_bind, h, Bool.false_eq_true, if_false]
  exact Locks.bind_error (Locks.lock_guard_held (List.mem_cons_of_mem _ hmu))

/-- Without `mu_` a frame may fail to go out. -/
theorem send_frame_free (f : Frame) (m : Mux) : ∃ ok m', send_frame socket f [] m = .ok (ok, m') := by
  cases h : m.goes_out socket f with
  | true => exact ⟨_, _, send_frame_out (by simp) h⟩
  | false => exact ⟨_, _, send_frame_fails (by simp) (by simp) h⟩

/-- With `mu_` it must not. -/
theorem send_frame_mu (f : Frame) (m : Mux) :
    (all_out socket m.sent.length [f] = true ∧ send_frame socket f [.mu] m = .ok (true, m.log f true)) ∨
    (all_out socket m.sent.length [f] = false ∧ send_frame socket f [.mu] m = .error .mu) := by
  have hone : all_out socket m.sent.length [f] = m.goes_out socket f := Bool.and_true _
  rw [hone]
  cases h : m.goes_out socket f with
  | true => exact .inl ⟨rfl, send_frame_out (by simp) h⟩
  | false => exact .inr ⟨rfl, send_frame_relocks (by simp) (by simp) h⟩

theorem fin_frame_set_closed : (m.set_closed i).fin_frame i = m.fin_frame i := by
  simp only [fin_frame, set_closed, modify, List.getElem?_modify_eq]
  cases m.objects[i]? <;> rfl

theorem close_flag (h : .stream i ∉ held) :
    (Locks.lock_guard (.stream i) do
      let m ← Locks.look
      Locks.change (set_closed · i)
      return m.closed i : Locks Mutex Mux Bool) held m = .ok (m.closed i, m.set_closed i) := by
  rw [Locks.lock_guard_free h]
  rfl

theorem close_stream_free (i : Nat) (m : Mux) : ∃ m', close_stream socket i [] m = .ok ((), m') := by
  rw [close_stream, Locks.bind_ok (close_flag (by simp))]
  cases m.closed i with
  | true => exact ⟨_, rfl⟩
  | false =>
    obtain ⟨ok, m', h⟩ := @send_frame_free socket ((m.set_closed i).fin_frame i) (m.set_closed i)
    refine ⟨m', ?_⟩
    simp only [Bool.false_eq_true, if_false, Locks.look_bind]
    exact Locks.bind_ok h

theorem close_stream_mu (i : Nat) (m : Mux) :
    (all_out socket m.sent.length (m.fins i) = true ∧ close_stream socket i [.mu] m = .ok ((), m.closes i)) ∨
    (all_out socket m.sent.length (m.fins i) = false ∧ close_stream socket i [.mu] m = .error .mu) := by
  rw [close_stream, Locks.bind_ok (close_flag (by simp))]
  cases hc : m.closed i with
  | true =>
    refine .inl ⟨by simp [fins, hc, all_out], ?_⟩
    simp [closes, fins, hc, set_closed, modify]
  | false =>
    have hfins : m.fins i = [m.fin_frame i] := by simp [fins, hc]
    have hframe := fin_frame_set_closed (m := m) (i := i)
    simp only [Bool.false_eq_true, if_false, Locks.look_bind]
    -- setting the flag leaves the frame and the count of frames sent as they were
    rcases @send_frame_mu socket ((m.set_closed i).fin_frame i) (m.set_closed i) with ⟨hout, h⟩ | ⟨hout, h⟩
    · refine .inl ⟨by rw [hfins, ← hframe]; exact hout, ?_⟩
      refine (Locks.bind_ok h).trans ?_
      rw [Locks.pure_run, hframe, log, closes, hfins]
      rfl
    · exact .inr ⟨by rw [hfins, ← hframe]; exact hout, Locks.bind_error h⟩

/-- What an operation does while it holds `mu_`: it ends in `m'` if the frames go
out, and takes `mu_` again if one does not. -/
def Under (socket : Nat → List Int) {α : Type} (x : Locks Mutex Mux α) (held : List Mutex) (m : Mux) (fs : List Frame)
    (a : α) (m' : Mux) : Prop :=
  (all_out socket m.sent.length fs = true ∧ x held m = .ok (a, m')) ∨
  (all_out socket m.sent.length fs = false ∧ x held m = .error .mu)

/-- One part after the other; the first has sent its frames. -/
theorem Under.bind {α β : Type} {x : Locks Mutex Mux α} {k : α → Locks Mutex Mux β} {m' m'' : Mux} {a : α} {b : β}
    {fs gs : List Frame} (hx : Under socket x held m fs a m') (hsent : m'.sent.length = m.sent.length + fs.length)
    (hk : Under socket (k a) held m' gs b m'') : Under socket (x >>= k) held m (fs ++ gs) b m'' := by
  unfold Under at hk ⊢
  rw [all_out_append]
  rw [hsent] at hk
  rcases hx with ⟨hout, h⟩ | ⟨hout, h⟩
  · rw [Locks.bind_ok h, hout, Bool.true_and]
    exact hk
  · rw [Locks.bind_error h, hout, Bool.false_and]
    exact .inr ⟨rfl, rfl⟩

theorem Under.pure {α : Type} {a : α} : Under socket (Pure.pure a : Locks Mutex Mux α) held m [] a m :=
  .inl ⟨rfl, rfl⟩

/-- A part that sends nothing. -/
theorem Under.then_pure {α β : Type} {x : Locks Mutex Mux α} {k : α → Locks Mutex Mux β} {m' m'' : Mux} {a : α} {b : β}
    {fs : List Frame} (hx : Under socket x held m fs a m') (hk : k a held m' = .ok (b, m'')) :
    Under socket (x >>= k) held m fs b m'' := by
  rcases hx with ⟨hout, h⟩ | ⟨hout, h⟩
  · exact .inl ⟨hout, (Locks.bind_ok h).trans hk⟩
  · exact .inr ⟨hout, Locks.bind_error h⟩

theorem closes_sent (m : Mux) (i : Nat) : (m.closes i).sent.length = m.sent.length + (m.fins i).length := by
  rw [closes, List.length_append, List.length_map]

theorem registers_sent (m : Mux) (id : UInt32) :
    (m.registers id).sent.length = m.sent.length + (m.replace_fins id).length := by
  unfold registers replace_fins
  cases m.replaced id with
  | none => rfl
  | some old => exact closes_sent (m.put id) old

theorem register_mu (id : UInt32) (m : Mux) :
    Under socket (register socket id) [.mu] m (m.replace_fins id) m.objects.length (m.registers id) := by
  unfold Under
  rw [register, replace_fins, registers]
  simp only [Locks.look_bind, Locks.change_bind]
  cases m.replaced id with
  | none => exact .inl ⟨rfl, rfl⟩
  | some old => exact Under.then_pure (close_stream_mu old (m.put id)) rfl

theorem Under.look {α : Type} {k : Mux → Locks Mutex Mux α} {m' : Mux} {a : α} {fs : List Frame}
    (h : Under socket (k m) held m fs a m') : Under socket (Locks.look >>= k) held m fs a m' := h

/-- A change of the state before anything is sent. -/
theorem Under.change {α : Type} {g : Mux → Mux} {k : Unit → Locks Mutex Mux α} {m' : Mux} {a : α} {fs : List Frame}
    (hg : (g m).sent = m.sent) (h : Under socket (k ()) held (g m) fs a m') :
    Under socket (Locks.change g >>= k) held m fs a m' := by
  unfold Under at h ⊢
  rwa [hg] at h

/-- A whole operation under one lock of `mu_`. -/
theorem Under.locked {α : Type} {x : Locks Mutex Mux α} {m' : Mux} {a : α} {fs : List Frame}
    (h : Under socket x [.mu] m fs a m') : Under socket (Locks.lock_guard .mu x) [] m fs a m' := by
  unfold Under at h ⊢
  rwa [Locks.lock_guard_free (by simp)]

def opens (m : Mux) : Mux :=
  ((m.numbered.registers m.next_id).log (syn_frame m.next_id) true).given m.objects.length

theorem open_stream_mu (m : Mux) :
    Under socket (open_stream socket) [] m (m.numbered.replace_fins m.next_id ++ [syn_frame m.next_id])
      m.objects.length m.opens := by
  refine Under.locked (Under.look (Under.change rfl ?_))
  have hreg : Under socket (register socket m.next_id) _ _ _ m.objects.length _ := register_mu m.next_id m.numbered
  exact hreg.bind (registers_sent m.numbered m.next_id) (Under.then_pure (send_frame_mu (syn_frame m.next_id) _) rfl)

/-- The stream of a SYN stands in the table, and in the slot if that is free. -/
def offers (m : Mux) (sid : UInt32) : Mux := ((m.registers sid).offered m.objects.length).log (ack_frame sid) true

theorem on_syn_mu (sid : UInt32) (m : Mux) :
    Under socket (on_syn socket sid) [] m (m.replace_fins sid ++ [ack_frame sid]) () (m.offers sid) := by
  refine Under.locked ((register_mu sid m).bind (registers_sent m sid) (Under.change rfl ?_))
  exact Under.then_pure (send_frame_mu (ack_frame sid) _) rfl

/-- The frames a FIN is answered with. -/
def found_fins (m : Mux) (sid : UInt32) : List Frame :=
  match m.streams.lookup sid with
  | none => []
  | some i => m.fins i

def ends (m : Mux) (sid : UInt32) : Mux :=
  match m.streams.lookup sid with
  | none => m
  | some i => m.closes i

theorem on_fin_mu (sid : UInt32) (m : Mux) :
    Under socket (on_fin socket sid) [] m (m.found_fins sid) () (m.ends sid) := by
  refine Under.locked (Under.look ?_)
  rw [found_fins, ends]
  cases m.streams.lookup sid with
  | none => exact Under.pure
  | some i => exact close_stream_mu i m

theorem close_all_mu (is : List Nat) (m : Mux) :
    Under socket (close_all socket is) [.mu] m (m.all_fins is) () (m.closes_all is) := by
  induction is generalizing m with
  | nil => exact Under.pure
  | cons i is ih => exact Under.bind (close_stream_mu i m) (closes_sent m i) (ih (m.closes i))

theorem close_streams_mu (m : Mux) :
    Under socket (close_streams socket) [] m (m.all_fins m.table) () ((m.closes_all m.table).emptied m.table) :=
  Under.locked (Under.look (Under.then_pure (close_all_mu m.table m) rfl))

/-! ## Without mu_ -/

theorem write_free (between : Nat → Mux → Mux) (i fuel : Nat) (buf : Bytes) (m : Mux) :
    ∃ r, write socket between i fuel buf [] m = .ok r := by
  induction fuel generalizing buf m with
  | zero => exact ⟨_, rfl⟩
  | succ fuel ih =>
    unfold write
    split
    · exact ⟨_, rfl⟩
    · have hflag : (Locks.lock_guard (.stream i) do
          let m ← Locks.look
          return m.closed i : Locks Mutex Mux Bool) [] m = .ok (m.closed i, m) := by
        rw [Locks.lock_guard_free (by simp)]
        rfl
      rw [Locks.bind_ok hflag]
      cases m.closed i with
      | true => exact ⟨_, rfl⟩
      | false =>
        simp only [Bool.false_eq_true, if_false, Locks.look_bind]
        obtain ⟨ok, m', hsend⟩ := @send_frame_free socket
          ⟨kTypeData, 0, (m.objects[i]?.map MuxStream.id).getD 0, buf.take kDataFrameCap⟩ m
        rw [Locks.bind_ok hsend]
        cases ok with
        | false => exact ⟨_, rfl⟩
        | true => exact ih _ _

/-- What one turn of `accept_stream` returns, and what it leaves. -/
def polled (m : Mux) : Option (Option Nat) × Mux :=
  if m.dead then (some none, m)
  else match m.pending_accept with
    | none => (none, m)
    | some i => (some (some i), m.accepted i)

theorem poll_run (m : Mux) : poll [] m = .ok m.polled := by
  rw [poll, Locks.lock_guard_free (by simp), polled, Locks.look_bind]
  cases m.dead with
  | true => rfl
  | false => cases m.pending_accept <;> rfl

theorem accept_stream_free (between : Nat → Mux → Mux) (turns : Nat) (m : Mux) :
    ∃ r, accept_stream between turns [] m = .ok r := by
  induction turns generalizing m with
  | zero => exact ⟨_, poll_run m⟩
  | succ turns ih =>
    unfold accept_stream
    have hpoll : poll [] m = .ok (m.polled.1, m.polled.2) := poll_run m
    rw [Locks.bind_ok hpoll]
    cases m.polled.1 with
    | some r => exact ⟨_, rfl⟩
    | none => exact ih _

/-- The payload goes to the stream of the table. -/
def feeds (m : Mux) (f : Frame) : Mux :=
  match m.streams.lookup f.stream_id with
  | none => m
  | some i => m.modify i (·.push_data f.payload)

theorem on_data_run (f : Frame) (m : Mux) : on_data f [] m = .ok ((), m.feeds f) := by
  have hfound : (Locks.lock_guard .mu do
      let m ← Locks.look
      return m.streams.lookup f.stream_id : Locks Mutex Mux (Option Nat)) [] m =
      .ok (m.streams.lookup f.stream_id, m) := by
    rw [Locks.lock_guard_free (by simp)]
    rfl
  rw [on_data, Locks.bind_ok hfound, feeds]
  cases m.streams.lookup f.stream_id with
  | none => rfl
  | some i =>
    simp only
    rw [Locks.lock_guard_free (by simp)]
    rfl

theorem on_ping_free (flags : UInt16) (m : Mux) : ∃ m', on_ping socket flags [] m = .ok ((), m') := by
  unfold on_ping
  split
  · obtain ⟨ok, m', h⟩ := @send_frame_free socket ⟨kTypePing, kFlagAck, 0, []⟩ m
    exact ⟨m', Locks.bind_ok h⟩
  · exact ⟨m, rfl⟩

theorem die_run (m : Mux) : die [] m = .ok ((), m.killed) := by
  rw [die, Locks.lock_guard_free (by simp)]
  rfl

theorem close_first_run (m : Mux) : close_first [] m = .ok (!m.dead, if m.dead then m else m.killed) := by
  rw [close_first, Locks.lock_guard_free (by simp)]
  simp only [Locks.look_bind]
  cases m.dead <;> rfl

end

end Mux

/-! ## Every operation -/

/-- The frames an operation sends while it holds `mu_`, with the number of the call
of `send_frame` that the first of them is. -/
def Call.under_mu (m : Mux) (c : Call) : Nat × List Frame :=
  match c with
  | open_stream => (m.sent.length, m.numbered.replace_fins m.next_id ++ [Mux.syn_frame m.next_id])
  | close others =>
    let later := others m.killed
    if m.dead then (m.sent.length, []) else (later.sent.length, later.all_fins later.table)
  | frame f =>
    if f.type = kTypeWindowUpdate then
      if f.flags &&& kFlagSyn ≠ 0 then (m.sent.length, m.replace_fins f.stream_id ++ [Mux.ack_frame f.stream_id])
      else if f.flags &&& kFlagFin ≠ 0 then (m.sent.length, m.found_fins f.stream_id)
      else (m.sent.length, [])
    else (m.sent.length, [])
  | _ => (m.sent.length, [])

section
variable {socket : Nat → List Int} {m : Mux} {x : Locks Mutex Mux Unit}

theorem runs_iff_of_under {fs : List Frame} {m' : Mux} (h : Mux.Under socket x [] m fs () m') :
    (∀ mutex, x [] m ≠ .error mutex) ↔ Mux.all_out socket m.sent.length fs = true := by
  rcases h with ⟨hout, h⟩ | ⟨hout, h⟩
  · rw [h, hout]
    exact ⟨fun _ => rfl, fun _ _ h => by cases h⟩
  · rw [h, hout]
    exact ⟨fun hne => absurd rfl (hne .mu), fun h => by cases h⟩

theorem runs_iff_of_free {n : Nat} {r : Unit × Mux} (h : x [] m = .ok r) :
    (∀ mutex, x [] m ≠ .error mutex) ↔ Mux.all_out socket n [] = true := by
  rw [h]
  exact ⟨fun _ => rfl, fun _ _ h => by cases h⟩

/-- The result of an operation does not matter for its mutexes. -/
theorem drop_result {α : Type} {y : Locks Mutex Mux α} (h : ∃ r, y [] m = .ok r) :
    ∃ m', (y >>= fun _ => (Pure.pure () : Locks Mutex Mux Unit)) [] m = .ok ((), m') := by
  obtain ⟨⟨a, m'⟩, h⟩ := h
  exact ⟨m', Locks.bind_ok h⟩

theorem frame_runs_iff (f : Frame) (m : Mux) :
    (∀ mutex, Mux.on_frame socket f [] m ≠ .error mutex) ↔
      Mux.all_out socket ((Call.frame f).under_mu m).1 ((Call.frame f).under_mu m).2 = true := by
  unfold Call.under_mu Mux.on_frame
  by_cases hdata : f.type = kTypeData
  · have hwindow : ¬ f.type = kTypeWindowUpdate := by
      rw [hdata]
      decide
    simp only [if_pos hdata, if_neg hwindow]
    exact runs_iff_of_free (Mux.on_data_run f m)
  · simp only [if_neg hdata]
    by_cases hwindow : f.type = kTypeWindowUpdate
    · simp only [if_pos hwindow]
      by_cases hsyn : f.flags &&& kFlagSyn ≠ 0
      · simp only [if_pos hsyn]
        exact runs_iff_of_under (Mux.on_syn_mu f.stream_id m)
      · simp only [if_neg hsyn]
        by_cases hfin : f.flags &&& kFlagFin ≠ 0
        · simp only [if_pos hfin]
          exact runs_iff_of_under (Mux.on_fin_mu f.stream_id m)
        · simp only [if_neg hfin]
          exact runs_iff_of_free rfl
    · simp only [if_neg hwindow]
      split
      · obtain ⟨m', h⟩ := @Mux.on_ping_free socket f.flags m
        exact runs_iff_of_free h
      · split
        · exact runs_iff_of_free (Mux.die_run m)
        · exact runs_iff_of_free rfl

theorem close_runs_iff (others : Mux → Mux) (m : Mux) :
    (∀ mutex, Mux.close socket others [] m ≠ .error mutex) ↔
      Mux.all_out socket ((Call.close others).under_mu m).1 ((Call.close others).under_mu m).2 = true := by
  unfold Call.under_mu Mux.close
  rw [Locks.bind_ok (Mux.close_first_run m)]
  cases m.dead with
  | true => exact runs_iff_of_free rfl
  | false =>
    -- the table is the one that the others leave while the reader is joined
    exact runs_iff_of_under (Mux.close_streams_mu (others m.killed))

/-- A thread takes a mutex it holds exactly when a frame that it sends while it holds
`mu_` does not go out. -/
theorem never_relocks_iff (socket : Nat → List Int) (c : Call) (m : Mux) :
    (∀ mutex, c.run socket [] m ≠ .error mutex) ↔ Mux.all_out socket (c.under_mu m).1 (c.under_mu m).2 = true := by
  cases c with
  | open_stream => exact runs_iff_of_under (Mux.Under.then_pure (Mux.open_stream_mu m) rfl)
  | accept_stream between turns =>
    obtain ⟨m', h⟩ := drop_result (Mux.accept_stream_free between turns m)
    exact runs_iff_of_free h
  | write between i buf =>
    obtain ⟨m', h⟩ := drop_result (@Mux.write_free socket between i buf.length buf m)
    exact runs_iff_of_free h
  | close_stream i =>
    obtain ⟨m', h⟩ := @Mux.close_stream_free socket i m
    exact runs_iff_of_free h
  | close others => exact close_runs_iff others m
  | frame f => exact frame_runs_iff f m
  | die => exact runs_iff_of_free (Mux.die_run m)

/-- A stream is opened on a connection that takes nothing any more. -/
theorem open_stream_relocks :
    Call.run (fun _ => [-1]) .open_stream [] (Mux.new false) = .error .mu := by
  rfl

end

end Hostely.Tunnel
