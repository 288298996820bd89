import Hostely.Tunnel.Pump
/-!
# From the stream to the socket

What the peer sends before its FIN waits in the buffer of the stream until the pump
drains it. Both loops ask `closed()` and drain at different times, so the FIN may
come between the two.
-/

open Hostely.Lib

namespace Hostely.Tunnel.Pump

/-- What follows the destination line when this many of its bytes are read. -/
def after_line (n : Nat) : Bytes → Bytes
  | [] => []
  | b :: rest => if b = 10 then rest else if n + 1 > dst_limit then rest else after_line (n + 1) rest

/-- The part of what the peer sent that is for the socket. -/
def Side.for_socket : Side → Bytes → Bytes
  | bridge_stream, received => after_line 0 received
  | serve_public _ _ _, received => received

/-- A pump that ends because the peer closed the stream has written all the peer sent. -/
def Delivered (side : Side) (s : Pump) : Prop := s.phase = .ended .closed → s.written = side.for_socket s.received

/-- The pump asks `closed()` before it drains again. -/
def Phase.asks (side : Side) : Phase → Bool
  | read_dst => side.asks_first
  | connect => side.asks_first
  | top => side.asks_first
  | bottom => true
  | _ => false

/-- A closed stream is not drained any more. -/
def Phase.drained_out (side : Side) : Phase → Bool
  | ended _ => true
  | phase => phase.asks side

/-- What the next drain finds. -/
def left (s : Pump) : Bytes :=
  match s.phase with
  | .read_dst => after_line s.dst.length s.stream.buffer
  | _ => s.stream.buffer

/-- The FIN comes when the pump will drain once more or has nothing left to drain, DATA
comes after it only when the pump drains no more, and no block is written to the closed
stream unless the buffer is empty. -/
def drains_in_time (side : Side) (s : Pump) (e : Event) : Bool :=
  match e with
  | .data _ => !s.fin || s.phase.drained_out side
  | .fin => s.fin || !s.phase.asks side || s.left = []
  | .moves =>
    match s.phase with
    | .write rest (.flags _) => rest = [] || !s.stream.closed || s.stream.buffer = []
    | _ => true
  | _ => true

/-! ## The bytes on their way -/

/-- The bytes that `try_read` gave and the socket has not taken. -/
def in_hand (s : Pump) : Bytes :=
  match s.phase with
  | .send rest => rest
  | _ => []

/-- What the socket gets if these bytes come and all is drained. -/
def carried (s : Pump) (more : Bytes) : Bytes :=
  match s.phase with
  | .read_dst => after_line s.dst.length (s.stream.buffer ++ more)
  | _ => s.written ++ s.in_hand ++ s.stream.buffer ++ more

/-- After the FIN the pump has still to drain. -/
def Pending (side : Side) (s : Pump) : Prop := s.fin = true → s.phase.asks side = false

structure Whole (side : Side) (s : Pump) : Prop where
  fin : s.stream.closed = true → (∃ why, s.phase = .ended why) ∨ s.fin = true
  shut : s.fin = true → s.stream.closed = true
  /-- No byte is lost before the last drain, and none comes after the FIN. -/
  carried : (∀ why, s.phase ≠ .ended why) → s.Pending side → ∀ more, (s.fin = true → more = []) →
    side.for_socket (s.received ++ more) = s.carried more
  /-- After the last drain all is written. -/
  settled : s.fin = true → s.phase.asks side = true ∨ s.phase = .ended .closed →
    s.written = side.for_socket s.received
  reading : s.phase = .read_dst → s.written = []
  ended : s.phase = .ended .closed → s.fin = true
  /-- Only `serve_public` writes before its loop. -/
  before : ∀ rest next, s.phase = .write rest next ∨ s.phase = .frame rest next →
    side.asks_first = false ∨ ∃ hup, next = .flags hup

section
variable {side : Side} {s t : Pump}

theorem Whole.delivered (h : Whole side s) : Delivered side s := fun hp => h.settled (h.ended hp) (.inr hp)

theorem whole_start (side : Side) (id : UInt32) : Whole side (start side id) := by
  cases side with
  | bridge_stream =>
    refine ⟨nofun, nofun, fun _ _ more _ => rfl, nofun, fun _ => rfl, nofun, fun rest next h => ?_⟩
    rcases h with h | h <;> cases h
  | serve_public host port head =>
    exact ⟨nofun, nofun, fun _ _ more _ => rfl, nofun, nofun, nofun, fun _ _ _ => .inl rfl⟩

/-- A phase in which nothing is in hand. -/
def Phase.plain : Phase → Bool
  | read_dst => false
  | send _ => false
  | ended _ => false
  | _ => true

theorem carried_plain (hp : s.phase.plain = true) (more : Bytes) :
    s.carried more = s.written ++ s.stream.buffer ++ more := by
  unfold carried in_hand
  cases h : s.phase with
  | read_dst =>
    rw [h] at hp
    cases hp
  | send rest =>
    rw [h] at hp
    cases hp
  | _ => simp only [List.append_nil]

theorem not_ended (hp : s.phase.plain = true) (why : End) : s.phase ≠ .ended why := by
  intro h
  rw [h] at hp
  cases hp

/-- Where the pump asks, what is left is all that is not written. -/
theorem carried_of_left (hr : s.phase = .read_dst → s.written = []) (ha : s.phase.asks side = true)
    (hl : s.left = []) : s.carried [] = s.written := by
  unfold carried
  unfold left at hl
  cases h : s.phase with
  | read_dst =>
    rw [h] at hl
    rw [hr h, List.append_nil]
    exact hl
  | send rest =>
    rw [h] at ha
    cases ha
  | _ =>
    rw [h] at hl
    have hbuffer : s.stream.buffer = [] := hl
    simp only [in_hand, h, hbuffer, List.append_nil]

/-- What a step does not touch that leads from one phase to another and moves no byte
of the stream. -/
structure Quiet (s t : Pump) : Prop where
  stream : t.stream = s.stream
  fin : t.fin = s.fin
  received : t.received = s.received
  written : t.written = s.written

/-- No call of `write` runs. -/
def Phase.not_writing : Phase → Bool
  | write _ _ => false
  | frame _ _ => false
  | _ => true

theorem before_of_not_writing (h : t.phase.not_writing = true) (rest : Bytes) (next : Next)
    (hp : t.phase = .write rest next ∨ t.phase = .frame rest next) :
    side.asks_first = false ∨ ∃ hup, next = .flags hup := by
  rcases hp with hp | hp <;>
  · rw [hp] at h
    cases h

theorem Whole.fin_of_closed (h : Whole side s) (hs : ∀ why, s.phase ≠ .ended why) (hc : s.stream.closed = true) :
    s.fin = true :=
  (h.fin hc).resolve_left fun ⟨why, hw⟩ => hs why hw

theorem Whole.carried_plain (h : Whole side s) (hs : s.phase.plain = true) (hp : s.Pending side) (more : Bytes)
    (hm : s.fin = true → more = []) :
    side.for_socket (s.received ++ more) = s.written ++ s.stream.buffer ++ more :=
  (h.carried (not_ended hs) hp more hm).trans (Pump.carried_plain hs more)

/-- With an empty buffer all is written, wherever the pump stands in the loop. -/
theorem Whole.written_of_empty (h : Whole side s) (hs : s.phase.plain = true) (hfin : s.fin = true)
    (hb : s.stream.buffer = []) : s.written = side.for_socket s.received := by
  cases ha : s.phase.asks side with
  | true => exact h.settled hfin (.inl ha)
  | false =>
    -- nothing is under way, so all that was carried is written
    have hc := h.carried_plain hs (fun _ => ha) [] fun _ => rfl
    rw [hb, List.append_nil, List.append_nil, List.append_nil] at hc
    exact hc.symm

/-- In a plain phase only these facts count. -/
theorem Whole.of_plain (hp : t.phase.plain = true) (hf : t.stream.closed = true → t.fin = true)
    (hsh : t.fin = true → t.stream.closed = true)
    (hc : t.Pending side → ∀ more, (t.fin = true → more = []) →
      side.for_socket (t.received ++ more) = t.written ++ t.stream.buffer ++ more)
    (hs : t.fin = true → t.phase.asks side = true → t.written = side.for_socket t.received)
    (hb : ∀ rest next, t.phase = .write rest next ∨ t.phase = .frame rest next →
      side.asks_first = false ∨ ∃ hup, next = .flags hup) : Whole side t where
  fin hc := .inr (hf hc)
  shut := hsh
  carried _ hpend more hm := (hc hpend more hm).trans (Pump.carried_plain hp more).symm
  settled hfin ha := hs hfin (ha.resolve_right (not_ended hp _))
  reading h := by
    rw [h] at hp
    cases hp
  ended h := absurd h (not_ended hp _)
  before := hb

/-- Between plain phases it matters whether the pump asks before and after. -/
theorem Whole.quiet (h : Whole side s) (hq : Quiet s t) (hs : s.phase.plain = true) (ht : t.phase.plain = true)
    (hd : s.fin = true → t.phase.asks side = true → s.phase.asks side = true ∨ s.stream.buffer = [])
    (hl : s.fin = true → s.phase.asks side = true → t.phase.asks side = true)
    (hb : ∀ rest next, t.phase = .write rest next ∨ t.phase = .frame rest next →
      side.asks_first = false ∨ ∃ hup, next = .flags hup) : Whole side t := by
  refine .of_plain ht (fun hc => ?_) (fun hfin => ?_) (fun hpend more hm => ?_) (fun hfin ha => ?_) hb
  · rw [hq.stream] at hc
    rw [hq.fin]
    exact h.fin_of_closed (not_ended hs) hc
  · rw [hq.fin] at hfin
    rw [hq.stream]
    exact h.shut hfin
  · have hpend' : s.Pending side := by
      intro hfin
      cases ha : s.phase.asks side with
      | false => rfl
      | true => exact absurd ((hpend (hq.fin.trans hfin)).symm.trans (hl hfin ha)) Bool.false_ne_true
    rw [hq.fin] at hm
    rw [hq.received, hq.written, hq.stream]
    exact h.carried_plain hs hpend' more hm
  · rw [hq.fin] at hfin
    rw [hq.written, hq.received]
    rcases hd hfin ha with ha | he
    · exact h.settled hfin (.inl ha)
    · exact h.written_of_empty hs hfin he

/-- From a phase in which the pump does not ask to another such. -/
theorem Whole.pass (h : Whole side s) (hq : Quiet s t) (hs : s.phase.plain = true) (ht : t.phase.plain = true)
    (hsa : s.phase.asks side = false) (hta : t.phase.asks side = false)
    (hb : ∀ rest next, t.phase = .write rest next ∨ t.phase = .frame rest next →
      side.asks_first = false ∨ ∃ hup, next = .flags hup) : Whole side t :=
  h.quiet hq hs ht (fun _ ha => absurd (hta.symm.trans ha) Bool.false_ne_true)
    (fun _ ha => absurd (hsa.symm.trans ha) Bool.false_ne_true) hb

/-- The pump gives up. -/
theorem Whole.finish {why : End} (hw : why ≠ .closed) : Whole side (s.finish why) where
  fin _ := .inl ⟨why, rfl⟩
  shut _ := rfl
  carried hg := absurd rfl (hg why)
  settled _ ha := by
    rcases ha with ha | ha
    · cases ha
    · exact absurd (Phase.ended.inj ha) hw
  reading := nofun
  ended h := absurd (Phase.ended.inj h) hw
  before := before_of_not_writing rfl

/-- The pump sees that the stream is closed. -/
theorem Whole.finish_closed (hfin : s.fin = true) (hw : s.written = side.for_socket s.received) :
    Whole side (s.finish .closed) where
  fin _ := .inl ⟨.closed, rfl⟩
  shut _ := rfl
  carried hg := absurd rfl (hg .closed)
  settled _ _ := hw
  reading := nofun
  ended _ := hfin
  before := before_of_not_writing rfl

/-! ## One step -/

theorem after_line_cons {n : Nat} {b : UInt8} (hb : b ≠ 10) (rest : Bytes) :
    after_line n (b :: rest) = if n + 1 > dst_limit then rest else after_line (n + 1) rest := by
  rw [after_line, if_neg hb]

theorem Whole.data (h : Whole side s) (hok : s.fin = true → s.phase.drained_out side = true) (d : Bytes) :
    Whole side
      { s with stream := s.stream.push_data d, received := if s.fin then s.received else s.received ++ d } := by
  by_cases hf : s.fin = true
  · -- the bytes come too late to be drained
    refine ⟨h.fin, h.shut, fun hg hpend => ?_, fun hfin ha => ?_, h.reading, h.ended, h.before⟩
    · have ha : s.phase.asks side = false := hpend hf
      have hdone := hok hf
      unfold Phase.drained_out at hdone
      split at hdone
      · rename_i why hw
        exact absurd hw (hg why)
      · exact absurd (ha.symm.trans hdone) Bool.false_ne_true
    · simp only [hf, if_true]
      exact h.settled hf ha
  · refine ⟨h.fin, h.shut, fun hg hpend more hm => ?_, fun hfin => absurd hfin hf, h.reading, h.ended, h.before⟩
    have hc := h.carried hg hpend (d ++ more) fun hfin => absurd hfin hf
    simp only [hf, Bool.false_eq_true, if_false, List.append_assoc]
    rw [hc]
    unfold Pump.carried in_hand
    cases s.phase <;> simp [MuxStream.push_data]

theorem Whole.fin_frame (h : Whole side s) (hok : s.fin = false → s.phase.asks side = true → s.left = []) :
    Whole side { s with stream := Pump.shut s.stream, fin := true } where
  fin _ := .inr rfl
  shut _ := rfl
  carried hg hpend more hm := by
    obtain rfl := hm rfl
    exact h.carried hg (fun _ => hpend rfl) [] fun _ => rfl
  settled _ ha := by
    cases hf : s.fin with
    | true => exact h.settled hf ha
    | false =>
      have hopen : s.phase ≠ .ended .closed := fun he => absurd (hf.symm.trans (h.ended he)) Bool.false_ne_true
      have hasks : s.phase.asks side = true := ha.resolve_right hopen
      have hc := h.carried (fun why hw => ?_) (fun hfin => absurd (hf.symm.trans hfin) Bool.false_ne_true) [] fun _ => rfl
      · rw [List.append_nil, carried_of_left h.reading hasks (hok hf hasks)] at hc
        exact hc.symm
      · rw [hw] at hasks
        cases hasks
  reading := h.reading
  ended _ := rfl
  before := h.before

/-- A byte of the destination line moves it from the buffer into the line. -/
theorem Whole.dst_byte (h : Whole side s) {b : UInt8} {rest : Bytes} (hp : s.phase = .read_dst)
    (hb : s.stream.buffer = b :: rest) : Whole side (s.take_dst b { s.stream with buffer := rest }) := by
  have hne (why : End) : s.phase ≠ .ended why := fun hw => nomatch hp.symm.trans hw
  have hfin : s.stream.closed = true → s.fin = true := h.fin_of_closed hne
  have hasks : s.phase.asks side = side.asks_first := by rw [hp]; rfl
  have hset : s.fin = true → side.asks_first = true → s.written = side.for_socket s.received := fun hf ha =>
    h.settled hf (.inl (hasks.trans ha))
  have hcar : (s.fin = true → side.asks_first = false) → ∀ more, (s.fin = true → more = []) →
      side.for_socket (s.received ++ more) = after_line s.dst.length (b :: (rest ++ more)) := fun hpend more hm => by
    rw [h.carried hne (fun hf => hasks.trans (hpend hf)) more hm, Pump.carried, hp, hb]
    rfl
  by_cases hnl : b = 10
  · rw [take_dst, if_pos hnl]
    subst hnl
    refine .of_plain rfl hfin h.shut (fun hpend more hm => ?_) hset (before_of_not_writing rfl)
    rw [hcar hpend more hm, h.reading hp]
    rfl
  · simp only [after_line_cons hnl] at hcar
    have hlen : (s.dst ++ [b]).length = s.dst.length + 1 := List.length_append
    rw [take_dst, if_neg hnl]
    by_cases hl : s.dst.length + 1 > dst_limit
    · simp only [hlen, if_pos hl] at hcar ⊢
      refine .of_plain rfl hfin h.shut (fun hpend more hm => ?_) hset (before_of_not_writing rfl)
      rw [hcar hpend more hm, h.reading hp]
      rfl
    · simp only [hlen, if_neg hl] at hcar ⊢
      refine ⟨fun hc => .inr (hfin hc), h.shut, fun _ hpend more hm => ?_, fun hf ha => ?_, fun _ => h.reading hp, nofun,
        before_of_not_writing rfl⟩
      · rw [hcar hpend more hm]
        simp only [Pump.carried, hlen]
      · exact hset hf (ha.resolve_right nofun)

/-- The stream ended in the middle of the destination line. -/
theorem Whole.dst_end (h : Whole side s) (hp : s.phase = .read_dst) (hb : s.stream.buffer = [])
    (hc : s.stream.closed = true) : Whole side (s.go .connect) := by
  have hne (why : End) : s.phase ≠ .ended why := fun hw => nomatch hp.symm.trans hw
  have hfin : s.fin = true := h.fin_of_closed hne hc
  have hasks : s.phase.asks side = side.asks_first := by rw [hp]; rfl
  refine .of_plain rfl (fun _ => hfin) h.shut (fun hpend more hm => ?_) (fun hf ha => ?_) (before_of_not_writing rfl)
  · obtain rfl := hm hfin
    rw [show (s.go .connect).received = s.received from rfl,
      h.carried hne (fun _ => hasks.trans (hpend hfin)) [] fun _ => rfl]
    simp [Pump.carried, go, hp, hb, h.reading hp, after_line]
  · exact h.settled hf (.inl (hasks.trans ha))

theorem Whole.drain (h : Whole side s) (hp : s.phase = .drain) (n : Nat) :
    Whole side
      { s with
        stream := { s.stream with buffer := s.stream.buffer.drop n }
        phase := .send (s.stream.buffer.take n) } := by
  have hs : s.phase.plain = true := by rw [hp]; rfl
  have hpend : s.Pending side := fun _ => by rw [hp]; rfl
  refine ⟨fun hc => .inr (h.fin_of_closed (not_ended hs) hc), h.shut, fun _ _ more hm => ?_, fun _ ha => ?_, nofun, nofun,
    before_of_not_writing rfl⟩
  · rw [h.carried_plain hs hpend more hm]
    simp [Pump.carried, in_hand]
  · rcases ha with ha | ha <;> cases ha

theorem Whole.took (h : Whole side s) {rest : Bytes} (hp : s.phase = .send rest) (n : Nat) :
    Whole side (s.sending rest n) := by
  have hne (why : End) : s.phase ≠ .ended why := fun hw => nomatch hp.symm.trans hw
  have hfin : s.stream.closed = true → s.fin = true := h.fin_of_closed hne
  have hpend : s.Pending side := fun _ => by rw [hp]; rfl
  have hcar : ∀ more, (s.fin = true → more = []) →
      side.for_socket (s.received ++ more) = s.written ++ rest ++ s.stream.buffer ++ more := fun more hm => by
    rw [h.carried hne hpend more hm]
    simp only [Pump.carried, in_hand, hp]
  by_cases hd : rest.drop n = []
  · rw [sending, if_pos hd]
    refine .of_plain rfl hfin h.shut (fun _ more hm => ?_) (fun _ => nofun) (before_of_not_writing rfl)
    rw [hcar more hm, List.take_of_length_le (List.drop_eq_nil_iff.1 hd)]
  · rw [sending, if_neg hd]
    refine ⟨fun hc => .inr (hfin hc), h.shut, fun _ _ more hm => ?_, fun _ ha => ?_, nofun, nofun,
      before_of_not_writing rfl⟩
    · rw [hcar more hm]
      simp [Pump.carried, in_hand]
    · rcases ha with ha | ha <;> cases ha

/-- A call of `write` is over and the pump goes on. -/
theorem Whole.wrote (h : Whole side s) {rest : Bytes} {next : Next}
    (hp : s.phase = .write rest next ∨ s.phase = .frame rest next) : Whole side (s.wrote side next) := by
  have hs : s.phase.plain = true := by rcases hp with hp | hp <;> rw [hp] <;> rfl
  have hsa : s.phase.asks side = false := by rcases hp with hp | hp <;> rw [hp] <;> rfl
  have hside := h.before rest next hp
  cases next with
  | head =>
    refine h.pass ⟨rfl, rfl, rfl, rfl⟩ hs rfl hsa rfl fun _ _ _ => .inl ?_
    exact hside.resolve_right fun ⟨_, hn⟩ => nomatch hn
  | loop =>
    have hta : side.asks_first = false := hside.resolve_right fun ⟨_, hn⟩ => nomatch hn
    exact h.pass ⟨rfl, rfl, rfl, rfl⟩ hs rfl hsa hta (before_of_not_writing rfl)
  | flags hup => exact h.pass ⟨rfl, rfl, rfl, rfl⟩ hs rfl hsa rfl (before_of_not_writing rfl)

theorem Whole.refuse (h : Whole side s) : Whole side s.refuse :=
  ⟨h.fin, h.shut, h.carried, h.settled, h.reading, h.ended, h.before⟩

theorem whole_step {e : Event} (hm : Moves side s e t) (hok : drains_in_time side s e = true) (h : Whole side s) :
    Whole side t := by
  have pass : ∀ {phase : Phase}, s.phase.plain = true → phase.plain = true → s.phase.asks side = false →
      phase.asks side = false → phase.not_writing = true → Whole side (s.go phase) :=
    fun hs ht hsa hta hw => h.pass ⟨rfl, rfl, rfl, rfl⟩ hs ht hsa hta (before_of_not_writing hw)
  -- an open stream has had no FIN
  have opened : s.stream.closed = false → s.fin = true → False := fun hc hf =>
    absurd (hc.symm.trans (h.shut hf)) Bool.false_ne_true
  cases hm with
  | data d =>
    refine h.data (fun hf => ?_) d
    simpa [drains_in_time, hf] using hok
  | fin =>
    refine h.fin_frame fun hf ha => ?_
    simpa [drains_in_time, hf, ha] using hok
  | stop => exact ⟨h.fin, h.shut, h.carried, h.settled, h.reading, h.ended, h.before⟩
  | arrive d hc ho => exact ⟨h.fin, h.shut, h.carried, h.settled, h.reading, h.ended, h.before⟩
  | hang_up hc => exact ⟨h.fin, h.shut, h.carried, h.settled, h.reading, h.ended, h.before⟩
  | dst_byte hp hb => exact h.dst_byte hp hb
  | dst_end hp hb hc => exact h.dst_end hp hb hc
  | connected hp =>
    have hasks : s.phase.asks side = side.asks_first := by rw [hp]; rfl
    exact h.quiet ⟨rfl, rfl, rfl, rfl⟩ (by rw [hp]; rfl) rfl (fun _ ha => .inl (hasks.trans ha))
      (fun _ ha => hasks.symm.trans ha) (before_of_not_writing rfl)
  | unconnected hp => exact .finish nofun
  | top_stop hp hg => exact .finish nofun
  | top_closed hp ha hc =>
    have hfin : s.fin = true := h.fin_of_closed (fun why hw => nomatch hp.symm.trans hw) hc
    exact .finish_closed hfin (h.settled hfin (.inl (by rw [hp]; exact ha)))
  | top hp ho =>
    refine h.quiet ⟨rfl, rfl, rfl, rfl⟩ (by rw [hp]; rfl) rfl (fun _ => nofun) (fun hf ha => ?_) (before_of_not_writing rfl)
    rw [hp] at ha
    rcases ho with ho | ho
    · exact absurd (ho.symm.trans ha) Bool.false_ne_true
    · exact (opened ho hf).elim
  | readable hp hm => exact pass (by rw [hp]; rfl) rfl (by rw [hp]; rfl) rfl rfl
  | unreadable hp hm => exact pass (by rw [hp]; rfl) rfl (by rw [hp]; rfl) rfl rfl
  | recv_end hp hu => exact .finish nofun
  | recvd hp hn =>
    refine h.pass ⟨rfl, rfl, rfl, rfl⟩ (by rw [hp]; rfl) rfl (by rw [hp]; rfl) rfl fun _ _ hw => ?_
    rcases hw with hw | hw <;> cases hw
    exact .inr ⟨_, rfl⟩
  | wrote hp => exact h.wrote (.inl hp)
  | @write_closed rest next hp hr hc =>
    cases next with
    | flags hup =>
      have hs : s.phase.plain = true := by rw [hp]; rfl
      have hb : s.stream.buffer = [] := by simpa [drains_in_time, hp, hr, hc] using hok
      have hfin : s.fin = true := h.fin_of_closed (not_ended hs) hc
      have hw : s.written = side.for_socket s.received := h.written_of_empty hs hfin hb
      exact .finish_closed (s := s.refuse) hfin hw
    | head => exact h.refuse.wrote (.inl hp)
    | loop => exact h.refuse.wrote (.inl hp)
  | write hp =>
    refine h.pass ⟨rfl, rfl, rfl, rfl⟩ (by rw [hp]; rfl) rfl (by rw [hp]; rfl) rfl fun _ _ hw => ?_
    rcases hw with hw | hw <;> cases hw
    exact h.before _ _ (.inl hp)
  | framed hp =>
    refine h.pass ⟨rfl, rfl, rfl, rfl⟩ (by rw [hp]; rfl) rfl (by rw [hp]; rfl) rfl fun _ _ hw => ?_
    rcases hw with hw | hw <;> cases hw
    exact h.before _ _ (.inr hp)
  | @unframed rest next hp =>
    cases next with
    | flags hup => exact .finish nofun
    | head => exact h.refuse.wrote (.inr hp)
    | loop => exact h.refuse.wrote (.inr hp)
  | flags_hup hp => exact .finish nofun
  | flags hp => exact pass (by rw [hp]; rfl) rfl (by rw [hp]; rfl) rfl rfl
  | drain hp => exact h.drain hp block_size
  | drained hp hb =>
    -- the last drain before the pump asks, with the buffer empty
    have hplain : (if side.asks_first then Phase.top else .bottom).plain = true := by split <;> rfl
    have hwriting : (if side.asks_first then Phase.top else .bottom).not_writing = true := by split <;> rfl
    refine h.quiet ⟨rfl, rfl, rfl, rfl⟩ (by rw [hp]; rfl) hplain (fun _ _ => .inr hb) (fun _ ha => ?_)
      (before_of_not_writing hwriting)
    rw [hp] at ha
    cases ha
  | took hp => exact h.took hp _
  | untaken hp => exact .finish nofun
  | bottom_closed hp hc =>
    have hfin : s.fin = true := h.fin_of_closed (fun why hw => nomatch hp.symm.trans hw) hc
    exact .finish_closed hfin (h.settled hfin (.inl (by rw [hp]; rfl)))
  | bottom hp hc =>
    exact h.quiet ⟨rfl, rfl, rfl, rfl⟩ (by rw [hp]; rfl) rfl (fun _ _ => .inl (by rw [hp]; rfl))
      (fun hf => (opened hc hf).elim) (before_of_not_writing rfl)

theorem whole_reached (h : Reaches (guarded (fun s e => drains_in_time side s e = true) (step side)) (initial side) s) :
    Whole side s := by
  refine Reaches.inv (I := Whole side) ?_ ?_ h
  · rintro s ⟨id, rfl⟩
    exact whole_start side id
  · rintro s e t hi ⟨hok, ht⟩
    exact whole_step (moves_of_step ht) hok hi

end

/-- In a run in which the FIN and the blocks for the stream come in time, all the peer
sent before its FIN is written to the socket. -/
theorem delivered_before_fin {side : Side} {s : Pump}
    (h : Reaches (guarded (fun s e => drains_in_time side s e = true) (step side)) (initial side) s) :
    Delivered side s :=
  (whole_reached h).delivered

/-- The line `x` and two bytes; the FIN comes while the client polls. -/
def toyInTime : List Event :=
  [.data [120, 10, 97, 98], .moves, .moves, .connected true, .moves, .fin, .polled false false, .moves, .moves,
    .took 2, .moves, .moves]

theorem delivered_while_polling :
    ∃ s, toyInTime.foldlM (checked (drains_in_time .bridge_stream) (next .bridge_stream)) (start .bridge_stream 2) = some s ∧
      Delivered .bridge_stream s := by
  have hrun : (toyInTime.foldlM (checked (drains_in_time .bridge_stream) (next .bridge_stream))
      (start .bridge_stream 2)).isSome = true := by decide +kernel
  obtain ⟨s, hs⟩ := Option.isSome_iff_exists.1 hrun
  exact ⟨s, hs, delivered_before_fin (Reaches.foldlM (guarded_of_checked fun _ _ _ => id) (.init ⟨2, rfl⟩) hs)⟩

/-- And the run ends with the two bytes written. -/
example : (toyInTime.foldlM (next .bridge_stream) (start .bridge_stream 2)).map (fun s => (s.phase, s.written)) =
    some (.ended .closed, [97, 98]) := by decide +kernel

/-- The same bytes, and the FIN before the client has connected. -/
def toyEarlyFin : List Event := [.data [120, 10, 97, 98], .fin, .moves, .moves, .connected true, .moves]

/-- The relay, with no head; two bytes and the FIN come between the drain and the look
at `closed()`. -/
def toyLateData : List Event :=
  [.moves, .framed true, .moves, .moves, .moves, .polled false false, .moves, .moves, .data [97, 98], .fin, .moves]

/-- A run that ends with the stream closed and bytes that were not written. -/
def truncates (side : Side) (es : List Event) : Bool :=
  match es.foldlM (next side) (start side 2) with
  | some s => s.phase = .ended .closed ∧ s.written ≠ side.for_socket s.received
  | none => false

theorem not_delivered {side : Side} {es : List Event} (h : truncates side es = true) :
    ∃ s, Reaches (step side) (initial side) s ∧ ¬ Delivered side s := by
  unfold truncates at h
  split at h
  · rename_i s hs
    obtain ⟨hp, hne⟩ := of_decide_eq_true h
    exact ⟨s, Reaches.foldlM (fun _ _ _ => id) (.init ⟨2, rfl⟩) hs, fun hd => hne (hd hp)⟩
  · cases h

/-- Both pumps can lose what came before the FIN. -/
theorem early_fin_truncates :
    (∃ s, Reaches (step .bridge_stream) (initial .bridge_stream) s ∧ ¬ Delivered .bridge_stream s) ∧
      ∃ s, Reaches (step (.serve_public [104] 80 [])) (initial (.serve_public [104] 80 [])) s ∧
        ¬ Delivered (.serve_public [104] 80 []) s := by
  have hbridge : truncates .bridge_stream toyEarlyFin = true := by decide +kernel
  have hserve : truncates (.serve_public [104] 80 []) toyLateData = true := by decide +kernel
  exact ⟨not_delivered hbridge, not_delivered hserve⟩

end Hostely.Tunnel.Pump
