import Hostely.Tunnel.Pump
/-!
# From the socket to the stream

A round of the loop reads at most one block and then looks at the flags of `poll`.
`POLLHUP` ends the loop, also when more than a block was left to read.
-/

open Hostely.Lib

namespace Hostely.Tunnel.Pump

/-- Unless a `write` has failed, a pump that has ended has sent all that was written
to its socket, after the destination line and the head of `serve_public`. -/
def Forwarded (side : Side) (s : Pump) : Prop :=
  (∃ why, s.phase = .ended why) → s.refused = false → s.sent = side.dst ++ side.head ++ s.offered

/-- The other side of the socket has closed and all it wrote is read. -/
def all_read (s : Pump) : Bool := s.hung_up && s.unread = []

/-- After a reported hang-up one `recv` takes all that is left. The pump is not stopped
before all is read: not by a signal, by the end of the stream or by a socket that
takes no more. No FIN comes between the look of `write` at `closed_` and its frame. -/
def takes_all (side : Side) (s : Pump) (e : Event) : Bool :=
  match e, s.phase with
  | .recvd n, .recv hup => !hup || n = s.unread.length
  | .framed ok, _ => !ok || !s.stream.closed
  | .took n, _ => n ≠ 0 || s.all_read
  | .moves, .top => !(s.g_stop || side.asks_first && s.stream.closed) || s.all_read
  | .moves, .bottom => !s.stream.closed || s.all_read
  | _, _ => true

/-! ## The bytes on their way -/

/-- What is still to be written after a call of `write`. -/
def Next.later (side : Side) : Next → Bytes
  | .head => side.head
  | _ => []

/-- What was read, or is the start of `serve_public`, and has not gone out. -/
def unsent (side : Side) (s : Pump) : Bytes :=
  match s.phase with
  | .write rest next => rest ++ next.later side
  | .frame rest next => rest ++ next.later side
  | _ => []

/-- A hang-up was reported and the round's `recv` is done. -/
def Phase.hup : Phase → Bool
  | flags hup => hup
  | write _ (.flags hup) => hup
  | frame _ (.flags hup) => hup
  | _ => false

structure Passed (side : Side) (s : Pump) : Prop where
  /-- No byte is lost unless a `write` fails. -/
  whole : s.refused = false → side.dst ++ side.head ++ s.offered = s.sent ++ s.unsent side ++ s.unread
  unconnected : s.phase.connected = false → s.offered = [] ∧ s.unread = []
  /-- A `recv` does not wait. -/
  readable : ∀ hup, s.phase = .recv hup → (s.unread ≠ [] ∨ s.hung_up = true) ∧ (hup = true → s.hung_up = true)
  hup : s.phase.hup = true → s.all_read = true
  ended : ∀ why, s.phase = .ended why → s.refused = false → why = .no_upstream ∨ s.all_read = true

section
variable {side : Side} {s t : Pump}

theorem all_read_iff : s.all_read = true ↔ s.hung_up = true ∧ s.unread = [] := by simp [all_read]

theorem Passed.forwarded (h : Passed side s) : Forwarded side s := by
  rintro ⟨why, hw⟩ hr
  have hwhole := h.whole hr
  have hunread : s.unread = [] := by
    rcases h.ended why hw hr with rfl | ha
    · exact (h.unconnected (by rw [hw]; rfl)).2
    · exact (all_read_iff.1 ha).2
  simp only [unsent, hw, hunread, List.append_nil] at hwhole
  exact hwhole.symm

theorem passed_start (side : Side) (id : UInt32) : Passed side (start side id) := by
  cases side with
  | bridge_stream => exact ⟨fun _ => rfl, fun _ => ⟨rfl, rfl⟩, nofun, nofun, nofun⟩
  | serve_public host port head =>
    refine ⟨fun _ => ?_, nofun, nofun, nofun, nofun⟩
    simp [start, unsent, Next.later]

/-- What a step does not touch that moves no byte of the socket. -/
structure Still (s t : Pump) : Prop where
  offered : t.offered = s.offered
  unread : t.unread = s.unread
  hung_up : t.hung_up = s.hung_up
  sent : t.sent = s.sent
  refused : t.refused = s.refused

theorem Still.all_read (h : Still s t) : t.all_read = s.all_read := by
  rw [Pump.all_read, Pump.all_read, h.hung_up, h.unread]

/-- A step that moves no byte and does not end the pump. -/
theorem Passed.still (h : Passed side s) (hs : Still s t) (hu : t.unsent side = s.unsent side)
    (hc : t.phase.connected = false → s.phase.connected = false)
    (hr : ∀ hup, t.phase = .recv hup → (s.unread ≠ [] ∨ s.hung_up = true) ∧ (hup = true → s.hung_up = true))
    (hh : t.phase.hup = true → s.all_read = true)
    (he : ∀ why, t.phase = .ended why → s.refused = false → why = .no_upstream ∨ s.all_read = true) : Passed side t where
  whole hf := by
    rw [hs.refused] at hf
    rw [hs.offered, hs.sent, hs.unread, hu]
    exact h.whole hf
  unconnected ht := by
    rw [hs.offered, hs.unread]
    exact h.unconnected (hc ht)
  readable hup hp := by
    rw [hs.unread, hs.hung_up]
    exact hr hup hp
  hup hp := by
    rw [hs.all_read]
    exact hh hp
  ended why hp hf := by
    rw [hs.all_read]
    exact he why hp (hs.refused ▸ hf)

/-- From one phase of the loop without bytes in hand to another. -/
theorem Passed.go (h : Passed side s) {phase : Phase} (hu : s.unsent side = []) (hu' : (s.go phase).unsent side = [])
    (hc : phase.connected = false → s.phase.connected = false) (hr : ∀ hup, phase ≠ .recv hup)
    (hh : phase.hup = true → s.all_read = true) (he : ∀ why, phase ≠ .ended why) : Passed side (s.go phase) :=
  h.still ⟨rfl, rfl, rfl, rfl, rfl⟩ (hu'.trans hu.symm) hc (fun hup hp => absurd hp (hr hup)) hh
    fun why hp => absurd hp (he why)

/-- The pump ends with nothing in hand. -/
theorem Passed.finish (h : Passed side s) {why : End} (hu : s.unsent side = [])
    (hc : why = .no_upstream → s.phase.connected = false) (he : why = .no_upstream ∨ s.all_read = true) :
    Passed side (s.finish why) := by
  refine h.still ⟨rfl, rfl, rfl, rfl, rfl⟩ hu.symm (fun hp => hc ?_) nofun nofun fun why' hw _ => ?_
  · cases why <;> first | rfl | cases hp
  · exact Phase.ended.inj hw ▸ he

/-- Once a `write` has failed, only that the socket was there counts. -/
theorem Passed.of_refused (hr : t.refused = true) (hc : t.phase.connected = true)
    (hp : t.phase.hup = false) (hn : ∀ hup, t.phase ≠ .recv hup) : Passed side t where
  whole hf := absurd (hf.symm.trans hr) Bool.false_ne_true
  unconnected hf := absurd (hf.symm.trans hc) Bool.false_ne_true
  readable hup hw := absurd hw (hn hup)
  hup hf := absurd (hp.symm.trans hf) Bool.false_ne_true
  ended _ _ hf := absurd (hf.symm.trans hr) Bool.false_ne_true

theorem Passed.write_failed {why : End} (hw : why ≠ .no_upstream) (next : Next) :
    Passed side (s.write_failed side why next) := by
  cases next with
  | head => exact .of_refused rfl rfl rfl nofun
  | loop => exact .of_refused rfl rfl rfl nofun
  | flags hup =>
    refine .of_refused rfl ?_ rfl nofun
    cases why <;> first | rfl | exact absurd rfl hw

theorem Passed.arrive (h : Passed side s) (hc : s.phase.connected = true) (ho : s.hung_up = false) (d : Bytes) :
    Passed side { s with unread := s.unread ++ d, offered := s.offered ++ d } := by
  -- an open socket has not been read to its end
  have hall : s.all_read = true → False := fun ha => absurd (ho.symm.trans (all_read_iff.1 ha).1) Bool.false_ne_true
  refine ⟨fun hr => ?_, fun hf => absurd (hf.symm.trans hc) Bool.false_ne_true, fun hup hp => ?_, fun hp => ?_,
    fun why hp hr => ?_⟩
  · have hwhole : side.dst ++ side.head ++ (s.offered ++ d) = s.sent ++ s.unsent side ++ (s.unread ++ d) := by
      rw [← List.append_assoc, h.whole hr, List.append_assoc _ _ d]
    exact hwhole
  · obtain ⟨hread, hhup⟩ := h.readable hup hp
    refine ⟨.inl ?_, hhup⟩
    have hne := hread.resolve_right fun hh => absurd (ho.symm.trans hh) Bool.false_ne_true
    exact fun hnil => hne (List.append_eq_nil_iff.1 hnil).1
  · exact (hall (h.hup hp)).elim
  · rcases h.ended why hp hr with rfl | ha
    · have hp : s.phase = .ended .no_upstream := hp
      rw [hp] at hc
      cases hc
    · exact (hall ha).elim

theorem Passed.hang_up (h : Passed side s) : Passed side { s with hung_up := true } := by
  have hall : s.all_read = true → Pump.all_read { s with hung_up := true } = true := fun ha =>
    all_read_iff.2 ⟨rfl, (all_read_iff.1 ha).2⟩
  refine ⟨h.whole, h.unconnected, fun hup hp => ⟨.inr rfl, fun _ => rfl⟩, fun hp => hall (h.hup hp), fun why hp hr => ?_⟩
  exact (h.ended why hp hr).imp_right hall

theorem Passed.block (h : Passed side s) {hup : Bool} (hp : s.phase = .recv hup) {n : Nat}
    (hok : hup = true → n = s.unread.length) : Passed side (s.block n hup) := by
  refine ⟨fun hr => ?_, nofun, nofun, fun hh => ?_, nofun⟩
  · have hwhole := h.whole hr
    simpa [Pump.block, unsent, hp, Next.later] using hwhole
  · refine all_read_iff.2 ⟨(h.readable hup hp).2 hh, ?_⟩
    exact List.drop_eq_nil_iff.2 (hok hh).ge

theorem Passed.framed (h : Passed side s) {rest : Bytes} {next : Next} (hp : s.phase = .frame rest next)
    (hc : s.stream.closed = false) : Passed side (s.framed rest next) := by
  refine ⟨fun hr => ?_, nofun, nofun, fun hh => ?_, nofun⟩
  · have hwhole := h.whole hr
    simp only [unsent, hp] at hwhole
    simp only [Pump.framed, unsent, hc, Bool.false_eq_true, if_false]
    have hrest : rest ++ next.later side = rest.take kDataFrameCap ++ (rest.drop kDataFrameCap ++ next.later side) := by
      rw [← List.append_assoc, List.take_append_drop]
    rw [hwhole, hrest, ← List.append_assoc]
  · refine h.hup ?_
    rw [hp]
    cases next with
    | flags hup => exact hh
    | head => cases hh
    | loop => cases hh

theorem Passed.wrote (h : Passed side s) {next : Next} (hp : s.phase = .write [] next) : Passed side (s.wrote side next) := by
  have hplain : s.unsent side = next.later side := by rw [unsent, hp]; rfl
  cases next with
  | head =>
    refine h.still ⟨rfl, rfl, rfl, rfl, rfl⟩ ?_ nofun nofun nofun nofun
    exact (List.append_nil _).trans hplain.symm
  | loop => exact h.go hplain rfl nofun nofun nofun nofun
  | flags hup => exact h.go hplain rfl nofun nofun (fun hh => h.hup (by rw [hp]; exact hh)) nofun

theorem take_dst_still (s : Pump) (b : UInt8) (stream : MuxStream) :
    ((s.take_dst b stream).phase = .connect ∨ (s.take_dst b stream).phase = .read_dst) ∧
      Still s (s.take_dst b stream) := by
  unfold take_dst
  split
  · exact ⟨.inl rfl, rfl, rfl, rfl, rfl, rfl⟩
  · refine ⟨?_, rfl, rfl, rfl, rfl, rfl⟩
    by_cases hl : (s.dst ++ [b]).length > dst_limit
    · exact .inl (if_pos hl)
    · exact .inr (if_neg hl)

theorem sending_phase (s : Pump) (rest : Bytes) (n : Nat) :
    (s.sending rest n).phase = .drain ∨ ∃ r, (s.sending rest n).phase = .send r := by
  by_cases hd : rest.drop n = []
  · exact .inl (if_pos hd)
  · exact .inr ⟨_, if_neg hd⟩

theorem passed_step {e : Event} (hm : Moves side s e t) (hok : takes_all side s e = true) (h : Passed side s) :
    Passed side t := by
  cases hm with
  | data d => exact ⟨h.whole, h.unconnected, h.readable, h.hup, h.ended⟩
  | fin => exact ⟨h.whole, h.unconnected, h.readable, h.hup, h.ended⟩
  | stop => exact ⟨h.whole, h.unconnected, h.readable, h.hup, h.ended⟩
  | arrive d hc ho => exact h.arrive hc ho d
  | hang_up hc => exact h.hang_up
  | dst_byte hp hb =>
    obtain ⟨hphase, hs⟩ := take_dst_still s _ _
    have hu : s.unsent side = [] := by rw [unsent, hp]
    have hc : s.phase.connected = false := by rw [hp]; rfl
    rcases hphase with ht | ht
    · exact h.still hs (by rw [hu, unsent, ht]) (fun _ => hc) (by rw [ht]; nofun) (by rw [ht]; nofun) (by rw [ht]; nofun)
    · exact h.still hs (by rw [hu, unsent, ht]) (fun _ => hc) (by rw [ht]; nofun) (by rw [ht]; nofun) (by rw [ht]; nofun)
  | dst_end hp hb hc => exact h.go (by rw [unsent, hp]) rfl (fun _ => by rw [hp]; rfl) nofun nofun nofun
  | connected hp => exact h.go (by rw [unsent, hp]) rfl nofun nofun nofun nofun
  | unconnected hp => exact h.finish (by rw [unsent, hp]) (fun _ => by rw [hp]; rfl) (.inl rfl)
  | top_stop hp hg => exact h.finish (by rw [unsent, hp]) nofun (.inr (by simpa [takes_all, hp, hg] using hok))
  | top_closed hp ha hc =>
    exact h.finish (by rw [unsent, hp]) nofun (.inr (by simpa [takes_all, hp, ha, hc] using hok))
  | top hp ho => exact h.go (by rw [unsent, hp]) rfl nofun nofun nofun nofun
  | @readable hup hp hm =>
    obtain ⟨hread, hhup⟩ : (s.unread ≠ [] ∨ s.hung_up = true) ∧ (hup = false ∨ s.hung_up = true) := by
      simpa [may_poll] using hm
    refine h.still ⟨rfl, rfl, rfl, rfl, rfl⟩ (by rw [unsent, unsent, hp]; rfl) nofun (fun hup' hp' => ?_) nofun nofun
    obtain rfl := Phase.recv.inj hp'
    exact ⟨hread, fun ht => hhup.resolve_left fun hf => absurd (hf.symm.trans ht) Bool.false_ne_true⟩
  | @unreadable hup hp hm =>
    have hall : hup = false ∨ s.all_read = true := by simpa [may_poll, all_read] using hm
    refine h.go (by rw [unsent, hp]) rfl nofun nofun (fun ht => ?_) nofun
    exact hall.resolve_left fun hf => absurd (hf.symm.trans ht) Bool.false_ne_true
  | recv_end hp hu =>
    -- `poll` reported the end, as nothing was there to read
    have hup := (h.readable _ hp).1.resolve_left (not_not.2 hu)
    exact h.finish (by rw [unsent, hp]) nofun (.inr (all_read_iff.2 ⟨hup, hu⟩))
  | @recvd hup n hp hn =>
    refine h.block hp fun ht => ?_
    simpa [takes_all, hp, ht] using hok
  | wrote hp => exact h.wrote hp
  | write_closed hp hr hc => exact .write_failed (by decide) _
  | @write rest next hp =>
    refine h.still ⟨rfl, rfl, rfl, rfl, rfl⟩ (by rw [unsent, unsent, hp]; rfl) nofun nofun (fun hh => h.hup ?_) nofun
    rw [hp]
    cases next with
    | flags hup => exact hh
    | head => cases hh
    | loop => cases hh
  | framed hp => exact h.framed hp (by simpa [takes_all] using hok)
  | unframed hp => exact .write_failed (by decide) _
  | flags_hup hp => exact h.finish (by rw [unsent, hp]) nofun (.inr (h.hup (by rw [hp]; rfl)))
  | flags hp => exact h.go (by rw [unsent, hp]) rfl nofun nofun nofun nofun
  | drain hp => exact h.still ⟨rfl, rfl, rfl, rfl, rfl⟩ (by rw [unsent, unsent, hp]) nofun nofun nofun nofun
  | drained hp hb =>
    split
    · exact h.go (by rw [unsent, hp]) rfl nofun nofun nofun nofun
    · exact h.go (by rw [unsent, hp]) rfl nofun nofun nofun nofun
  | @took rest n hp =>
    have hu : s.unsent side = [] := by rw [unsent, hp]
    rcases sending_phase s rest n with ht | ⟨r, ht⟩
    · exact h.still ⟨rfl, rfl, rfl, rfl, rfl⟩ (by rw [hu, unsent, ht]) (by rw [ht]; nofun) (by rw [ht]; nofun)
        (by rw [ht]; nofun) (by rw [ht]; nofun)
    · exact h.still ⟨rfl, rfl, rfl, rfl, rfl⟩ (by rw [hu, unsent, ht]) (by rw [ht]; nofun) (by rw [ht]; nofun)
        (by rw [ht]; nofun) (by rw [ht]; nofun)
  | untaken hp => exact h.finish (by rw [unsent, hp]) nofun (.inr (by simpa [takes_all] using hok))
  | bottom_closed hp hc => exact h.finish (by rw [unsent, hp]) nofun (.inr (by simpa [takes_all, hp, hc] using hok))
  | bottom hp hc => exact h.go (by rw [unsent, hp]) rfl nofun nofun nofun nofun

theorem passed_reached (h : Reaches (guarded (fun s e => takes_all side s e = true) (step side)) (initial side) s) :
    Passed side s := by
  refine Reaches.inv (I := Passed side) ?_ ?_ h
  · rintro s ⟨id, rfl⟩
    exact passed_start side id
  · rintro s e t hi ⟨hok, ht⟩
    exact passed_step (moves_of_step ht) hok hi

end

/-- In a run in which each reported hang-up leaves no more than one `recv` takes and
nothing else stops the pump, all that was written to the socket is sent. -/
theorem forwarded_when_all_taken {side : Side} {s : Pump}
    (h : Reaches (guarded (fun s e => takes_all side s e = true) (step side)) (initial side) s) :
    Forwarded side s :=
  (passed_reached h).forwarded

/-- The service answers three bytes and closes; the hang-up is reported with them. -/
def toyShort : List Event :=
  [.data [120, 10], .moves, .moves, .connected true, .moves, .arrive [97, 98, 99], .hang_up, .polled true true, .recvd 3,
    .moves, .framed true, .moves, .moves]

theorem forwarded_short :
    ∃ s, toyShort.foldlM (checked (takes_all .bridge_stream) (next .bridge_stream)) (start .bridge_stream 2) = some s ∧
      Forwarded .bridge_stream s := by
  have hrun : (toyShort.foldlM (checked (takes_all .bridge_stream) (next .bridge_stream))
      (start .bridge_stream 2)).isSome = true := by decide +kernel
  obtain ⟨s, hs⟩ := Option.isSome_iff_exists.1 hrun
  exact ⟨s, hs, forwarded_when_all_taken (Reaches.foldlM (guarded_of_checked fun _ _ _ => id) (.init ⟨2, rfl⟩) hs)⟩

/-- And the run ends with the three bytes sent. -/
example : (toyShort.foldlM (next .bridge_stream) (start .bridge_stream 2)).map (fun s => (s.phase, s.sent)) =
    some (.ended .hup, [97, 98, 99]) := by decide +kernel

/-! ## More than a block before the hang-up -/

section
variable {side : Side} {init : Pump → Prop}

/-- These bytes have gone out. -/
def out (s : Pump) (d : Bytes) : Pump := { s with sent := s.sent ++ d }

theorem write_nothing {s : Pump} {next : Next} (hp : s.phase = .write [] next) (h : Reaches (step side) init s) :
    Reaches (step side) init ((s.out []).wrote side next) := by
  have hout : s.out [] = s := by rw [out, List.append_nil]
  have hstep : step side s .moves (s.wrote side next) := by simp [step, Pump.next, move, hp]
  rw [hout]
  exact h.step hstep

/-- A `write` on an open stream whose frames all go out. -/
theorem write_runs {next : Next} (n : Nat) {s : Pump} {rest : Bytes} (hn : rest.length ≤ n) (hp : s.phase = .write rest next)
    (hc : s.stream.closed = false) (h : Reaches (step side) init s) :
    Reaches (step side) init ((s.out rest).wrote side next) := by
  induction n generalizing s rest with
  | zero =>
    obtain rfl := List.eq_nil_of_length_eq_zero (Nat.le_zero.1 hn)
    exact write_nothing hp h
  | succ n ih =>
    by_cases hr : rest = []
    · subst hr
      exact write_nothing hp h
    · have hlook : step side s .moves (s.go (.frame rest next)) := by simp [step, Pump.next, move, hp, hr, hc]
      have hframe : step side (s.go (.frame rest next)) (.framed true) ((s.go (.frame rest next)).framed rest next) := rfl
      have hshort : (rest.drop kDataFrameCap).length ≤ n := by
        have hpos := List.length_pos_iff.2 hr
        simp only [List.length_drop, kDataFrameCap]
        omega
      have hopen : ((s.go (.frame rest next)).framed rest next).stream.closed = false := hc
      have hrun := ih hshort rfl hopen ((h.step hlook).step hframe)
      -- the frame and what the induction sends after it are the whole
      have heq : (((s.go (.frame rest next)).framed rest next).out (rest.drop kDataFrameCap)).wrote side next =
          (s.out rest).wrote side next := by
        cases next <;> simp [Pump.wrote, go, out, Pump.framed, hc]
      rwa [heq] at hrun

/-- From the `poll` of a round in which all is sent so far: the other side writes more
than a block and closes, the hang-up is reported with the first block. -/
theorem block_and_hang_up {s : Pump} (h : Reaches (step side) init s) (hp : s.phase = .poll)
    (hc : s.stream.closed = false) (ho : s.hung_up = false) (hu : s.unread = []) {d : Bytes} (hd : block_size < d.length) :
    ∃ t, Reaches (step side) init t ∧ t.phase = .ended .hup ∧ t.refused = s.refused ∧ t.offered = s.offered ++ d ∧
      t.sent = s.sent ++ d.take block_size := by
  let come : Pump := { s with unread := s.unread ++ d, offered := s.offered ++ d }
  let gone : Pump := { come with hung_up := true }
  let block : Pump := (gone.go (.recv true)).block block_size true
  have hne : s.unread ++ d ≠ [] := by
    intro hnil
    rw [(List.append_eq_nil_iff.1 hnil).2] at hd
    cases hd
  have harrive : step side s (.arrive d) come := by simp [step, Pump.next, hp, ho, Phase.connected, come]
  have hhang : step side come .hang_up gone := by simp [step, Pump.next, hp, Phase.connected, come, gone]
  have hpoll : step side gone (.polled true true) (gone.go (.recv true)) := by
    simp [step, Pump.next, hp, may_poll, come, gone]
  have hrecv : step side (gone.go (.recv true)) (.recvd block_size) block := by
    have hlen : block_size ≤ (s.unread ++ d).length := by
      rw [hu]
      exact hd.le
    have hfits : block_size ≤ block_size ∧ block_size ≤ (s.unread ++ d).length := ⟨le_rfl, hlen⟩
    exact if_pos hfits
  have hblock : Reaches (step side) init block := (((h.step harrive).step hhang).step hpoll).step hrecv
  have hopen : block.stream.closed = false := hc
  have hwritten := write_runs _ le_rfl rfl hopen hblock
  have hend : step side ((block.out (gone.unread.take block_size)).wrote side (.flags true)) .moves
      (((block.out (gone.unread.take block_size)).wrote side (.flags true)).finish .hup) := rfl
  refine ⟨_, hwritten.step hend, rfl, rfl, rfl, ?_⟩
  exact congrArg (fun u => s.sent ++ (u ++ d).take block_size) hu

end

/-- In front of `poll` with all sent that there was to send. -/
def ready (side : Side) (s : Pump) : Bool :=
  s.phase = .poll ∧ s.stream.closed = false ∧ s.hung_up = false ∧ s.unread = [] ∧ s.refused = false ∧ s.offered = [] ∧
    s.sent = side.dst ++ side.head

theorem not_forwarded {side : Side} {es : List Event}
    (h : (es.foldlM (next side) (start side 2)).any (ready side) = true) {d : Bytes} (hd : block_size < d.length) :
    ∃ s, Reaches (step side) (initial side) s ∧ s.refused = false ∧ s.offered = d ∧ ¬ Forwarded side s := by
  obtain ⟨s, hrun, hready⟩ := (Option.any_eq_true _ _).1 h
  obtain ⟨hp, hc, ho, hu, hr, hoff, hsent⟩ := of_decide_eq_true hready
  have hreach : Reaches (step side) (initial side) s := Reaches.foldlM (fun _ _ _ => id) (.init ⟨2, rfl⟩) hrun
  obtain ⟨t, ht, hend, hrefused, htoff, htsent⟩ := block_and_hang_up hreach hp hc ho hu hd
  have hall : t.offered = d := by rw [htoff, hoff, List.nil_append]
  refine ⟨t, ht, hrefused.trans hr, hall, fun hf => ?_⟩
  have heq := hf ⟨_, hend⟩ (hrefused.trans hr)
  rw [htsent, hsent, hall, List.append_cancel_left_eq] at heq
  have hlength := congrArg List.length heq
  rw [List.length_take] at hlength
  omega

/-- Both pumps drop what follows the first block when the hang-up is reported with
it, although no `write` fails. -/
theorem hang_up_truncates :
    (∃ s, Reaches (step .bridge_stream) (initial .bridge_stream) s ∧ s.refused = false ∧
      s.offered = List.replicate 32769 0 ∧ ¬ Forwarded .bridge_stream s) ∧
    ∃ s, Reaches (step (.serve_public [104] 80 [])) (initial (.serve_public [104] 80 [])) s ∧ s.refused = false ∧
      s.offered = List.replicate 32769 0 ∧ ¬ Forwarded (.serve_public [104] 80 []) s := by
  have hlen : block_size < (List.replicate 32769 (0 : UInt8)).length := by
    rw [List.length_replicate]
    decide
  have hbridge : ([.data [120, 10], .moves, .moves, .connected true, .moves].foldlM (next .bridge_stream)
      (start .bridge_stream 2)).any (ready .bridge_stream) = true := by decide +kernel
  have hserve : ([.moves, .framed true, .moves, .moves, .moves].foldlM (next (.serve_public [104] 80 []))
      (start (.serve_public [104] 80 []) 2)).any (ready (.serve_public [104] 80 [])) = true := by decide +kernel
  exact ⟨not_forwarded hbridge hlen, not_forwarded hserve hlen⟩

end Hostely.Tunnel.Pump
