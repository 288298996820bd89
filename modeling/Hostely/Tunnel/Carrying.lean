import Hostely.Tunnel.Delivery
import Hostely.Tunnel.Forwarding
/-!
# What a step of a pump moves

A step sends bytes, takes bytes out of the buffer of the stream or does neither. What
the socket gave is sent, in hand or still to be read, and what the stream gave is the
destination line, written or in hand.
-/

open Hostely.Lib

namespace Hostely.Tunnel.Pump

/-- What a step sends. -/
def puts (s : Pump) (e : Event) : Bytes :=
  match e, s.phase with
  | .framed true, .frame rest _ => rest.take kDataFrameCap
  | _, _ => []

/-- What a step takes out of the buffer of the stream. -/
def takes (s : Pump) (e : Event) : Bytes :=
  match e, s.phase with
  | .moves, .read_dst => s.stream.buffer.take 1
  | .moves, .drain => s.stream.buffer.take block_size
  | _, _ => []

/-- And what of it belongs to the destination line. -/
def reads_line (s : Pump) (e : Event) : Bytes := if s.phase = .read_dst then s.takes e else []

/-- `write` has looked at `closed_` and calls `send_frame`. -/
def Phase.framing : Phase → Bool
  | frame _ _ => true
  | _ => false

section
variable {side : Side} {s t : Pump} {e : Event}

/-- A step that touches neither the bytes from the socket nor those in hand. -/
theorem Still.out {W : Bytes} (hs : Still s t) (hu : t.unsent side = s.unsent side) (hputs : s.puts e = [])
    (h : s.refused = false → side.dst ++ side.head ++ s.offered = W ++ s.unsent side ++ s.unread) (ht : t.refused = false) :
    side.dst ++ side.head ++ t.offered = W ++ s.puts e ++ t.unsent side ++ t.unread := by
  rw [hs.refused] at ht
  rw [hs.offered, hs.unread, hu, hputs, List.append_nil]
  exact h ht

/-- No byte from the socket is lost unless a `write` fails. -/
theorem Moves.out {W : Bytes} (hm : Moves side s e t)
    (h : s.refused = false → side.dst ++ side.head ++ s.offered = W ++ s.unsent side ++ s.unread) (ht : t.refused = false) :
    side.dst ++ side.head ++ t.offered = W ++ s.puts e ++ t.unsent side ++ t.unread := by
  have hsame : Still s s := ⟨rfl, rfl, rfl, rfl, rfl⟩
  cases hm with
  | data d => exact hsame.out rfl rfl h ht
  | fin => exact hsame.out rfl rfl h ht
  | stop => exact hsame.out rfl rfl h ht
  | arrive d hc ho =>
    have hwhole := congrArg (· ++ d) (h ht)
    simpa [puts, unsent] using hwhole
  | hang_up hc => exact hsame.out rfl rfl h ht
  | @dst_byte b rest hp hb =>
    obtain ⟨hphase, hs⟩ := take_dst_still s b { s.stream with buffer := rest }
    refine hs.out ?_ rfl h ht
    rcases hphase with hphase | hphase <;> rw [unsent, unsent, hphase, hp]
  | recvd hp hn => simpa [puts, unsent, hp, Pump.block, Next.later] using h ht
  | @wrote next hp => cases next <;> simpa [puts, unsent, hp, Pump.wrote, Pump.go, Next.later] using h ht
  | @write_closed rest next hp hr hc => cases next <;> cases ht
  | @framed rest next hp =>
    have hwhole := h ht
    have hrest : rest = rest.take kDataFrameCap ++ rest.drop kDataFrameCap := (List.take_append_drop _ _).symm
    simp only [unsent, hp] at hwhole
    simp only [puts, unsent, hp, Pump.framed, hwhole]
    conv_lhs => rw [hrest]
    simp only [List.append_assoc]
  | @unframed rest next hp => cases next <;> cases ht
  | drain hp => simpa [puts, unsent, hp] using h ht
  | drained hp hb => cases ha : side.asks_first <;> simpa [puts, unsent, hp, Pump.go] using h ht
  | @took rest n hp =>
    have hu : (s.sending rest n).unsent side = [] := by
      rcases sending_phase s rest n with hphase | ⟨r, hphase⟩ <;> rw [unsent, hphase]
    refine Still.out (t := s.sending rest n) ⟨rfl, rfl, rfl, rfl, rfl⟩ ?_ rfl h ht
    rw [hu, unsent, hp]
  | dst_end hp hb hc | connected hp | top hp ho | readable hp hm | unreadable hp hm | write hp | flags hp | bottom hp hc =>
    simpa [puts, unsent, hp, Pump.go] using h ht
  | unconnected hp | top_stop hp hg | top_closed hp ha hc | recv_end hp hu | flags_hup hp | untaken hp | bottom_closed hp hc =>
    simpa [puts, unsent, hp, Pump.finish] using h ht

/-- Only `write` and its frames know of a refusal. -/
theorem Moves.refused (hm : Moves side s e t) (ht : t.refused = true) :
    s.refused = true ∨ e = .framed false ∨ s.stream.closed = true ∧ s.phase.framing = false := by
  cases hm with
  | @dst_byte b rest hp hb =>
    have hs := (take_dst_still s b { s.stream with buffer := rest }).2
    exact .inl (hs.refused ▸ ht)
  | @wrote next hp => cases next <;> exact .inl ht
  | write_closed hp hr hc => exact .inr (.inr ⟨hc, by rw [hp]; rfl⟩)
  | unframed hp => exact .inr (.inl rfl)
  | _ => exact .inl ht

/-- `write` comes to a frame only when it has found the stream open. -/
theorem framing_of_open (h : step side s e t) (ht : t.phase.framing = true) : s.phase.framing = true ∨ s.stream.closed = false := by
  by_contra hnot
  obtain ⟨hs, hc⟩ := not_or.1 hnot
  rw [Bool.not_eq_true] at hs
  rw [Bool.not_eq_false] at hc
  have hsame (hphase : t.phase = s.phase) : False := by
    rw [hphase, hs] at ht
    cases ht
  have hm := moves_of_step h
  cases hm with
  | @dst_byte b rest hp hb =>
    rcases (take_dst_still s b { s.stream with buffer := rest }).1 with hphase | hphase <;>
    · rw [hphase] at ht
      cases ht
  | @wrote next hp => cases next <;> cases ht
  | @write_closed rest next hp hr hc => cases next <;> cases ht
  | @write rest next hp =>
    -- the look at `closed_` comes first
    simp only [step, Pump.next, move, hp, hc, if_true] at h
    split at h
    · have heq := congrArg Pump.phase (Option.some.inj h)
      cases next <;> cases heq
    · have heq := congrArg Pump.phase (Option.some.inj h)
      cases next <;> cases heq
  | @framed rest next hp =>
    rw [hp] at hs
    cases hs
  | @unframed rest next hp => cases next <;> cases ht
  | drained hp hb => cases ha : side.asks_first <;> simp [ha, Pump.go, Phase.framing] at ht
  | @took rest n hp =>
    rcases sending_phase s rest n with hphase | ⟨r, hphase⟩ <;>
    · rw [hphase] at ht
      cases ht
  | data d => exact hsame rfl
  | fin => exact hsame rfl
  | stop => exact hsame rfl
  | arrive d hc ho => exact hsame rfl
  | hang_up hc => exact hsame rfl
  | _ => cases ht

theorem take_dst_into (s : Pump) (b : UInt8) (stream : MuxStream) :
    (s.take_dst b stream).written = s.written ∧ (s.take_dst b stream).in_hand = [] := by
  constructor
  · unfold take_dst
    split <;> rfl
  · rcases (take_dst_still s b stream).1 with hphase | hphase <;> rw [in_hand, hphase]

theorem sending_in_hand (s : Pump) (rest : Bytes) (n : Nat) : (s.sending rest n).in_hand = rest.drop n := by
  unfold in_hand sending
  by_cases hd : rest.drop n = [] <;> simp [hd]

theorem takes_of_ne (s : Pump) (h : e ≠ .moves) : s.takes e = [] := by
  cases e with
  | moves => exact absurd rfl h
  | _ => rfl

/-- The bytes that a step takes out of the buffer go to the line or on to the socket, until
the socket takes no more. -/
theorem Moves.into {line taken : Bytes} (hm : Moves side s e t) (hread : s.phase = .read_dst → s.written = [])
    (h : s.phase ≠ .ended .send_failed → taken = line ++ s.written ++ s.in_hand) (ht : t.phase ≠ .ended .send_failed) :
    taken ++ s.takes e = line ++ s.reads_line e ++ t.written ++ t.in_hand := by
  have hsame (hmoves : e ≠ .moves) (hp : s.phase ≠ .ended .send_failed) :
      taken ++ s.takes e = line ++ s.reads_line e ++ s.written ++ s.in_hand := by
    simp [s.takes_of_ne hmoves, reads_line, h hp]
  cases hm with
  | data d => exact hsame nofun ht
  | fin => exact hsame nofun ht
  | stop => exact hsame nofun ht
  | arrive d hc ho => exact hsame nofun ht
  | hang_up hc => exact hsame nofun ht
  | @dst_byte b rest hp hb =>
    obtain ⟨hwritten, hhand⟩ := take_dst_into s b { s.stream with buffer := rest }
    rw [h (by simp [hp]), hwritten, hhand, hread hp]
    simp [in_hand, takes, reads_line, hp, hb]
  | dst_end hp hb hc => simp [h (by simp [hp]), takes, reads_line, in_hand, hp, hb, Pump.go]
  | @wrote next hp =>
    cases next <;> simp [h (by simp [hp]), takes, reads_line, in_hand, hp, Pump.wrote, Pump.go]
  | @write_closed rest next hp hr hc =>
    cases next <;> simp [h (by simp [hp]), takes, reads_line, in_hand, hp, Pump.write_failed, Pump.refuse, Pump.finish, Pump.wrote, Pump.go]
  | framed hp => simp [h (by simp [hp]), takes, reads_line, in_hand, hp, Pump.framed]
  | @unframed rest next hp =>
    cases next <;> simp [h (by simp [hp]), takes, reads_line, in_hand, hp, Pump.write_failed, Pump.refuse, Pump.finish, Pump.wrote, Pump.go]
  | drain hp => simp [h (by simp [hp]), takes, reads_line, in_hand, hp]
  | drained hp hb =>
    cases ha : side.asks_first <;> simp [h (by simp [hp]), takes, reads_line, in_hand, hp, hb, Pump.go]
  | @took rest n hp =>
    rw [sending_in_hand, h (by simp [hp])]
    simp [takes, reads_line, in_hand, hp, Pump.sending]
  | untaken hp => exact absurd rfl ht
  | recvd hp hn => simp [h (by simp [hp]), takes, reads_line, in_hand, hp, Pump.block]
  | connected hp | top hp ho | readable hp hm | unreadable hp hm | write hp | flags hp | bottom hp hc =>
    simp [h (by simp [hp]), takes, reads_line, in_hand, hp, Pump.go]
  | unconnected hp | top_stop hp hg | top_closed hp ha hc | recv_end hp hu | flags_hup hp | bottom_closed hp hc =>
    simp [h (by simp [hp]), takes, reads_line, in_hand, hp, Pump.finish]

/-- What a socket that takes no more leaves in hand is lost. -/
theorem Moves.gives_up (hm : Moves side s e t) (ht : t.phase = .ended .send_failed) :
    s.takes e = [] ∧ s.reads_line e = [] ∧ t.written = s.written ∧ t.in_hand = [] := by
  have hhand : t.in_hand = [] := by rw [in_hand, ht]
  have hnone (hmoves : e ≠ .moves) (hwritten : t.written = s.written) :
      s.takes e = [] ∧ s.reads_line e = [] ∧ t.written = s.written ∧ t.in_hand = [] := by
    have htakes := s.takes_of_ne hmoves
    exact ⟨htakes, by rw [reads_line, htakes, ite_self], hwritten, hhand⟩
  cases hm with
  | data d | fin | stop | arrive d hc ho | hang_up hc | untaken hp => exact hnone (by simp) rfl
  | @dst_byte b rest hp hb =>
    rcases (take_dst_still s b { s.stream with buffer := rest }).1 with hphase | hphase <;>
    · rw [hphase] at ht
      cases ht
  | @wrote next hp => cases next <;> cases ht
  | @write_closed rest next hp hr hc => cases next <;> cases ht
  | @unframed rest next hp => cases next <;> cases ht
  | drained hp hb => cases ha : side.asks_first <;> simp [ha, Pump.go] at ht
  | @took rest n hp =>
    rcases sending_phase s rest n with hphase | ⟨r, hphase⟩ <;>
    · rw [hphase] at ht
      cases ht
  | _ => cases ht

theorem Moves.offered (hm : Moves side s e t) : s.offered <+: t.offered := by
  cases hm with
  | arrive d hc ho => exact List.prefix_append _ _
  | @dst_byte b rest hp hb => rw [(take_dst_still s b { s.stream with buffer := rest }).2.offered]
  | @wrote next hp => cases next <;> exact List.prefix_rfl
  | @write_closed rest next hp hr hc => cases next <;> exact List.prefix_rfl
  | @unframed rest next hp => cases next <;> exact List.prefix_rfl
  | _ => exact List.prefix_rfl

/-- Only a frame that goes out sends anything. -/
theorem Moves.puts_of_frame (hm : Moves side s e t) : s.puts e = [] ∨ s.phase.framing = true ∧ t.refused = s.refused := by
  cases hm with
  | framed hp => exact .inr ⟨by rw [hp]; rfl, rfl⟩
  | _ => exact .inl rfl

/-! ## The destination line -/

/-- What the pump has read of the destination line, with the byte that ends it. -/
structure Lined (side : Side) (line : Bytes) (s : Pump) : Prop where
  reading : s.phase = .read_dst → side.asks_first = true ∧ line = s.dst ∧ s.written = []
  /-- Only `bridge_stream` reads one. -/
  none : side.asks_first = false → line = []
  no_newline : 10 ∉ s.dst
  ends : line = s.dst ∨ line = s.dst ++ [10]

theorem lined_start (side : Side) (id : UInt32) : Lined side [] (start side id) := by
  cases side with
  | bridge_stream => exact ⟨fun _ => ⟨rfl, rfl, rfl⟩, fun _ => rfl, List.not_mem_nil, .inl rfl⟩
  | serve_public host port head => exact ⟨nofun, fun _ => rfl, List.not_mem_nil, .inl rfl⟩

theorem Lined.same {line : Bytes} (h : Lined side line s) (hdst : t.dst = s.dst) (hline : s.reads_line e = [])
    (hphase : t.phase = .read_dst → s.phase = .read_dst ∧ t.written = s.written) : Lined side (line ++ s.reads_line e) t := by
  rw [hline, List.append_nil]
  refine ⟨fun hp => ?_, h.none, hdst ▸ h.no_newline, hdst ▸ h.ends⟩
  obtain ⟨hs, hwritten⟩ := hphase hp
  rw [hdst, hwritten]
  exact h.reading hs

theorem Moves.lined {line : Bytes} (hm : Moves side s e t) (h : Lined side line s) : Lined side (line ++ s.reads_line e) t := by
  have hline (hp : s.phase ≠ .read_dst) : s.reads_line e = [] := if_neg hp
  cases hm with
  | @dst_byte b rest hp hb =>
    obtain ⟨hfirst, rfl, hwritten⟩ := h.reading hp
    have hread : s.reads_line .moves = [b] := by simp [reads_line, takes, hp, hb]
    rw [hread]
    unfold take_dst
    split
    · rename_i hnewline
      exact ⟨nofun, fun hs => absurd (hs.symm.trans hfirst) Bool.false_ne_true, h.no_newline, .inr (by rw [hnewline])⟩
    · rename_i hother
      refine ⟨fun _ => ⟨hfirst, rfl, hwritten⟩, fun hs => absurd (hs.symm.trans hfirst) Bool.false_ne_true, ?_, .inl rfl⟩
      simpa [h.no_newline] using Ne.symm hother
  | dst_end hp hb hc => exact h.same rfl (by simp [reads_line, takes, hp, hb]) nofun
  | data d | fin | stop | arrive d hc ho | hang_up hc => exact h.same rfl (by simp [reads_line, takes]) fun hp => ⟨hp, rfl⟩
  | @wrote next hp => cases next <;> exact h.same rfl (hline (by simp [hp])) nofun
  | @write_closed rest next hp hr hc => cases next <;> exact h.same rfl (hline (by simp [hp])) nofun
  | @unframed rest next hp => cases next <;> exact h.same rfl (hline (by simp [hp])) nofun
  | drained hp hb => cases ha : side.asks_first <;> exact h.same rfl (hline (by simp [hp])) nofun
  | @took rest n hp =>
    refine h.same rfl (hline (by simp [hp])) fun hphase => ?_
    rcases sending_phase s rest n with hp' | ⟨r, hp'⟩ <;>
    · rw [hp'] at hphase
      cases hphase
  | drain hp | recvd hp hn | framed hp | untaken hp => exact h.same rfl (hline (by simp [hp])) nofun
  | connected hp | top hp ho | readable hp hm | unreadable hp hm | write hp | flags hp | bottom hp hc =>
    exact h.same rfl (hline (by simp [hp])) nofun
  | unconnected hp | top_stop hp hg | top_closed hp ha hc | recv_end hp hu | flags_hup hp | bottom_closed hp hc =>
    exact h.same rfl (hline (by simp [hp])) nofun

end

end Hostely.Tunnel.Pump
