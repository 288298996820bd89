import Hostely.Lib.Runs
import Hostely.Tunnel.Frame
/-!
# What the session reads of its buffer

`Mux::read_loop` a turn of the inner loop at a time, with the numbers of a 64-bit
`size_t`, which wrap around, and the places of `inbuf` that it looks at. The length
of a frame is whatever the peer sends.
-/

open Hostely.Lib

namespace Hostely.Tunnel.ReadLoop

/-! ## One turn of the inner loop -/

/-- Some bytes of `inbuf` are looked at. -/
structure Access where
  start : Nat
  size : Nat
deriving DecidableEq

/-- Where the turn leads. -/
inductive Next where
  /-- The inner loop goes on at this offset. -/
  | again (off : UInt64)
  /-- No complete frame is left. -/
  | done (off : UInt64)
  | dead (why : Death)
deriving DecidableEq

structure Turn where
  accesses : List Access
  /-- The frame that reaches the switch over the type. -/
  frame : Option Frame
  next : Next
deriving DecidableEq

def size (text : Bytes) : UInt64 := text.length.toUInt64

def turn (inbuf : Bytes) (off : UInt64) : Turn :=
  if size inbuf - off < kHeaderSize.toUInt64 then ⟨[], none, .done off⟩
  else
    let h := inbuf.drop off.toNat
    let at_h (i : Nat) := h.getD i 0
    if at_h 0 ≠ kYamuxVersion then ⟨[⟨off.toNat, 1⟩], none, .dead .bad_version⟩
    else
      let type := at_h 1
      let flags := get_u16 (at_h 2) (at_h 3)
      let sid := get_u32 (at_h 4) (at_h 5) (at_h 6) (at_h 7)
      let plen := get_u32 (at_h 8) (at_h 9) (at_h 10) (at_h 11)
      let header : Access := ⟨off.toNat, kHeaderSize⟩
      if size inbuf - off - kHeaderSize.toUInt64 < plen.toUInt64 then ⟨[header], none, .done off⟩
      else
        let payload : Access := ⟨(off + kHeaderSize.toUInt64).toNat, plen.toNat⟩
        let f : Frame := ⟨type, flags, sid, (inbuf.drop payload.start).take payload.size⟩
        -- the payload is looked at for a stream that gets it
        let accesses := if type = kTypeData then [header, payload] else [header]
        if type = kTypeGoAway then ⟨accesses, some f, .dead .go_away⟩
        else ⟨accesses, some f, .again (off + (kHeaderSize.toUInt64 + plen.toUInt64))⟩

/-! ## The loop -/

inductive Pc where
  | recv
  | inner (off : UInt64)
  | dead (why : Death)
deriving DecidableEq

structure Reader where
  inbuf : Bytes
  pc : Pc
deriving DecidableEq

/-- What one call of `recv` can give. -/
abbrev Chunk := { c : Bytes // 1 ≤ c.length ∧ c.length ≤ 65536 }

inductive Event where
  | chunk (c : Chunk)
  /-- `recv` gives nothing, or the session is found dead. -/
  | stop
  | turn

/-- The end of a round of the outer loop. -/
def leave (inbuf : Bytes) (off : Nat) : Reader :=
  let inbuf := inbuf.drop off
  ⟨inbuf, if kBufferCap.toUInt64 < size inbuf then .dead .too_much else .recv⟩

def after (inbuf : Bytes) : Next → Reader
  | .again off => ⟨inbuf, .inner off⟩
  | .done off => leave inbuf off.toNat
  | .dead why => ⟨inbuf, .dead why⟩

def Reader.next (r : Reader) : Event → Option Reader
  | .chunk c => if r.pc = .recv then some ⟨r.inbuf ++ c.1, .inner 0⟩ else none
  | .stop => if r.pc = .recv then some ⟨r.inbuf, .dead .closed⟩ else none
  | .turn =>
    match r.pc with
    | .inner off => some (after r.inbuf (turn r.inbuf off).next)
    | _ => none

def step (r : Reader) (e : Event) (t : Reader) : Prop := r.next e = some t

def start : Reader := ⟨[], .recv⟩

/-- What the next turn looks at. -/
def Reader.accesses (r : Reader) : List Access :=
  match r.pc with
  | .inner off => (turn r.inbuf off).accesses
  | _ => []

/-- So many turns, as far as the inner loop goes, and the frames that reach the switch. -/
def turns : Nat → Reader → List Frame × Reader
  | 0, r => ([], r)
  | k + 1, r =>
    match r.pc with
    | .inner off =>
      let t := turn r.inbuf off
      let (frames, r) := turns k (after r.inbuf t.next)
      (t.frame.toList ++ frames, r)
    | _ => ([], r)

/-! ## What a turn does -/

theorem read_header_some {h : Bytes} (hlen : kHeaderSize ≤ h.length) :
    read_header h = some ⟨h.getD 0 0, h.getD 1 0, get_u16 (h.getD 2 0) (h.getD 3 0),
      get_u32 (h.getD 4 0) (h.getD 5 0) (h.getD 6 0) (h.getD 7 0),
      get_u32 (h.getD 8 0) (h.getD 9 0) (h.getD 10 0) (h.getD 11 0)⟩ := by
  match h, hlen with
  | _ :: _ :: _ :: _ :: _ :: _ :: _ :: _ :: _ :: _ :: _ :: _ :: _, _ => rfl

/-- The largest that the buffer gets. -/
def kMost : Nat := kBufferCap + 64 * 1024

section Turn
variable {inbuf : Bytes} {off : UInt64}

theorem size_toNat (h : inbuf.length ≤ kMost) : (size inbuf).toNat = inbuf.length := by
  unfold kMost kBufferCap at h
  exact Nat.mod_eq_of_lt (by omega)

theorem rest_toNat (h : inbuf.length ≤ kMost) (hoff : off.toNat ≤ inbuf.length) :
    (size inbuf - off).toNat = inbuf.length - off.toNat := by
  rw [UInt64.toNat_sub_of_le _ _ (UInt64.le_iff_toNat_le.2 (by rwa [size_toNat h])), size_toNat h]

/-- The frame that a header at `off` announces. -/
def frame_at (inbuf : Bytes) (off : Nat) (h : Header) : Frame :=
  ⟨h.type, h.flags, h.stream_id, (inbuf.drop (off + kHeaderSize)).take h.length.toNat⟩

/-- Where less than a header is left the loop ends; else the header is read, and what
comes next depends on it. No number wraps around. -/
theorem turn_cases (h : inbuf.length ≤ kMost) (hoff : off.toNat ≤ inbuf.length) :
    (inbuf.length < off.toNat + kHeaderSize ∧ turn inbuf off = ⟨[], none, .done off⟩) ∨
    (off.toNat + kHeaderSize ≤ inbuf.length ∧ ∃ hdr, read_header (inbuf.drop off.toNat) = some hdr ∧
      ((hdr.version ≠ kYamuxVersion ∧ turn inbuf off = ⟨[⟨off.toNat, 1⟩], none, .dead .bad_version⟩) ∨
      (hdr.version = kYamuxVersion ∧ inbuf.length < off.toNat + kHeaderSize + hdr.length.toNat ∧
        turn inbuf off = ⟨[⟨off.toNat, kHeaderSize⟩], none, .done off⟩) ∨
      (hdr.version = kYamuxVersion ∧ off.toNat + kHeaderSize + hdr.length.toNat ≤ inbuf.length ∧
        ∃ accesses next, turn inbuf off = ⟨accesses, some (frame_at inbuf off.toNat hdr), next⟩ ∧
          (∀ a ∈ accesses, a = ⟨off.toNat, kHeaderSize⟩ ∨ a = ⟨off.toNat + kHeaderSize, hdr.length.toNat⟩) ∧
          ((hdr.type = kTypeGoAway ∧ next = .dead .go_away) ∨
            (hdr.type ≠ kTypeGoAway ∧ ∃ off', next = .again off' ∧
              off'.toNat = off.toNat + kHeaderSize + hdr.length.toNat))))) := by
  have hmost : kMost = 8454144 := by decide
  have hheader : kHeaderSize.toUInt64.toNat = kHeaderSize := rfl
  have hrest := rest_toNat h hoff
  have hshort : size inbuf - off < kHeaderSize.toUInt64 ↔ inbuf.length < off.toNat + kHeaderSize := by
    rw [UInt64.lt_iff_toNat_lt, hrest, hheader]
    omega
  unfold turn
  by_cases hlen : inbuf.length < off.toNat + kHeaderSize
  · exact .inl ⟨hlen, if_pos (hshort.2 hlen)⟩
  · have hroom : off.toNat + kHeaderSize ≤ inbuf.length := Nat.le_of_not_lt hlen
    rw [if_neg (mt hshort.1 hlen)]
    refine .inr ⟨hroom, _, read_header_some (by rw [List.length_drop]; omega), ?_⟩
    generalize inbuf.drop off.toNat = hd
    dsimp only
    by_cases hversion : hd.getD 0 0 = kYamuxVersion
    · rw [if_neg (not_not.2 hversion)]
      generalize get_u32 (hd.getD 8 0) (hd.getD 9 0) (hd.getD 10 0) (hd.getD 11 0) = plen
      have hplen : plen.toUInt64.toNat = plen.toNat := UInt32.toNat_toUInt64 plen
      have hle : kHeaderSize.toUInt64 ≤ size inbuf - off := by
        rw [UInt64.le_iff_toNat_le, hrest, hheader]
        omega
      have hwait : size inbuf - off - kHeaderSize.toUInt64 < plen.toUInt64 ↔
          inbuf.length < off.toNat + kHeaderSize + plen.toNat := by
        rw [UInt64.lt_iff_toNat_lt, UInt64.toNat_sub_of_le _ _ hle, hrest, hheader, hplen]
        omega
      by_cases hfull : inbuf.length < off.toNat + kHeaderSize + plen.toNat
      · exact .inr (.inl ⟨hversion, hfull, if_pos (hwait.2 hfull)⟩)
      · rw [if_neg (mt hwait.1 hfull)]
        have hpayload : (off + kHeaderSize.toUInt64).toNat = off.toNat + kHeaderSize := by
          rw [UInt64.toNat_add, hheader]
          omega
        have hnext : (off + (kHeaderSize.toUInt64 + plen.toUInt64)).toNat = off.toNat + kHeaderSize + plen.toNat := by
          rw [UInt64.toNat_add, UInt64.toNat_add, hheader, hplen]
          omega
        rw [hpayload]
        refine .inr (.inr ⟨hversion, Nat.le_of_not_lt hfull, ?_⟩)
        have haccesses : ∀ a ∈ (if hd.getD 1 0 = kTypeData then
              [(⟨off.toNat, kHeaderSize⟩ : Access), ⟨off.toNat + kHeaderSize, plen.toNat⟩] else [⟨off.toNat, kHeaderSize⟩]),
            a = ⟨off.toNat, kHeaderSize⟩ ∨ a = ⟨off.toNat + kHeaderSize, plen.toNat⟩ := by
          intro a ha
          split at ha
          · simpa using ha
          · exact .inl (List.mem_singleton.1 ha)
        by_cases hgone : hd.getD 1 0 = kTypeGoAway
        · exact ⟨_, _, if_pos hgone, haccesses, .inl ⟨hgone, rfl⟩⟩
        · exact ⟨_, _, if_neg hgone, haccesses, .inr ⟨hgone, _, rfl, hnext⟩⟩
    · exact .inl ⟨hversion, if_pos hversion⟩

end Turn

/-! ## Safe states -/

def Access.Inside (inbuf : Bytes) (a : Access) : Prop := a.start + a.size ≤ inbuf.length

/-- A complete frame stands at the start of the buffer. -/
def HasFrame (inbuf : Bytes) : Prop :=
  ∃ hdr, read_header inbuf = some hdr ∧ kHeaderSize + hdr.length.toNat ≤ inbuf.length

structure Safe (r : Reader) : Prop where
  cap : r.inbuf.length ≤ kMost
  /-- The offset never passes the end. -/
  off : ∀ off, r.pc = .inner off → off.toNat ≤ r.inbuf.length
  accesses : ∀ a ∈ r.accesses, a.Inside r.inbuf
  /-- A turn after which the inner loop goes on takes a header at least. -/
  progress : ∀ off off', r.pc = .inner off → (turn r.inbuf off).next = .again off' → off.toNat + kHeaderSize ≤ off'.toNat
  /-- After a round. -/
  waiting : r.pc = .recv → r.inbuf.length ≤ kBufferCap ∧ ¬ HasFrame r.inbuf

/-- What the loop keeps up by itself. -/
structure Kept (r : Reader) : Prop where
  cap : r.inbuf.length ≤ kMost
  off : ∀ off, r.pc = .inner off → off.toNat ≤ r.inbuf.length
  waiting : r.pc = .recv → r.inbuf.length ≤ kBufferCap ∧ ¬ HasFrame r.inbuf

theorem Kept.safe {r : Reader} (h : Kept r) : Safe r := by
  refine ⟨h.cap, h.off, ?_, ?_, h.waiting⟩
  · intro a ha
    unfold Reader.accesses at ha
    cases hpc : r.pc with
    | recv | dead why =>
      rw [hpc] at ha
      cases ha
    | inner off =>
      rw [hpc] at ha
      dsimp only at ha
      rcases turn_cases h.cap (h.off off hpc) with ⟨-, hturn⟩ | ⟨hroom, hdr, -, ⟨-, hturn⟩ | ⟨-, -, hturn⟩ |
        ⟨-, hfull, accesses, next, hturn, haccesses, -⟩⟩
      · rw [hturn] at ha
        cases ha
      · rw [hturn] at ha
        obtain rfl := List.mem_singleton.1 ha
        have hone : 1 ≤ kHeaderSize := by decide
        exact (Nat.add_le_add_left hone _).trans hroom
      · rw [hturn] at ha
        obtain rfl := List.mem_singleton.1 ha
        exact hroom
      · rw [hturn] at ha
        rcases haccesses a ha with rfl | rfl
        · exact hroom
        · exact hfull
  · intro off off' hpc hagain
    rcases turn_cases h.cap (h.off off hpc) with ⟨-, hturn⟩ | ⟨-, hdr, -, ⟨-, hturn⟩ | ⟨-, -, hturn⟩ |
      ⟨-, -, accesses, next, hturn, -, ⟨-, rfl⟩ | ⟨-, off'', rfl, hoff''⟩⟩⟩
    · rw [hturn] at hagain
      cases hagain
    · rw [hturn] at hagain
      cases hagain
    · rw [hturn] at hagain
      cases hagain
    · rw [hturn] at hagain
      cases hagain
    · rw [hturn] at hagain
      obtain rfl := Next.again.inj hagain
      omega

/-- The round ends where no complete frame is left. -/
theorem kept_leave {inbuf : Bytes} {off : Nat} (hcap : inbuf.length ≤ kMost) (hnone : ¬ HasFrame (inbuf.drop off)) :
    Kept (leave inbuf off) := by
  have hdrop : (inbuf.drop off).length ≤ kMost := (List.drop_suffix off inbuf).length_le.trans hcap
  unfold leave
  refine ⟨hdrop, ?_, ?_⟩
  · intro off' hpc
    dsimp only at hpc
    split at hpc <;> cases hpc
  · intro hpc
    dsimp only at hpc ⊢
    split at hpc
    · cases hpc
    · rename_i hsmall
      rw [UInt64.lt_iff_toNat_lt, size_toNat hdrop] at hsmall
      exact ⟨Nat.le_of_not_lt hsmall, hnone⟩

theorem Kept.turn {inbuf : Bytes} {off : UInt64} (h : Kept ⟨inbuf, .inner off⟩) :
    Kept (after inbuf (ReadLoop.turn inbuf off).next) := by
  have hcap : inbuf.length ≤ kMost := h.cap
  have hdead (why : Death) : Kept ⟨inbuf, .dead why⟩ := ⟨hcap, fun _ hpc => (by cases hpc), fun hpc => (by cases hpc)⟩
  rcases turn_cases hcap (h.off off rfl) with ⟨hshort, hturn⟩ | ⟨hroom, hdr, hread, ⟨-, hturn⟩ | ⟨-, hwait, hturn⟩ |
    ⟨-, hfull, accesses, next, hturn, -, ⟨-, rfl⟩ | ⟨-, off', rfl, hoff'⟩⟩⟩
  · rw [hturn]
    apply kept_leave hcap
    rintro ⟨hdr, hread, -⟩
    have hpos : 0 < kHeaderSize := by decide
    have hnone : read_header (inbuf.drop off.toNat) = none := read_header_none (by rw [List.length_drop]; omega)
    rw [hnone] at hread
    cases hread
  · rw [hturn]
    exact hdead _
  · rw [hturn]
    apply kept_leave hcap
    rintro ⟨hdr', hread', hlen⟩
    obtain rfl := Option.some.inj (hread.symm.trans hread')
    rw [List.length_drop] at hlen
    omega
  · rw [hturn]
    exact hdead _
  · rw [hturn]
    refine ⟨hcap, fun off'' hpc => ?_, fun hpc => (by cases hpc)⟩
    obtain rfl := Pc.inner.inj hpc
    rw [hoff']
    exact hfull

theorem Kept.next {r t : Reader} {e : Event} (h : Kept r) (hstep : step r e t) : Kept t := by
  unfold step Reader.next at hstep
  cases e with
  | chunk c =>
    obtain ⟨hpc, hstep⟩ := Option.ite_none_right_eq_some.1 hstep
    obtain rfl := Option.some.inj hstep
    refine ⟨?_, fun off hpc => ?_, fun hpc => (by cases hpc)⟩
    · have hmost : kMost = kBufferCap + 65536 := by decide
      show (r.inbuf ++ c.1).length ≤ kMost
      rw [List.length_append, hmost]
      exact Nat.add_le_add (h.waiting hpc).1 c.2.2
    · obtain rfl := Pc.inner.inj hpc
      exact Nat.zero_le _
  | stop =>
    obtain ⟨-, hstep⟩ := Option.ite_none_right_eq_some.1 hstep
    obtain rfl := Option.some.inj hstep
    exact ⟨h.cap, fun _ hpc => (by cases hpc), fun hpc => (by cases hpc)⟩
  | turn =>
    obtain ⟨inbuf, pc⟩ := r
    cases pc with
    | recv => cases hstep
    | dead why => cases hstep
    | inner off =>
      obtain rfl := Option.some.inj hstep
      exact h.turn

theorem kept_run {r : Reader} (h : Reaches step (· = start) r) : Kept r := by
  refine h.inv (fun r hr => ?_) fun _ _ _ hr hstep => hr.next hstep
  subst hr
  refine ⟨Nat.zero_le _, fun off hpc => (by cases hpc), fun _ => ⟨Nat.zero_le _, ?_⟩⟩
  rintro ⟨hdr, hread, -⟩
  cases hread

/-! ## The inner loop ends -/

/-- Where the inner loop ends. -/
def ended (inbuf : Bytes) : Nat × Option Death → Reader
  | (off, none) => leave inbuf off
  | (_, some why) => ⟨inbuf, .dead why⟩

/-- The inner loop is over. -/
def Idle (r : Reader) : Prop := ∀ off, r.pc ≠ .inner off

theorem turns_idle {r : Reader} (h : Idle r) (k : Nat) : turns k r = ([], r) := by
  obtain ⟨inbuf, pc⟩ := r
  cases pc with
  | inner off => exact absurd rfl (h off)
  | recv | dead why => cases k <;> rfl

theorem idle_ended (inbuf : Bytes) (rest : Nat × Option Death) : Idle (ended inbuf rest) := by
  obtain ⟨off, death⟩ := rest
  intro off' hpc
  cases death with
  | none =>
    simp only [ended, leave] at hpc
    split at hpc <;> cases hpc
  | some why => cases hpc

theorem turns_succ (inbuf : Bytes) (off : UInt64) (k : Nat) :
    turns (k + 1) ⟨inbuf, .inner off⟩ =
      ((turn inbuf off).frame.toList ++ (turns k (after inbuf (turn inbuf off).next)).1,
        (turns k (after inbuf (turn inbuf off).next)).2) := rfl

/-- The turns come to what `parse_frames` says, as soon as they are enough for the bytes
that are left. -/
theorem turns_parse {inbuf : Bytes} {k : Nat} {off : UInt64} (h : Kept ⟨inbuf, .inner off⟩)
    (hk : inbuf.length - off.toNat < kHeaderSize * k) :
    turns k ⟨inbuf, .inner off⟩ = ((parse_frames inbuf k off.toNat).1, ended inbuf (parse_frames inbuf k off.toNat).2) := by
  induction k generalizing off with
  | zero => exact absurd hk (Nat.not_lt_zero _)
  | succ k ih =>
    have hidle (rest : Nat × Option Death) : turns k (ended inbuf rest) = ([], ended inbuf rest) :=
      turns_idle (idle_ended inbuf rest) k
    have hcap : inbuf.length ≤ kMost := h.cap
    have hoff : off.toNat ≤ inbuf.length := h.off off rfl
    rw [turns_succ, parse_frames]
    rcases turn_cases hcap hoff with ⟨hshort, hturn⟩ | ⟨hroom, hdr, hread, ⟨hversion, hturn⟩ |
      ⟨hversion, hwait, hturn⟩ | ⟨hversion, hfull, accesses, next, hturn, -, ⟨hgone, rfl⟩ | ⟨hgone, off', rfl, hoff'⟩⟩⟩
    · have hpos : 0 < kHeaderSize := by decide
      have hnone : read_header (inbuf.drop off.toNat) = none := read_header_none (by rw [List.length_drop]; omega)
      rw [hturn, hnone]
      exact hidle (off.toNat, none)
    · rw [hturn, hread]
      dsimp only
      rw [if_pos hversion]
      exact hidle (off.toNat, some .bad_version)
    · rw [hturn, hread]
      dsimp only
      rw [if_neg (not_not.2 hversion), if_pos (by omega)]
      exact hidle (off.toNat, none)
    · rw [hturn, hread]
      dsimp only
      rw [if_neg (not_not.2 hversion), if_neg (by omega), if_pos hgone]
      have hnext : after inbuf (.dead .go_away) = ended inbuf (off.toNat, some .go_away) := rfl
      rw [hnext, hidle]
      rfl
    · rw [hturn, hread]
      dsimp only
      rw [if_neg (not_not.2 hversion), if_neg (by omega), if_neg hgone]
      have hkept := h.turn
      rw [hturn] at hkept
      have hless : inbuf.length - off'.toNat < kHeaderSize * k := by
        rw [Nat.mul_succ] at hk
        omega
      rw [after, ih hkept hless, hoff']
      rfl

/-- From a state of a run the inner loop is over after so many turns. -/
theorem turns_end {r : Reader} (h : Kept r) : Idle (turns (r.inbuf.length / kHeaderSize + 1) r).2 := by
  obtain ⟨inbuf, pc⟩ := r
  cases pc with
  | recv | dead why =>
    intro off hpc
    cases hpc
  | inner off =>
    have hk : inbuf.length - off.toNat < kHeaderSize * (inbuf.length / kHeaderSize + 1) := by
      have hlt : inbuf.length < kHeaderSize * (inbuf.length / kHeaderSize + 1) := Nat.lt_mul_div_succ _ (by decide)
      omega
    rw [turns_parse h hk]
    exact idle_ended inbuf _

/-- The machine does in a round what `receive` says. -/
theorem turns_receive {inbuf : Bytes} (h : Kept ⟨inbuf, .recv⟩) (c : Chunk) :
    turns (inbuf ++ c.1).length ⟨inbuf ++ c.1, .inner 0⟩ = ((receive inbuf c.1).1,
      ⟨(receive inbuf c.1).2.1, (receive inbuf c.1).2.2.elim .recv .dead⟩) := by
  have hkept : Kept ⟨inbuf ++ c.1, .inner 0⟩ := h.next (e := .chunk c) rfl
  have hcap : (inbuf ++ c.1).length ≤ kMost := hkept.cap
  have hk : (inbuf ++ c.1).length - (0 : UInt64).toNat < kHeaderSize * (inbuf ++ c.1).length := by
    have hpos : 0 < (inbuf ++ c.1).length := by
      rw [List.length_append]
      exact Nat.add_pos_right _ c.2.1
    have hheader : kHeaderSize = 12 := rfl
    rw [hheader]
    omega
  have hzero : (0 : UInt64).toNat = 0 := rfl
  rw [turns_parse hkept hk, receive, hzero]
  generalize parse_frames (inbuf ++ c.1) (inbuf ++ c.1).length 0 = parsed
  obtain ⟨frames, off, death⟩ := parsed
  cases death with
  | some why => rfl
  | none =>
    have hdrop : ((inbuf ++ c.1).drop off).length ≤ kMost := (List.drop_suffix off _).length_le.trans hcap
    simp only [ended, leave]
    generalize (inbuf ++ c.1).drop off = rest at hdrop ⊢
    have hcapped : kBufferCap.toUInt64 < size rest ↔ kBufferCap < rest.length := by
      rw [UInt64.lt_iff_toNat_lt, size_toNat hdrop]
      rfl
    by_cases hlong : kBufferCap < rest.length
    · rw [if_pos (hcapped.2 hlong), if_pos hlong]
      rfl
    · rw [if_neg (mt hcapped.1 hlong), if_neg hlong]
      rfl

/-- In every state that bytes of a peer lead to, in chunks of any sizes: what is looked
at lies in the buffer, the offset does not pass its end and moves on by a header at
least, so that the inner loop ends; the buffer stays within its bounds, and after a
round no complete frame is left in it. -/
theorem read_loop_safe {r : Reader} (h : Reaches step (· = start) r) :
    Safe r ∧ Idle (turns (r.inbuf.length / kHeaderSize + 1) r).2 :=
  ⟨(kept_run h).safe, turns_end (kept_run h)⟩

/-- A header that announces 4 GiB, with one byte behind it. -/
theorem read_loop_safe_hostile :
    Safe ⟨[0, 0, 0, 0, 0, 0, 0, 1, 255, 255, 255, 255, 7], .inner 0⟩ ∧
      (turns 2 ⟨[0, 0, 0, 0, 0, 0, 0, 1, 255, 255, 255, 255, 7], .inner 0⟩).2 =
        ⟨[0, 0, 0, 0, 0, 0, 0, 1, 255, 255, 255, 255, 7], .recv⟩ := by
  have hreach : Reaches step (· = start) ⟨[0, 0, 0, 0, 0, 0, 0, 1, 255, 255, 255, 255, 7], .inner 0⟩ :=
    .step (a := .chunk ⟨[0, 0, 0, 0, 0, 0, 0, 1, 255, 255, 255, 255, 7], by decide⟩) (.init rfl) rfl
  exact ⟨(read_loop_safe hreach).1, by decide +kernel⟩

end Hostely.Tunnel.ReadLoop
