import Hostely.Lib.Text
/-!
# Frames on the wire

What `Mux::send_frame` writes and what `Mux::read_loop` makes of the bytes it
receives. The bytes arrive cut anywhere; the loop keeps what is left of an
unfinished frame for the next call of `recv`.
-/

open Hostely.Lib

namespace Hostely.Tunnel

def kYamuxVersion : UInt8 := 0

def kTypeData : UInt8 := 0
def kTypeWindowUpdate : UInt8 := 1
def kTypePing : UInt8 := 2
def kTypeGoAway : UInt8 := 3

def kFlagSyn : UInt16 := 1
def kFlagAck : UInt16 := 2
def kFlagFin : UInt16 := 4

def kHeaderSize : Nat := 12

def kDataFrameCap : Nat := 16 * 1024

/-- More than this is never kept of an unfinished frame. -/
def kBufferCap : Nat := 8 * 1024 * 1024

structure Frame where
  type : UInt8
  flags : UInt16
  stream_id : UInt32
  payload : Bytes
deriving DecidableEq, Repr

/-! ## Numbers, high byte first -/

def put_u16 (v : UInt16) : Bytes := [(v.toNat / 256).toUInt8, v.toNat.toUInt8]

def put_u32 (v : UInt32) : Bytes :=
  [(v.toNat / 16777216).toUInt8, (v.toNat / 65536).toUInt8, (v.toNat / 256).toUInt8, v.toNat.toUInt8]

def get_u16 (a b : UInt8) : UInt16 := (a.toNat * 256 + b.toNat).toUInt16

def get_u32 (a b c d : UInt8) : UInt32 :=
  (a.toNat * 16777216 + b.toNat * 65536 + c.toNat * 256 + d.toNat).toUInt32

theorem get_put_u16 (v : UInt16) : get_u16 (v.toNat / 256).toUInt8 v.toNat.toUInt8 = v := by
  have hv := v.toNat_lt
  apply UInt16.toNat.inj
  simp [get_u16]
  omega

theorem get_put_u32 (v : UInt32) :
    get_u32 (v.toNat / 16777216).toUInt8 (v.toNat / 65536).toUInt8 (v.toNat / 256).toUInt8 v.toNat.toUInt8 = v := by
  have hv := v.toNat_lt
  apply UInt32.toNat.inj
  simp [get_u32]
  omega

/-! ## send_frame -/

def header (f : Frame) : Bytes :=
  [kYamuxVersion, f.type] ++ put_u16 f.flags ++ put_u32 f.stream_id ++ put_u32 f.payload.length.toUInt32

def frame_bytes (f : Frame) : Bytes := header f ++ f.payload

/-- The loop around `::send` with its answers, the bytes that went out and whether
all did. It never takes more than it is given. -/
def send_loop : List Int → Bytes → Bytes × Bool
  | _, [] => ([], true)
  | [], _ :: _ => ([], false)
  | n :: answers, out =>
    if n ≤ 0 then ([], false)
    else
      let (sent, ok) := send_loop answers (out.drop n.toNat)
      (out.take n.toNat ++ sent, ok)

def send_frame (answers : List Int) (f : Frame) : Bytes × Bool := send_loop answers (frame_bytes f)

/-- Where the loop succeeds everything went out, in order. -/
theorem send_loop_ok {answers : List Int} {out : Bytes} (h : (send_loop answers out).2 = true) :
    (send_loop answers out).1 = out := by
  induction answers generalizing out with
  | nil =>
    cases out with
    | nil => rfl
    | cons b out => cases h
  | cons n answers ih =>
    cases out with
    | nil => rfl
    | cons b out =>
      unfold send_loop at h ⊢
      split at h
      · cases h
      · rename_i hn
        rw [if_neg hn]
        dsimp only at h ⊢
        rw [ih h, List.take_append_drop]

/-! ## read_loop -/

structure Header where
  version : UInt8
  type : UInt8
  flags : UInt16
  stream_id : UInt32
  length : UInt32
deriving DecidableEq, Repr

/-- The header at the start of these bytes, if it is there whole. -/
def read_header : Bytes → Option Header
  | v :: t :: f₁ :: f₂ :: a :: b :: c :: d :: l₁ :: l₂ :: l₃ :: l₄ :: _ =>
    some ⟨v, t, get_u16 f₁ f₂, get_u32 a b c d, get_u32 l₁ l₂ l₃ l₄⟩
  | _ => none

/-- Why the loop ends. -/
inductive Death where
  /-- `recv` gives nothing. -/
  | closed
  | bad_version
  | go_away
  | too_much
deriving DecidableEq, Repr

/-- The loop over the complete frames of `inbuf` from `off` on, with the frames
that reach the switch over the type; each takes a header at least, so the
length of `inbuf` is enough fuel. -/
def parse_frames (inbuf : Bytes) : Nat → Nat → List Frame × Nat × Option Death
  | 0, off => ([], off, none)
  | fuel + 1, off =>
    match read_header (inbuf.drop off) with
    | none => ([], off, none)
    | some h =>
      let plen := h.length.toNat
      if h.version ≠ kYamuxVersion then ([], off, some .bad_version)
      else if inbuf.length - off - kHeaderSize < plen then ([], off, none)
      else
        let f : Frame := ⟨h.type, h.flags, h.stream_id, (inbuf.drop (off + kHeaderSize)).take plen⟩
        if h.type = kTypeGoAway then ([f], off, some .go_away)
        else
          let (frames, rest) := parse_frames inbuf fuel (off + kHeaderSize + plen)
          (f :: frames, rest)

/-- One round: what `recv` gave is put behind what was left. -/
def receive (inbuf chunk : Bytes) : List Frame × Bytes × Option Death :=
  let inbuf := inbuf ++ chunk
  match parse_frames inbuf inbuf.length 0 with
  | (frames, _, some death) => (frames, inbuf, some death)
  | (frames, off, none) =>
    let inbuf := inbuf.drop off
    (frames, inbuf, if kBufferCap < inbuf.length then some .too_much else none)

/-- The frames dispatched, what is left of the bytes, and how the loop ended; it is
waiting in `recv` when it has not. An empty chunk is a `recv` that gives nothing. -/
def read_loop (inbuf : Bytes) : List Bytes → List Frame × Bytes × Option Death
  | [] => ([], inbuf, none)
  | chunk :: chunks =>
    if chunk = [] then ([], inbuf, some .closed)
    else match receive inbuf chunk with
      | (frames, inbuf, some death) => (frames, inbuf, some death)
      | (frames, inbuf, none) =>
        let (frames', rest) := read_loop inbuf chunks
        (frames ++ frames', rest)

/-! ## A frame is read back -/

theorem read_header_none {s : Bytes} (h : s.length < kHeaderSize) : read_header s = none := by
  unfold read_header
  split
  · simp only [List.length_cons, kHeaderSize] at h
    omega
  · rfl

theorem header_length (f : Frame) : (header f).length = kHeaderSize := rfl

/-- The header of a frame is read from any bytes that start with it. -/
theorem read_header_append (f : Frame) (rest : Bytes) :
    read_header (header f ++ rest) =
      some ⟨kYamuxVersion, f.type, f.flags, f.stream_id, f.payload.length.toUInt32⟩ := by
  simp only [header, put_u16, put_u32, List.cons_append, List.nil_append, read_header]
  rw [get_put_u16, get_put_u32, get_put_u32]

/-- The frames the loop is to read: small enough, and none that ends the session. -/
structure Sendable (f : Frame) : Prop where
  cap : f.payload.length ≤ kDataFrameCap
  go_on : f.type ≠ kTypeGoAway

theorem Sendable.length {f : Frame} (h : Sendable f) : f.payload.length.toUInt32.toNat = f.payload.length := by
  have hcap : f.payload.length ≤ 16384 := h.cap
  have hval : f.payload.length.toUInt32.toNat = f.payload.length % 4294967296 := rfl
  omega

/-- Too few bytes of this frame are there to read it. -/
def Unfinished (buf : Bytes) (f : Frame) : Prop := buf.length < kHeaderSize + f.payload.length

/-- Bytes that start a stream of frames hold a part of the first frame, or all of it
and a start of the others. -/
theorem start_cases {buf later rest : Bytes} {f : Frame} (h : buf ++ later = frame_bytes f ++ rest) :
    Unfinished buf f ∨ ∃ buf', buf = frame_bytes f ++ buf' ∧ buf' ++ later = rest := by
  have hlen : (frame_bytes f).length = kHeaderSize + f.payload.length := by
    rw [frame_bytes, List.length_append, header_length]
  by_cases hlong : (frame_bytes f).length ≤ buf.length
  · rcases List.append_eq_append_iff.1 h with ⟨a, ha, hb⟩ | ⟨buf', hbuf, hrest⟩
    · -- the buffer ends with the frame
      have ha' : a = [] := by
        have := congrArg List.length ha
        rw [List.length_append] at this
        exact List.length_eq_zero_iff.1 (by omega)
      subst ha'
      exact .inr ⟨[], by simpa using ha.symm, by simpa using hb⟩
    · exact .inr ⟨buf', hbuf, hrest.symm⟩
  · refine .inl ?_
    rw [Unfinished]
    omega

/-! ## The loop on a stream of frames -/

/-- The bytes of the frames, one after the other. -/
def stream_bytes (fs : List Frame) : Bytes := (fs.map frame_bytes).flatten

/-- What is left of the buffer is less than the next frame. -/
def Waiting (buf : Bytes) (fs : List Frame) : Prop := ∀ f, fs.head? = some f → Unfinished buf f

theorem parse_frames_unfinished {inbuf later rest : Bytes} {fuel off : Nat} {f : Frame} (hf : Sendable f)
    (h : inbuf.drop off ++ later = frame_bytes f ++ rest) (hlen : Unfinished (inbuf.drop off) f) :
    parse_frames inbuf (fuel + 1) off = ([], off, none) := by
  unfold parse_frames
  by_cases hshort : (inbuf.drop off).length < kHeaderSize
  · rw [read_header_none hshort]
  · obtain ⟨t, ht⟩ : header f <+: inbuf.drop off := by
      have hprefix : header f <+: inbuf.drop off ++ later := by
        rw [h, frame_bytes, List.append_assoc]
        exact List.prefix_append _ _
      exact List.prefix_of_prefix_length_le hprefix (List.prefix_append _ _) (by rw [header_length]; omega)
    have hplen : inbuf.length - off - kHeaderSize < f.payload.length := by
      rw [Unfinished, List.length_drop] at hlen
      rw [List.length_drop] at hshort
      omega
    rw [← ht, read_header_append]
    simp [hf.length, hplen]

theorem parse_frames_finished {inbuf buf : Bytes} {fuel off : Nat} {f : Frame} (hf : Sendable f)
    (h : inbuf.drop off = frame_bytes f ++ buf) :
    parse_frames inbuf (fuel + 1) off =
      (f :: (parse_frames inbuf fuel (off + kHeaderSize + f.payload.length)).1,
        (parse_frames inbuf fuel (off + kHeaderSize + f.payload.length)).2) := by
  have hlen : inbuf.length - off = kHeaderSize + f.payload.length + buf.length := by
    have := congrArg List.length h
    rw [List.length_drop, List.length_append, frame_bytes, List.length_append, header_length] at this
    exact this
  have hplen : ¬ inbuf.length - off - kHeaderSize < f.payload.length := by omega
  have hpayload : (inbuf.drop (off + kHeaderSize)).take f.payload.length = f.payload := by
    rw [← List.drop_drop, h, frame_bytes, List.append_assoc, ← header_length f, List.drop_left, List.take_left]
  rw [parse_frames, h, frame_bytes, List.append_assoc, read_header_append]
  simp [hf.length, hplen, hpayload, hf.go_on]

/-- The inner loop takes the frames that are there whole. -/
theorem parse_frames_stream {inbuf later : Bytes} {fuel off : Nat} {fs : List Frame} (hs : ∀ f ∈ fs, Sendable f)
    (hfuel : (inbuf.drop off).length ≤ fuel) (h : inbuf.drop off ++ later = stream_bytes fs) :
    ∃ fs₁ fs₂ off', fs = fs₁ ++ fs₂ ∧ parse_frames inbuf fuel off = (fs₁, off', none) ∧
      inbuf.drop off' ++ later = stream_bytes fs₂ ∧ Waiting (inbuf.drop off') fs₂ := by
  induction fuel generalizing off fs with
  | zero =>
    have hnil : inbuf.drop off = [] := List.length_eq_zero_iff.1 (Nat.le_zero.1 hfuel)
    refine ⟨[], fs, off, rfl, rfl, h, fun f _ => ?_⟩
    rw [hnil, Unfinished, kHeaderSize, List.length_nil]
    omega
  | succ fuel ih =>
    cases fs with
    | nil =>
      have hnil : inbuf.drop off = [] := (List.append_eq_nil_iff.1 h).1
      refine ⟨[], [], off, rfl, ?_, h, fun f hf => by cases hf⟩
      rw [parse_frames, hnil]
      rfl
    | cons f fs =>
      have hf : Sendable f := hs f List.mem_cons_self
      have hfirst : inbuf.drop off ++ later = frame_bytes f ++ stream_bytes fs := h
      rcases start_cases hfirst with hshort | ⟨buf', hbuf, hlater⟩
      · -- the loop waits for the rest of this frame
        refine ⟨[], f :: fs, off, rfl, parse_frames_unfinished hf hfirst hshort, h, ?_⟩
        intro f' hf'
        obtain rfl := Option.some.inj hf'
        exact hshort
      · have hdrop : inbuf.drop (off + kHeaderSize + f.payload.length) = buf' := by
          have hlen : (frame_bytes f).length = kHeaderSize + f.payload.length := by
            rw [frame_bytes, List.length_append, header_length]
          rw [Nat.add_assoc, ← hlen, ← List.drop_drop, hbuf, List.drop_left]
        have hfuel' : buf'.length ≤ fuel := by
          rw [hbuf, List.length_append, frame_bytes, List.length_append, header_length, kHeaderSize] at hfuel
          omega
        obtain ⟨fs₁, fs₂, off', rfl, hparse, hrest, hwait⟩ :=
          ih (fun x hx => hs x (List.mem_cons_of_mem _ hx)) (hdrop ▸ hfuel') (hdrop ▸ hlater)
        refine ⟨f :: fs₁, fs₂, off', rfl, ?_, hrest, hwait⟩
        rw [parse_frames_finished hf hbuf, hparse]

/-- A round takes the frames that are there whole and keeps the rest. -/
theorem receive_stream {inbuf chunk later : Bytes} {fs : List Frame} (hs : ∀ f ∈ fs, Sendable f)
    (h : inbuf ++ chunk ++ later = stream_bytes fs) :
    ∃ fs₁ fs₂ buf, fs = fs₁ ++ fs₂ ∧ receive inbuf chunk = (fs₁, buf, none) ∧ buf ++ later = stream_bytes fs₂ ∧
      Waiting buf fs₂ := by
  have hfuel : ((inbuf ++ chunk).drop 0).length ≤ (inbuf ++ chunk).length := le_rfl
  obtain ⟨fs₁, fs₂, off, rfl, hparse, hrest, hwait⟩ := parse_frames_stream hs hfuel h
  -- less than a frame of 16 KiB is left, far below the cap of the buffer
  have hcap : ¬ kBufferCap < ((inbuf ++ chunk).drop off).length := by
    cases fs₂ with
    | nil =>
      rw [(List.append_eq_nil_iff.1 hrest).1]
      exact Nat.not_lt_zero _
    | cons f fs =>
      have hshort : ((inbuf ++ chunk).drop off).length < 12 + f.payload.length := hwait f rfl
      have hpayload : f.payload.length ≤ 16384 := (hs f (by simp)).cap
      have hbound : kBufferCap = 8388608 := rfl
      omega
  refine ⟨fs₁, fs₂, (inbuf ++ chunk).drop off, rfl, ?_, hrest, hwait⟩
  rw [receive]
  simp only [hparse, hcap, if_false]

theorem read_loop_stream {inbuf : Bytes} {chunks : List Bytes} {fs : List Frame} (hs : ∀ f ∈ fs, Sendable f)
    (hchunks : ∀ c ∈ chunks, 0 < c.length) (hwait : Waiting inbuf fs)
    (h : inbuf ++ chunks.flatten = stream_bytes fs) : read_loop inbuf chunks = (fs, [], none) := by
  induction chunks generalizing inbuf fs with
  | nil =>
    rw [List.flatten_nil, List.append_nil] at h
    cases fs with
    | nil =>
      obtain rfl : inbuf = [] := h
      rfl
    | cons f fs =>
      -- a whole frame is not left lying in the buffer
      have hshort : inbuf.length < kHeaderSize + f.payload.length := hwait f rfl
      have hlen := congrArg List.length h
      rw [stream_bytes, List.map_cons, List.flatten_cons, List.length_append, frame_bytes, List.length_append,
        header_length] at hlen
      omega
  | cons c chunks ih =>
    rw [List.flatten_cons, ← List.append_assoc] at h
    obtain ⟨fs₁, fs₂, buf, rfl, hreceive, hrest, hwait'⟩ := receive_stream hs h
    have hne : c ≠ [] := fun hc => absurd (hchunks c List.mem_cons_self) (by rw [hc]; exact lt_irrefl 0)
    rw [read_loop, if_neg hne, hreceive]
    simp only [ih (fun f hf => hs f (List.mem_append_right _ hf)) (fun x hx => hchunks x (List.mem_cons_of_mem _ hx))
      hwait' hrest]

/-- Frames that `send_frame` got out, each with the answers of `::send`, are
dispatched by the loop on the other side as they were sent, however `recv` cuts
the bytes, and the loop goes on waiting for more. -/
theorem frames_arrive {sent : List (List Int × Frame)} {chunks : List Bytes}
    (hsent : ∀ x ∈ sent, (send_frame x.1 x.2).2 = true) (hcap : ∀ x ∈ sent, x.2.payload.length ≤ kDataFrameCap)
    (htype : ∀ x ∈ sent, x.2.type ≠ kTypeGoAway) (hchunks : ∀ c ∈ chunks, 1 ≤ c.length ∧ c.length ≤ 65536)
    (hcut : chunks.flatten = (sent.map fun x => (send_frame x.1 x.2).1).flatten) :
    read_loop [] chunks = (sent.map Prod.snd, [], none) := by
  have hbytes : (sent.map fun x => (send_frame x.1 x.2).1) = (sent.map Prod.snd).map frame_bytes := by
    rw [List.map_map]
    exact List.map_congr_left fun x hx => send_loop_ok (hsent x hx)
  apply read_loop_stream
  · rintro f hf
    obtain ⟨x, hx, rfl⟩ := List.mem_map.1 hf
    exact ⟨hcap x hx, htype x hx⟩
  · exact fun c hc => (hchunks c hc).1
  · rintro f -
    rw [Unfinished, kHeaderSize, List.length_nil]
    omega
  · rw [List.nil_append, hcut, hbytes, stream_bytes]

/-- Two frames, the first sent in two parts, arrive in three pieces. -/
theorem frames_arrive_cut : read_loop []
    [[0, 0, 0], [0, 0, 0, 0, 1, 0, 0, 0, 2, 65], [66, 0, 1, 0, 4, 0, 0, 0, 1, 0, 0, 0, 0]] =
    ([⟨kTypeData, 0, 1, [65, 66]⟩, ⟨kTypeWindowUpdate, kFlagFin, 1, []⟩], [], none) :=
  @frames_arrive [([5, 20], ⟨kTypeData, 0, 1, [65, 66]⟩), ([12], ⟨kTypeWindowUpdate, kFlagFin, 1, []⟩)] _
    (by decide) (by decide) (by decide) (by decide) (by decide)

end Hostely.Tunnel
