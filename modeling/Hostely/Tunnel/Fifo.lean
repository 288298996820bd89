import Hostely.Lib.Runs
import Hostely.Tunnel.Mux
/-!
# A stream as a queue of bytes

The reader of the session pushes into a `MuxStream` while others read from it, as
many bytes as they ask for or as there are. Every operation holds the mutex of the
stream; `read` gives it up between its turns, while there is nothing to return.
-/

open Hostely.Lib

namespace Hostely.Tunnel

/-- A length that a reader asks for. -/
abbrev Len := { n : Nat // 1 ≤ n ∧ n ≤ 2147483647 }

/-- `static_cast<int>` of the number of bytes; -1 when there are none yet. -/
def result (read : Option Bytes) : Int32 := read.elim (-1) fun d => Int32.ofNat d.length

/-- A stream, the threads that are inside `read`, and what went in and came out, call
by call. -/
structure Queue where
  stream : MuxStream
  reading : Nat → Option Len
  pushed : List Bytes
  returned : List Bytes

namespace Queue

inductive Act where
  | push_data (d : Bytes)
  | try_read (len : Len)
  /-- A thread calls `read`. -/
  | read (thread : Nat) (len : Len)
  /-- A thread inside `read` has the mutex and looks at the buffer. -/
  | turn (thread : Nat)
  | close

/-- What a step returns to a caller. -/
inductive Reply where
  | nothing
  | try_read (n : Int32)
  | read (n : Int32)
deriving DecidableEq

/-- The bytes read are the caller's, and gone from the stream. -/
def took (q : Queue) (read : Option Bytes × MuxStream) : Queue :=
  { q with stream := read.2, returned := q.returned ++ read.1.toList }

def next (q : Queue) : Act → Option (Queue × Reply)
  | .push_data d => some ({ q with stream := q.stream.push_data d, pushed := q.pushed ++ [d] }, .nothing)
  | .try_read len =>
    let read := q.stream.try_read len.1
    some (q.took read, .try_read (result read.1))
  | .read thread len =>
    if (q.reading thread).isSome then none
    else some ({ q with reading := Function.update q.reading thread (some len) }, .nothing)
  | .turn thread => (q.reading thread).map fun len =>
    let read := q.stream.try_read len.1
    -- it goes on waiting where `try_read` would return -1
    if read.1 = none then (q, .nothing)
    else ({ q.took read with reading := Function.update q.reading thread none }, .read (result read.1))
  | .close => some ({ q with stream := { q.stream with closed := true } }, .nothing)

def step (q : Queue) (a : Act) (r : Queue) : Prop := ∃ reply, q.next a = some (r, reply)

def initial (q : Queue) : Prop := ∃ id, q = ⟨MuxStream.new id, fun _ => none, [], []⟩

/-! ## One look at the buffer -/

/-- What `try_read` takes, and when it has nothing. -/
theorem try_read_cases (s : MuxStream) (len : Len) :
    (s.buffer = [] ∧ s.closed = false ∧ s.try_read len.1 = (none, s)) ∨
    (s.buffer = [] ∧ s.closed = true ∧ s.try_read len.1 = (some [], s)) ∨
      ∃ d rest, d ≠ [] ∧ d.length ≤ 2147483647 ∧ s.buffer = d ++ rest ∧
        s.try_read len.1 = (some d, { s with buffer := rest }) := by
  by_cases hb : s.buffer = []
  · cases hc : s.closed with
    | false => exact .inl ⟨hb, rfl, by simp [MuxStream.try_read, hb, hc]⟩
    | true => exact .inr (.inl ⟨hb, rfl, by simp [MuxStream.try_read, hb, hc]⟩)
  · refine .inr (.inr ⟨s.buffer.take len.1, s.buffer.drop len.1, ?_, ?_, ?_, ?_⟩)
    · obtain ⟨n, h1, -⟩ := len
      simp only [ne_eq, List.take_eq_nil_iff, not_or]
      exact ⟨by omega, hb⟩
    · exact (List.length_take_le _ _).trans len.2.2
    · exact (List.take_append_drop _ _).symm
    · rw [MuxStream.try_read, if_neg hb]

theorem result_some {d : Bytes} (h : d.length ≤ 2147483647) : (result (some d)).toInt = d.length :=
  Int32.toInt_ofNat_of_lt (Nat.lt_succ_of_le h)

/-! ## What a step does -/

/-- The stream gets more, loses what a reader gets, or is closed; or only the threads
inside `read` change. -/
theorem next_cases {q r : Queue} {a : Act} {reply : Reply} (h : q.next a = some (r, reply)) :
    (∃ d, r = { q with stream := q.stream.push_data d, pushed := q.pushed ++ [d] } ∧ reply = .nothing) ∨
    (∃ len : Len, r = q.took (q.stream.try_read len.1) ∧ reply = .try_read (result (q.stream.try_read len.1).1)) ∨
    (∃ reading, r = { q with reading := reading } ∧ reply = .nothing) ∨
    (∃ (len : Len) (reading : Nat → Option Len), (q.stream.try_read len.1).1 ≠ none ∧
      r = { q.took (q.stream.try_read len.1) with reading := reading } ∧
      reply = .read (result (q.stream.try_read len.1).1)) ∨
    (r = { q with stream := { q.stream with closed := true } } ∧ reply = .nothing) := by
  cases a with
  | push_data d =>
    obtain ⟨rfl, rfl⟩ := Prod.mk.inj (Option.some.inj h)
    exact .inl ⟨d, rfl, rfl⟩
  | try_read len =>
    obtain ⟨rfl, rfl⟩ := Prod.mk.inj (Option.some.inj h)
    exact .inr (.inl ⟨len, rfl, rfl⟩)
  | read thread len =>
    obtain ⟨-, h⟩ := Option.ite_none_left_eq_some.1 h
    obtain ⟨rfl, rfl⟩ := Prod.mk.inj (Option.some.inj h)
    exact .inr (.inr (.inl ⟨_, rfl, rfl⟩))
  | turn thread =>
    obtain ⟨len, -, h⟩ := Option.map_eq_some_iff.1 h
    dsimp only at h
    split at h
    · obtain ⟨rfl, rfl⟩ := Prod.mk.inj h
      exact .inr (.inr (.inl ⟨q.reading, rfl, rfl⟩))
    · obtain ⟨rfl, rfl⟩ := Prod.mk.inj h
      exact .inr (.inr (.inr (.inl ⟨len, _, ‹_›, rfl, rfl⟩)))
  | close =>
    obtain ⟨rfl, rfl⟩ := Prod.mk.inj (Option.some.inj h)
    exact .inr (.inr (.inr (.inr ⟨rfl, rfl⟩)))

/-! ## Lossless -/

/-- What came out and what is left is what went in. -/
def Lossless (q : Queue) : Prop := q.returned.flatten ++ q.stream.buffer = q.pushed.flatten

theorem lossless_took {q : Queue} (h : q.Lossless) (len : Len) : (q.took (q.stream.try_read len.1)).Lossless := by
  rcases try_read_cases q.stream len with ⟨-, -, hread⟩ | ⟨-, -, hread⟩ | ⟨d, rest, -, -, hbuf, hread⟩
  · rw [hread]
    simpa [Lossless, took] using h
  · rw [hread]
    simpa [Lossless, took] using h
  · rw [Lossless, hbuf] at h
    rw [hread, Lossless, took, ← h]
    simp

theorem lossless_step {q r : Queue} {a : Act} (h : q.Lossless) (hstep : q.step a r) : r.Lossless := by
  obtain ⟨reply, hnext⟩ := hstep
  rcases next_cases hnext with ⟨d, rfl, -⟩ | ⟨len, rfl, -⟩ | ⟨reading, rfl, -⟩ | ⟨len, reading, -, rfl, -⟩ | ⟨rfl, -⟩
  · rw [Lossless] at h ⊢
    simp [MuxStream.push_data, ← h]
  · exact lossless_took h len
  · exact h
  · exact lossless_took h len
  · exact h

theorem lossless_run {q : Queue} (h : Reaches step initial q) : q.Lossless := by
  refine h.inv (fun q hq => ?_) fun _ _ _ hq hstep => lossless_step hq hstep
  obtain ⟨id, rfl⟩ := hq
  rfl

/-! ## Results -/

/-- What a result says about the stream it was read from: -1 that it is empty and open,
0 that it is empty and closed, and any other how many bytes were returned. -/
structure Tells (q r : Queue) (n : Int32) : Prop where
  none_yet : n = -1 → q.stream.buffer = [] ∧ q.stream.closed = false
  at_end : n = 0 → q.stream.buffer = [] ∧ q.stream.closed = true
  bytes : n ≠ -1 → ∃ d, r.returned = q.returned ++ [d] ∧ n.toInt = d.length

theorem result_none : result none ≠ 0 := by decide

theorem result_nil : result (some []) ≠ -1 := by decide

theorem tells_took (q : Queue) (len : Len) :
    Tells q (q.took (q.stream.try_read len.1)) (result (q.stream.try_read len.1).1) := by
  rcases try_read_cases q.stream len with ⟨hbuf, hopen, hread⟩ | ⟨hbuf, hclosed, hread⟩ | ⟨d, rest, hne, hlen, -, hread⟩
  · rw [hread]
    exact ⟨fun _ => ⟨hbuf, hopen⟩, fun h => absurd h result_none, fun h => absurd rfl h⟩
  · rw [hread]
    exact ⟨fun h => absurd h result_nil, fun _ => ⟨hbuf, hclosed⟩, fun _ => ⟨[], rfl, rfl⟩⟩
  · have hn := result_some hlen
    have hpos : 0 < d.length := List.length_pos_iff.2 hne
    rw [hread]
    refine ⟨fun h => ?_, fun h => ?_, fun _ => ⟨d, rfl, hn⟩⟩
    · rw [h] at hn
      have hneg : (-1 : Int32).toInt = -1 := by decide
      omega
    · rw [h] at hn
      have hzero : (0 : Int32).toInt = 0 := by decide
      omega

/-- Where there is something to return the result is not -1. -/
theorem result_ne {s : MuxStream} {len : Len} (h : (s.try_read len.1).1 ≠ none) : result (s.try_read len.1).1 ≠ -1 := by
  rcases try_read_cases s len with ⟨-, -, hread⟩ | ⟨-, -, hread⟩ | ⟨d, rest, -, hlen, -, hread⟩
  · rw [hread] at h
    exact absurd rfl h
  · rw [hread]
    exact result_nil
  · rw [hread]
    intro hneg
    have hn := result_some hlen
    have hint : (-1 : Int32).toInt = -1 := by decide
    rw [hneg] at hn
    omega

theorem reply_tells {q r : Queue} {a : Act} {reply : Reply} (h : q.next a = some (r, reply)) :
    (∀ n, reply = .try_read n → Tells q r n) ∧ ∀ n, reply = .read n → n ≠ -1 ∧ Tells q r n := by
  rcases next_cases h with ⟨d, rfl, rfl⟩ | ⟨len, rfl, rfl⟩ | ⟨reading, rfl, rfl⟩ | ⟨len, reading, hsome, rfl, rfl⟩ | ⟨rfl, rfl⟩
  · exact ⟨by simp, by simp⟩
  · refine ⟨fun n h => ?_, by simp⟩
    obtain rfl := Reply.try_read.inj h
    exact tells_took q len
  · exact ⟨by simp, by simp⟩
  · refine ⟨by simp, fun n h => ?_⟩
    obtain rfl := Reply.read.inj h
    have htold := tells_took q len
    exact ⟨result_ne hsome, htold.none_yet, htold.at_end, htold.bytes⟩
  · exact ⟨by simp, by simp⟩

/-- In every state that any interleaving of the operations reaches, the bytes returned
and then the buffer are the bytes pushed; and whatever step is taken there, a result
of `try_read` or `read` tells how the stream was. -/
theorem lossless_fifo {q : Queue} (h : Reaches step initial q) :
    q.returned.flatten ++ q.stream.buffer = q.pushed.flatten ∧
      ∀ a r reply, q.next a = some (r, reply) →
        (∀ n, reply = .try_read n → Tells q r n) ∧ ∀ n, reply = .read n → n ≠ -1 ∧ Tells q r n :=
  ⟨lossless_run h, fun _ _ _ => reply_tells⟩

/-- The state after some steps on a new stream, if they can be taken. -/
def run (acts : List Act) : Option Queue :=
  acts.foldlM (fun q a => (q.next a).map Prod.fst) ⟨MuxStream.new 1, fun _ => none, [], []⟩

theorem run_reaches {acts : List Act} {q : Queue} (h : run acts = some q) : Reaches step initial q := by
  refine Reaches.foldlM (fun q a r hnext => ?_) (.init ⟨1, rfl⟩) h
  obtain ⟨⟨r', reply⟩, hr, hnext⟩ := Option.map_eq_some_iff.1 hnext
  obtain rfl : r' = r := hnext
  exact ⟨reply, hr⟩

/-- A thread waits in `read` while four bytes come in and another takes two of them. -/
theorem lossless_fifo_four :
    ∃ q, run [.read 7 ⟨100, by decide, by decide⟩, .turn 7, .push_data [1, 2, 3], .push_data [4],
        .try_read ⟨2, by decide, by decide⟩, .turn 7] = some q ∧
      q.returned = [[1, 2], [3, 4]] ∧ q.returned.flatten ++ q.stream.buffer = q.pushed.flatten := by
  have hmap : (run [.read 7 ⟨100, by decide, by decide⟩, .turn 7, .push_data [1, 2, 3], .push_data [4],
      .try_read ⟨2, by decide, by decide⟩, .turn 7]).map returned = some [[1, 2], [3, 4]] := by decide +kernel
  obtain ⟨q, hrun, hreturned⟩ := Option.map_eq_some_iff.1 hmap
  exact ⟨q, hrun, hreturned, (lossless_fifo (run_reaches hrun)).1⟩

end Queue

end Hostely.Tunnel
