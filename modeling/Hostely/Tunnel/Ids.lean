import Hostely.Tunnel.Teardown
import Mathlib.Algebra.Group.Nat.Defs
/-!
# Stream ids

`next_id_` starts at 1 on the client's side and at 2 on the server's, and every
`open_stream` takes it and adds two, in 32 bits. No call looks whether the id is
0, or whether it is in use: the counter comes round after 2^31 calls, and a peer
may send a SYN for any id.
-/

open Hostely.Lib

namespace Hostely.Tunnel

/-! ## Counting by two in 32 bits -/

def first_id (client : Bool) : Nat := if client then 1 else 2

/-- The id that the call of `open_stream` after `k` others takes. -/
def nth_id (client : Bool) (k : Nat) : UInt32 := UInt32.ofNat (first_id client + 2 * k)

theorem first_id_cases (client : Bool) :
    (client = true ∧ first_id client = 1) ∨ (client = false ∧ first_id client = 2) := by
  cases client with
  | true => exact .inl ⟨rfl, rfl⟩
  | false => exact .inr ⟨rfl, rfl⟩

theorem nth_id_toNat (client : Bool) (k : Nat) : (nth_id client k).toNat = (first_id client + 2 * k) % 2 ^ 32 :=
  UInt32.toNat_ofNat'

theorem nth_id_succ (client : Bool) (k : Nat) : nth_id client k + 2 = nth_id client (k + 1) := by
  apply UInt32.toNat_inj.1
  rw [UInt32.toNat_add, nth_id_toNat, nth_id_toNat]
  have htwo : (2 : UInt32).toNat = 2 := rfl
  omega

theorem nth_id_parity (client : Bool) (k : Nat) : (nth_id client k).toNat % 2 = if client then 1 else 0 := by
  rw [nth_id_toNat]
  rcases first_id_cases client with ⟨rfl, hfirst⟩ | ⟨rfl, hfirst⟩
  · rw [hfirst, if_pos rfl]
    omega
  · rw [hfirst, if_neg (by decide)]
    omega

/-- Only a server comes to the id of the session itself. -/
theorem nth_id_eq_zero (client : Bool) (k : Nat) : nth_id client k = 0 ↔ client = false ∧ (k + 1) % 2 ^ 31 = 0 := by
  have hzero : nth_id client k = 0 ↔ (nth_id client k).toNat = 0 := UInt32.toNat_inj.symm
  rw [hzero, nth_id_toNat]
  rcases first_id_cases client with ⟨rfl, hfirst⟩ | ⟨rfl, hfirst⟩
  · rw [hfirst]
    refine ⟨fun h => ?_, fun h => by cases h.1⟩
    omega
  · rw [hfirst]
    refine ⟨fun h => ⟨rfl, ?_⟩, fun h => ?_⟩
    · omega
    · have := h.2
      omega

/-- Two calls take the same id if a multiple of 2^31 calls lies between them. -/
theorem nth_id_eq_iff (client : Bool) {j k : Nat} (h : j ≤ k) : nth_id client j = nth_id client k ↔ (k - j) % 2 ^ 31 = 0 := by
  have hnat : nth_id client j = nth_id client k ↔ (nth_id client j).toNat = (nth_id client k).toNat := UInt32.toNat_inj.symm
  rw [hnat, nth_id_toNat, nth_id_toNat]
  generalize first_id client = start
  omega

/-! ## Runs -/

/-- A session with the streams that `open_stream` handed out: their ids and objects,
in their order. -/
structure Side where
  session : Session
  own : List (UInt32 × Nat)
deriving DecidableEq, Repr

def Side.new (client : Bool) : Side := ⟨.new client, []⟩

section
variable (socket : Nat → List Int)

/-- What `open_stream` hands out: nothing when the call does not return. -/
def Mux.hands_out (m : Mux) : List (UInt32 × Nat) :=
  match Mux.open_stream socket [] m with
  | .ok (i, m') => [((m'.objects[i]?.map MuxStream.id).getD 0, i)]
  | .error _ => []

def Side.next (s : Side) (e : Event) : Option Side :=
  (s.session.next socket e).map fun t =>
    ⟨t, s.own ++ if e = .act .open_stream then s.session.mux.hands_out socket else []⟩

/-- `P` holds before each call of `open_stream` in the run. -/
def at_opens (P : Side → Prop) : Side → List Event → Prop
  | _, [] => True
  | s, e :: es =>
    match s.next socket e with
    | none => True
    | some t => (e = .act .open_stream → P s) ∧ at_opens P t es

/-- The id that `open_stream` takes here is not that of the session, has the side's
parity and belongs to no stream that the side opened and that is still open. What it
replaces in the table is closed. -/
structure Side.Fresh (client : Bool) (s : Side) : Prop where
  hands_out : ∀ e ∈ s.session.mux.hands_out socket, e.1 = s.session.mux.next_id
  nonzero : s.session.mux.next_id ≠ 0
  parity : s.session.mux.next_id.toNat % 2 = if client then 1 else 0
  unused : ∀ e ∈ s.own, s.session.mux.closed e.2 = false → e.1 ≠ s.session.mux.next_id
  replaces : ∀ i, s.session.mux.streams.lookup s.session.mux.next_id = some i → s.session.mux.closed i = true

end

/-- A server does not come to the id 0, and the streams of the calls a multiple of
2^31 before this one are closed. The peer has no open stream under the next id. -/
structure Side.Room (client : Bool) (s : Side) : Prop where
  nonzero : client = false → (s.own.length + 1) % 2 ^ 31 ≠ 0
  earlier : ∀ j e, s.own[j]? = some e → (s.own.length - j) % 2 ^ 31 = 0 → s.session.mux.closed e.2 = true
  peer : ∀ i ∈ s.session.mux.opened, s.session.mux.streams.lookup s.session.mux.next_id = some i →
    s.session.mux.closed i = true

/-! ## What the ids go by -/

/-- The counter, the table and the streams of the peer. -/
def numbers (m : Mux) : UInt32 × List (UInt32 × Nat) × List Nat := (m.next_id, m.streams, m.opened)

section
variable {socket : Nat → List Int}

theorem numbers_tolerant : Mux.Tolerant fun m m' => numbers m' = numbers m := by
  constructor
  · exact fun _ => rfl
  · exact fun _ _ _ h₁ h₂ => h₂.trans h₁
  · exact fun _ _ _ => rfl
  · exact fun _ => rfl
  · exact fun _ _ _ _ => rfl

theorem numbers_closes_all (m : Mux) (is : List Nat) : numbers (m.closes_all is) = numbers m := by
  induction is generalizing m with
  | nil => rfl
  | cons i is ih => exact ih (m.closes i)

theorem numbers_polled (m : Mux) : numbers m.polled.2 = numbers m := by
  unfold Mux.polled
  cases m.dead with
  | true => rfl
  | false => cases m.pending_accept <;> rfl

/-- A new object stands in the table; which one it replaced does not matter. -/
theorem numbers_registers (m : Mux) (id : UInt32) :
    numbers (m.registers id) = (m.next_id, assign id m.objects.length m.streams, m.opened) := by
  unfold Mux.registers
  cases m.replaced id <;> rfl

theorem numbers_opens (m : Mux) :
    numbers m.opens = (m.next_id + 2, assign m.next_id m.objects.length m.streams, m.opened) :=
  numbers_registers m.numbered m.next_id

theorem numbers_offers (m : Mux) (sid : UInt32) :
    numbers (m.offers sid) = (m.next_id, assign sid m.objects.length m.streams, m.opened ++ [m.objects.length]) := by
  have hreg := numbers_registers m sid
  simp only [numbers, Prod.mk.injEq] at hreg
  obtain ⟨hnext, hstreams, hopened⟩ := hreg
  simp only [numbers, Mux.offers, Mux.log, Mux.offered, hnext, hstreams, hopened]

/-- The stream of the call is a new object with the id that was next. -/
theorem opens_id (m : Mux) : m.opens.objects[m.objects.length]?.map MuxStream.id = some m.next_id := by
  have hput : (m.numbered.put m.next_id).objects[m.objects.length]?.map MuxStream.id = some m.next_id := by
    simp [Mux.put, Mux.numbered, MuxStream.new]
  show (m.numbered.registers m.next_id).objects[m.objects.length]?.map MuxStream.id = some m.next_id
  unfold Mux.registers
  cases m.numbered.replaced m.next_id with
  | none => exact hput
  | some old =>
    -- closing the one it replaced keeps every id
    show ((m.numbered.put m.next_id).objects.modify old fun s => { s with closed := true })[m.objects.length]?.map
      MuxStream.id = some m.next_id
    rw [List.getElem?_modify, ← hput]
    cases (m.numbered.put m.next_id).objects[m.objects.length]? with
    | none => rfl
    | some s => by_cases hold : old = m.objects.length <;> simp [hold]

theorem hands_out_cases (m : Mux) :
    (Mux.open_stream socket [] m = .ok (m.objects.length, m.opens) ∧
        m.hands_out socket = [(m.next_id, m.objects.length)]) ∨
      (Mux.open_stream socket [] m = .error .mu ∧ m.hands_out socket = []) := by
  unfold Mux.hands_out
  rcases @Mux.open_stream_mu socket m with ⟨-, hok⟩ | ⟨-, herror⟩
  · rw [hok]
    refine .inl ⟨rfl, ?_⟩
    simp only [opens_id, Option.getD_some]
  · rw [herror]
    exact .inr ⟨rfl, rfl⟩

/-- A call of `open_stream` returns a new stream, or its thread keeps `mu_`. -/
theorem open_next {s t : Session} (h : s.next socket (.act .open_stream) = some t) :
    (t.mux = s.mux.opens ∧ s.mux.hands_out socket = [(s.mux.next_id, s.mux.objects.length)]) ∨
      (t.mux = s.mux ∧ s.mux.hands_out socket = []) := by
  unfold Session.next at h
  split at h
  · cases h
  · simp only [Act.by_reader, Bool.false_and, Bool.false_eq_true, if_false, Act.run] at h
    rcases @hands_out_cases socket s.mux with ⟨hok, hgives⟩ | ⟨herror, hnone⟩
    · rw [Locks.bind_ok hok] at h
      obtain rfl := Option.some.inj h
      exact .inl ⟨rfl, hgives⟩
    · rw [Locks.bind_error herror] at h
      obtain rfl := Option.some.inj h
      exact .inr ⟨rfl, hnone⟩

/-! ## The invariant -/

/-- The calls count on, and what stands in the table the side or the peer opened. -/
structure Numbered (client : Bool) (s : Side) : Prop where
  next : s.session.mux.next_id = nth_id client s.own.length
  ids : ∀ j e, s.own[j]? = some e → e.1 = nth_id client j
  table : ∀ e ∈ s.session.mux.streams, e.2 ∈ s.session.mux.opened ∨ e ∈ s.own

theorem numbered_new (client : Bool) : Numbered client (.new client) := by
  constructor
  · cases client <;> rfl
  · intro j e he
    cases he
  · intro e he
    cases he

variable {client : Bool}

theorem Numbered.same {s t : Side} (hs : Numbered client s) (hown : t.own = s.own)
    (hnumbers : numbers t.session.mux = numbers s.session.mux) : Numbered client t := by
  simp only [numbers, Prod.mk.injEq] at hnumbers
  obtain ⟨hnext, hstreams, hopened⟩ := hnumbers
  constructor
  · rw [hnext, hown]
    exact hs.next
  · rw [hown]
    exact hs.ids
  · rw [hstreams, hopened, hown]
    exact hs.table

theorem Numbered.opened {s t : Side} (hs : Numbered client s) (hmux : t.session.mux = s.session.mux.opens)
    (hown : t.own = s.own ++ [(s.session.mux.next_id, s.session.mux.objects.length)]) : Numbered client t := by
  have hnumbers := numbers_opens s.session.mux
  rw [← hmux] at hnumbers
  simp only [numbers, Prod.mk.injEq] at hnumbers
  obtain ⟨hnext, hstreams, hopened⟩ := hnumbers
  constructor
  · rw [hnext, hown, hs.next, nth_id_succ, List.length_append, List.length_singleton]
  · intro j e he
    rw [hown, List.getElem?_append] at he
    split at he
    · exact hs.ids j e he
    · -- the last entry is the new one
      obtain ⟨hj, rfl⟩ : j - s.own.length = 0 ∧ (s.session.mux.next_id, s.session.mux.objects.length) = e := by
        simpa [List.getElem?_singleton] using he
      have hlast : j = s.own.length := by omega
      rw [hlast]
      exact hs.next
  · intro e he
    rw [hstreams] at he
    rw [hopened, hown]
    rcases mem_assign he with rfl | he
    · exact .inr (by simp)
    · exact (hs.table e he).imp_right fun h => List.mem_append_left _ h

theorem Numbered.offered {s t : Side} (hs : Numbered client s) {sid : UInt32}
    (hmux : t.session.mux = s.session.mux.offers sid) (hown : t.own = s.own) : Numbered client t := by
  have hnumbers := numbers_offers s.session.mux sid
  rw [← hmux] at hnumbers
  simp only [numbers, Prod.mk.injEq] at hnumbers
  obtain ⟨hnext, hstreams, hopened⟩ := hnumbers
  constructor
  · rw [hnext, hown]
    exact hs.next
  · rw [hown]
    exact hs.ids
  · intro e he
    rw [hstreams] at he
    rw [hopened, hown]
    rcases mem_assign he with rfl | he
    · exact .inl (by simp)
    · exact (hs.table e he).imp_left fun h => List.mem_append_left _ h

theorem Numbered.cleared {s t : Side} (hs : Numbered client s)
    (hmux : t.session.mux = (s.session.mux.closes_all s.session.mux.table).emptied s.session.mux.table)
    (hown : t.own = s.own) : Numbered client t := by
  have hnumbers := numbers_closes_all s.session.mux s.session.mux.table
  simp only [numbers, Prod.mk.injEq] at hnumbers
  constructor
  · rw [hmux, hown]
    exact hnumbers.1.trans hs.next
  · rw [hown]
    exact hs.ids
  · intro e he
    rw [hmux] at he
    cases he

theorem numbered_step {s t : Side} {e : Event} (hs : Numbered client s) (h : s.next socket e = some t) :
    Numbered client t := by
  obtain ⟨session, hnext, rfl⟩ := Option.map_eq_some_iff.1 h
  by_cases hopen : e = .act .open_stream
  · subst hopen
    rcases open_next hnext with ⟨hmux, hgives⟩ | ⟨hmux, hnone⟩
    · exact hs.opened hmux (by simp only [if_pos, hgives])
    · exact hs.same (by simp only [if_pos, hnone, List.append_nil]) (congrArg numbers hmux)
  · simp only [if_neg hopen, List.append_nil]
    obtain ⟨-, hmoves⟩ := next_moves hnext
    cases hmoves with
    | act a m hrun =>
      cases act_does hrun with
      | syn sid _ hm => exact hs.offered hm rfl
      | poll _ hm => exact hs.same rfl ((congrArg numbers hm).trans (numbers_polled s.session.mux))
      | opened ha => exact absurd (congrArg Event.act ha) hopen
      | small _ _ hkeeps => exact hs.same rfl (hkeeps _ numbers_tolerant)
    | stuck => exact hs.same rfl rfl
    | reader_stops => exact hs.same rfl rfl
    | too_late => exact hs.same rfl rfl
    | close_enter => exact hs.same rfl rfl
    | close_join => exact hs.same rfl rfl
    | close_finish d m _ hrun =>
      exact hs.cleared (under_ok (Mux.close_streams_mu s.session.mux) hrun).2 rfl

/-- Before a call in a run, the id it takes is fresh exactly when there is room. -/
theorem fresh_iff_room {s : Side} (hs : Numbered client s) : s.Fresh socket client ↔ s.Room client := by
  constructor
  · intro h
    constructor
    · intro hserver hzero
      exact h.nonzero (hs.next.trans ((nth_id_eq_zero _ _).2 ⟨hserver, hzero⟩))
    · intro j e he hj
      have hle : j ≤ s.own.length := (List.getElem?_eq_some_iff.1 he).1.le
      have hid : e.1 = s.session.mux.next_id := by
        rw [hs.ids j e he, hs.next]
        exact (nth_id_eq_iff client hle).2 hj
      by_contra hlive
      exact h.unused e (List.mem_of_getElem? he) (by simpa using hlive) hid
    · exact fun i _ hi => h.replaces i hi
  · intro h
    have hunused : ∀ e ∈ s.own, e.1 = s.session.mux.next_id → s.session.mux.closed e.2 = true := by
      intro e he hid
      obtain ⟨j, hj⟩ := List.getElem?_of_mem he
      have hle : j ≤ s.own.length := (List.getElem?_eq_some_iff.1 hj).1.le
      rw [hs.ids j e hj, hs.next] at hid
      exact h.earlier j e hj ((nth_id_eq_iff client hle).1 hid)
    constructor
    · intro e he
      rcases @hands_out_cases socket s.session.mux with ⟨-, hgives⟩ | ⟨-, hnone⟩
      · rw [hgives, List.mem_singleton] at he
        rw [he]
      · rw [hnone] at he
        cases he
    · intro hzero
      obtain ⟨hserver, hround⟩ := (nth_id_eq_zero client s.own.length).1 (hs.next.symm.trans hzero)
      exact h.nonzero hserver hround
    · rw [hs.next]
      exact nth_id_parity client s.own.length
    · intro e he hlive hid
      rw [hunused e he hid] at hlive
      cases hlive
    · intro i hi
      -- the entry is the peer's, or one of the side's own with this id
      rcases hs.table _ (mem_of_lookup hi) with hpeer | hown
      · exact h.peer i hpeer hi
      · exact hunused _ hown rfl

theorem at_opens_iff {P Q : Side → Prop} {s : Side} (hs : Numbered client s)
    (hPQ : ∀ s, Numbered client s → (P s ↔ Q s)) (es : List Event) : at_opens socket P s es ↔ at_opens socket Q s es := by
  induction es generalizing s with
  | nil => exact Iff.rfl
  | cons e es ih =>
    unfold at_opens
    cases hnext : s.next socket e with
    | none => exact Iff.rfl
    | some t => exact and_congr (imp_congr_right fun _ => hPQ s hs) (ih (numbered_step hs hnext))

theorem at_opens_last {P : Side → Prop} {s t u : Side} {es : List Event} (hrun : es.foldlM (Side.next socket) s = some t)
    (hnext : t.next socket (.act .open_stream) = some u) (h : at_opens socket P s (es ++ [.act .open_stream])) : P t := by
  induction es generalizing s with
  | nil =>
    obtain rfl := Option.some.inj hrun
    simp only [List.nil_append, at_opens, hnext] at h
    exact h.1 trivial
  | cons e es ih =>
    obtain ⟨s', hs', hrun⟩ := Option.bind_eq_some_iff.1 hrun
    simp only [List.cons_append, at_opens, hs'] at h
    exact ih hrun h.2

end

/-- In a run of either side every `open_stream` takes a fresh id exactly when there is
room before each. -/
theorem stream_ids_fresh_iff (socket : Nat → List Int) (client : Bool) (es : List Event) :
    at_opens socket (Side.Fresh socket client) (.new client) es ↔ at_opens socket (Side.Room client) (.new client) es :=
  at_opens_iff (numbered_new client) (fun _ hs => fresh_iff_room hs) es

/-- Before 2^31 - 1 calls only a stream of the peer can be in the way. -/
theorem room_of_few {client : Bool} {s : Side} (hfew : s.own.length + 1 < 2 ^ 31)
    (hpeer : ∀ i ∈ s.session.mux.opened, s.session.mux.streams.lookup s.session.mux.next_id = some i →
      s.session.mux.closed i = true) : s.Room client := by
  refine ⟨fun _ => by omega, fun j e he hj => ?_, hpeer⟩
  have hlt := (List.getElem?_eq_some_iff.1 he).1
  omega

/-! ## The counter comes round -/

/-- After `n` calls of `open_stream` and nothing else: every stream is open, and its
user keeps it. -/
structure Opening (client : Bool) (n : Nat) (s : Side) : Prop where
  stuck : s.session.stuck = false
  destroyed : s.session.destroyed = false
  numbered : Numbered client s
  own : s.own = (List.range n).map fun k => (nth_id client k, k)
  objects : s.session.mux.objects.length = n
  live : ∀ o ∈ s.session.mux.objects, o.closed = false
  users : ∀ i ∈ s.session.mux.table, i ∈ s.session.mux.users

theorem opening_new (client : Bool) : Opening client 0 (.new client) := by
  refine ⟨rfl, rfl, numbered_new client, rfl, rfl, ?_, ?_⟩
  · intro o ho
    cases ho
  · intro i hi
    cases hi

/-- No user has let go of a stream, so that none is destroyed. -/
theorem registers_kept {m : Mux} (h : ∀ i ∈ m.table, i ∈ m.users) (id : UInt32) :
    m.replaced id = none ∧ m.registers id = m.put id := by
  have hnone : m.replaced id = none := by
    unfold Mux.replaced
    cases hi : m.streams.lookup id with
    | none => rfl
    | some i =>
      have huser : i ∈ (m.put id).users := h i (List.mem_map_of_mem (mem_of_lookup hi))
      have hkept : (m.put id).unreferenced i = false := by simp [Mux.unreferenced, huser]
      simp [hkept]
  refine ⟨hnone, ?_⟩
  rw [Mux.registers, hnone]

theorem opens_kept {m : Mux} (h : ∀ i ∈ m.table, i ∈ m.users) :
    m.opens = ((m.numbered.put m.next_id).log (Mux.syn_frame m.next_id) true).given m.objects.length := by
  have hkept : ∀ i ∈ m.numbered.table, i ∈ m.numbered.users := h
  rw [Mux.opens, (registers_kept hkept m.next_id).2]

section
variable {client : Bool} {n : Nat} {s : Side}

theorem Opening.next_id (h : Opening client n s) : s.session.mux.next_id = nth_id client n := by
  rw [h.numbered.next, h.own, List.length_map, List.length_range]

theorem Opening.open_stream (h : Opening client n s) :
    Mux.open_stream toySocket [] s.session.mux = .ok (n, s.session.mux.opens) := by
  obtain ⟨hnone, -⟩ := registers_kept (m := s.session.mux.numbered) h.users s.session.mux.next_id
  have hfins : s.session.mux.numbered.replace_fins s.session.mux.next_id = [] := by rw [Mux.replace_fins, hnone]
  rw [← h.objects]
  rcases @Mux.open_stream_mu toySocket s.session.mux with ⟨-, hok⟩ | ⟨hfails, -⟩
  · exact hok
  · rw [hfins] at hfails
    cases hfails

theorem Opening.hands_out (h : Opening client n s) : s.session.mux.hands_out toySocket = [(nth_id client n, n)] := by
  rcases @hands_out_cases toySocket s.session.mux with ⟨-, hgives⟩ | ⟨herror, -⟩
  · rw [hgives, h.next_id, h.objects]
  · rw [h.open_stream] at herror
    cases herror

theorem opening_step (h : Opening client n s) :
    ∃ t, s.next toySocket (.act .open_stream) = some t ∧ Opening client (n + 1) t := by
  have hrun : Act.run toySocket .open_stream [] s.session.mux = .ok ((), s.session.mux.opens) := Locks.bind_ok h.open_stream
  have hsession : s.session.next toySocket (.act .open_stream) =
      some { s.session with mux := s.session.mux.opens, finished := s.session.finished || false } := by
    simp [Session.next, h.stuck, h.destroyed, Act.by_reader, hrun, Act.ends_loop]
  have hnext : s.next toySocket (.act .open_stream) =
      some ⟨{ s.session with mux := s.session.mux.opens, finished := s.session.finished || false },
        s.own ++ [(nth_id client n, n)]⟩ := by
    rw [Side.next, hsession, Option.map_some, if_pos rfl, h.hands_out]
  have hopens := opens_kept h.users
  rw [h.objects] at hopens
  have hobjects : s.session.mux.opens.objects = s.session.mux.objects ++ [MuxStream.new s.session.mux.next_id] := by
    rw [hopens]
    rfl
  have hstreams : s.session.mux.opens.streams = assign s.session.mux.next_id n s.session.mux.streams := by
    rw [hopens, ← h.objects]
    rfl
  have husers : s.session.mux.opens.users = s.session.mux.users ++ [n] := by
    rw [hopens]
    rfl
  refine ⟨_, hnext, h.stuck, h.destroyed, numbered_step h.numbered hnext, ?_, ?_, ?_, ?_⟩
  · rw [h.own, List.range_succ, List.map_append, List.map_singleton]
  · simp [hobjects, h.objects]
  · intro o ho
    rw [hobjects, List.mem_append, List.mem_singleton] at ho
    rcases ho with ho | rfl
    · exact h.live o ho
    · rfl
  · intro i hi
    obtain ⟨e, he, rfl⟩ := List.mem_map.1 hi
    rw [hstreams] at he
    rw [husers]
    rcases mem_assign he with rfl | he
    · simp
    · exact List.mem_append_left _ (h.users e.2 (List.mem_map_of_mem he))

theorem opening_run (client : Bool) (n : Nat) :
    ∃ s, (List.replicate n (.act .open_stream)).foldlM (Side.next toySocket) (.new client) = some s ∧ Opening client n s := by
  induction n with
  | zero => exact ⟨.new client, rfl, opening_new client⟩
  | succ n ih =>
    obtain ⟨s, hs, hopening⟩ := ih
    obtain ⟨t, ht, hopened⟩ := opening_step hopening
    exact ⟨t, by rw [List.replicate_succ']; exact foldlM_concat.2 ⟨s, hs, ht⟩, hopened⟩

theorem Opening.closed (h : Opening client n s) (i : Nat) : s.session.mux.closed i = false := by
  unfold Mux.closed
  cases ho : s.session.mux.objects[i]? with
  | none => rfl
  | some o => exact h.live o (List.mem_of_getElem? ho)

theorem Opening.head (h : Opening client n s) (hn : 0 < n) : s.own.head? = some (nth_id client 0, 0) := by
  rw [h.own, List.head?_map, List.head?_range, if_neg (by omega), Option.map_some]

end

/-- A server hands out the id 0, and a client the id 1 again while its first stream is
open. A stream of the peer is replaced too. -/
theorem stream_ids_come_round :
    (∃ s, (List.replicate (2 ^ 31 - 1) (.act .open_stream)).foldlM (Side.next toySocket) (.new false) = some s ∧
      s.session.mux.hands_out toySocket = [(0, 2 ^ 31 - 1)] ∧
      ¬ at_opens toySocket (Side.Fresh toySocket false) (.new false)
        (List.replicate (2 ^ 31 - 1) (.act .open_stream) ++ [.act .open_stream])) ∧
    (∃ s, (List.replicate (2 ^ 31) (.act .open_stream)).foldlM (Side.next toySocket) (.new true) = some s ∧
      s.session.mux.hands_out toySocket = [(1, 2 ^ 31)] ∧ s.own.head? = some (1, 0) ∧ s.session.mux.closed 0 = false ∧
      ¬ at_opens toySocket (Side.Fresh toySocket true) (.new true)
        (List.replicate (2 ^ 31) (.act .open_stream) ++ [.act .open_stream])) ∧
    ∃ s, [.act (toySyn 1)].foldlM (Side.next toySocket) (.new true) = some s ∧
      s.session.mux.hands_out toySocket = [(1, 1)] ∧ s.session.mux.streams = [(1, 0)] ∧ s.session.mux.closed 0 = false ∧
      ¬ at_opens toySocket (Side.Fresh toySocket true) (.new true) ([.act (toySyn 1)] ++ [.act .open_stream]) := by
  refine ⟨?_, ?_, ?_⟩
  · obtain ⟨s, hs, h⟩ := opening_run false (2 ^ 31 - 1)
    obtain ⟨t, ht, -⟩ := opening_step h
    have hzero : nth_id false (2 ^ 31 - 1) = 0 := (nth_id_eq_zero _ _).2 ⟨rfl, by decide⟩
    refine ⟨s, hs, by rw [h.hands_out, hzero], fun hfresh => (at_opens_last hs ht hfresh).nonzero ?_⟩
    rw [h.next_id, hzero]
  · obtain ⟨s, hs, h⟩ := opening_run true (2 ^ 31)
    obtain ⟨t, ht, -⟩ := opening_step h
    have hone : nth_id true 0 = nth_id true (2 ^ 31) := (nth_id_eq_iff true (Nat.zero_le _)).2 (by decide)
    have hfirst := h.head (Nat.two_pow_pos 31)
    refine ⟨s, hs, by rw [h.hands_out, ← hone]; rfl, hfirst, h.closed 0, fun hfresh => ?_⟩
    refine (at_opens_last hs ht hfresh).unused (1, 0) (List.mem_of_head? hfirst) (h.closed 0) ?_
    rw [h.next_id, ← hone]
    rfl
  · refine ⟨_, rfl, rfl, rfl, rfl, fun hfresh => ?_⟩
    -- the stream of the SYN is still open
    exact absurd ((at_opens_last rfl rfl hfresh).replaces 0 rfl) (by decide)

end Hostely.Tunnel
