import Hostely.Lib.Runs
import Hostely.Tunnel.Accept
/-!
# The end of a session

The reader thread, the threads that use a `Mux` and the calls of `close()`, one of
them from `~Mux`. `close()` does nothing when `dead_` is set already, which the
reader and a failing send do as well; then nobody joins the reader.
-/

open Hostely.Lib

namespace Hostely.Tunnel

structure Session where
  mux : Mux
  /-- `read_loop` has returned. -/
  finished : Bool
  /-- A thread waits for itself and keeps `mu_` for ever. -/
  stuck : Bool
  joined : Bool
  /-- A call of `close()` has found `dead_` unset. -/
  begun : Bool
  /-- That call while it has not returned: whether it is `~Mux`'s, and whether it has
  joined the reader. -/
  closer : Option (Bool × Bool)
  /-- `~Mux` is through. -/
  destroyed : Bool
deriving DecidableEq, Repr

def Session.new (client : Bool) : Session := ⟨.new client, false, false, false, false, none, false⟩

inductive Event where
  /-- A frame, or the end of `read_loop` for `die`, by the reader; by another thread
  the rest. -/
  | act (a : Act)
  /-- The reader sees `dead_` before its next `recv`. -/
  | reader_stops
  /-- `close()` is called, by `~Mux` or else. -/
  | close_enter (destroys : Bool)
  | close_join
  | close_finish
deriving DecidableEq, Repr

/-- What only the reader does. -/
def Act.by_reader : Act → Bool
  | frame _ => true
  | die => true
  | _ => false

/-- After these `read_loop` returns. -/
def Act.ends_loop : Act → Bool
  | frame f => f.type = kTypeGoAway
  | die => true
  | _ => false

section
variable (socket : Nat → List Int)

/-- The next state, if the event can happen. Each event takes `mu_`, so that none
happens once a thread is stuck with it. -/
def Session.next (s : Session) (e : Event) : Option Session :=
  if s.stuck || s.destroyed then none
  else match e with
    | .act a =>
      if a.by_reader && s.finished then none
      else match a.run socket [] s.mux with
        | .ok (_, m) => some { s with mux := m, finished := s.finished || a.ends_loop }
        | .error _ => some { s with stuck := true }
    | .reader_stops => if s.mux.dead then some { s with finished := true } else none
    | .close_enter destroys =>
      if s.mux.dead then some { s with destroyed := destroys }
      else some { s with mux := s.mux.killed, begun := true, closer := some (destroys, false) }
    | .close_join =>
      match s.closer with
      | some (destroys, false) =>
        if s.finished then some { s with joined := true, closer := some (destroys, true) } else none
      | _ => none
    | .close_finish =>
      match s.closer with
      | some (destroys, true) =>
        match Mux.close_streams socket [] s.mux with
        | .ok (_, m) => some { s with mux := m, closer := none, destroyed := destroys }
        | .error _ => some { s with stuck := true }
      | _ => none

def Session.step (s : Session) (e : Event) (t : Session) : Prop := s.next socket e = some t

end

/-- When `~Mux` is through the reader has been joined, and every stream that is or
was in the table is closed. -/
def Session.TornDown (s : Session) : Prop :=
  s.destroyed = true → s.joined = true ∧ ∀ i ∈ s.mux.table ++ s.mux.cleared, s.mux.closed i = true

/-- The first `close()` finds `dead_` unset. One after it comes when that one has
returned, and `~Mux` when the streams opened since are closed. -/
def Session.in_time (s : Session) (e : Event) : Bool :=
  match e with
  | .close_enter destroys =>
    if s.begun then s.closer.isNone && (!destroys || s.mux.table.all s.mux.closed) else !s.mux.dead
  | _ => true

/-! ## What an act keeps -/

/-- A session only grows: what is dead or closed stays so, and the table names
objects that were made. -/
structure Grows (m m' : Mux) : Prop where
  dead : m.dead = true → m'.dead = true
  closed : ∀ i, m.closed i = true → m'.closed i = true
  cleared : m'.cleared = m.cleared
  table : (∀ i ∈ m.table, i < m.objects.length) → ∀ i ∈ m'.table, i < m'.objects.length

theorem Grows.refl (m : Mux) : Grows m m := ⟨id, fun _ => id, rfl, id⟩

theorem Grows.trans (a b c : Mux) (h₁ : Grows a b) (h₂ : Grows b c) : Grows a c :=
  ⟨h₂.dead ∘ h₁.dead, fun i hi => h₂.closed i (h₁.closed i hi), h₂.cleared.trans h₁.cleared, h₂.table ∘ h₁.table⟩

/-- A change that touches neither objects nor table. -/
theorem Grows.of_same {m m' : Mux} (hd : m.dead = true → m'.dead = true) (ho : m'.objects = m.objects)
    (hs : m'.streams = m.streams) (hc : m'.cleared = m.cleared) : Grows m m' := by
  refine ⟨hd, fun i hi => ?_, hc, fun h => ?_⟩
  · rwa [Mux.closed, ho]
  · rwa [Mux.table, hs, ho]

theorem closed_modify {m : Mux} {f : MuxStream → MuxStream} (hf : ∀ s, s.closed = true → (f s).closed = true) (j i : Nat)
    (h : m.closed i = true) : (m.modify j f).closed i = true := by
  unfold Mux.closed at h ⊢
  rw [Mux.modify, List.getElem?_modify]
  cases ho : m.objects[i]? with
  | none =>
    rw [ho] at h
    cases h
  | some s =>
    rw [ho] at h
    by_cases hji : j = i
    · simpa [hji] using hf s (by simpa using h)
    · simpa [hji] using h

theorem Grows.modify {m : Mux} {f : MuxStream → MuxStream} (hf : ∀ s, s.closed = true → (f s).closed = true) (j : Nat) :
    Grows m (m.modify j f) :=
  ⟨id, closed_modify hf j, rfl, fun h i hi => by simpa [Mux.modify] using h i hi⟩

theorem Grows.put (m : Mux) (id : UInt32) : Grows m (m.put id) := by
  refine ⟨fun h => h, fun i hi => ?_, rfl, fun h i hi => ?_⟩
  · unfold Mux.closed at hi ⊢
    cases ho : m.objects[i]? with
    | none =>
      rw [ho] at hi
      cases hi
    | some s =>
      have hlt := (List.getElem?_eq_some_iff.1 ho).1
      rw [ho] at hi
      rw [Mux.put, List.getElem?_append_left hlt, ho]
      exact hi
  · have hlen : (m.put id).objects.length = m.objects.length + 1 := by simp [Mux.put]
    obtain ⟨e, he, rfl⟩ := List.mem_map.1 hi
    rcases mem_assign he with rfl | he
    · omega
    · have := h e.2 (List.mem_map_of_mem he)
      omega

section
variable {socket : Nat → List Int}

theorem grows_tolerant : Mux.Tolerant Grows := by
  constructor
  · exact Grows.refl
  · exact Grows.trans
  · exact fun _ _ _ => Grows.of_same id rfl rfl rfl
  · exact fun _ => Grows.of_same (fun _ => rfl) rfl rfl rfl
  · exact fun _ i _ hf => Grows.modify hf i

theorem closes_grows (m : Mux) (i : Nat) : Grows m (m.closes i) :=
  (Grows.modify (fun _ _ => rfl) i).trans _ _ _ (Grows.of_same id rfl rfl rfl)

theorem registers_grows (m : Mux) (id : UInt32) : Grows m (m.registers id) := by
  unfold Mux.registers
  cases m.replaced id with
  | none => exact Grows.put m id
  | some old => exact (Grows.put m id).trans _ _ _ (closes_grows (m.put id) old)

theorem opens_grows (m : Mux) : Grows m m.opens := by
  have hnumbered : Grows m m.numbered := Grows.of_same id rfl rfl rfl
  exact (hnumbered.trans _ _ _ (registers_grows m.numbered m.next_id)).trans _ _ _ (Grows.of_same id rfl rfl rfl)

theorem offers_grows (m : Mux) (sid : UInt32) : Grows m (m.offers sid) :=
  (registers_grows m sid).trans _ _ _ (Grows.of_same id rfl rfl rfl)

theorem polled_grows (m : Mux) : Grows m m.polled.2 := by
  unfold Mux.polled
  cases m.dead with
  | true => exact Grows.refl m
  | false =>
    cases m.pending_accept with
    | none => exact Grows.refl m
    | some i => exact Grows.of_same id rfl rfl rfl

theorem act_grows {a : Act} {m m' : Mux} (h : a.run socket [] m = .ok ((), m')) : Grows m m' := by
  cases act_does h with
  | syn sid _ hm => exact hm ▸ offers_grows m sid
  | poll _ hm => exact hm ▸ polled_grows m
  | opened _ _ hm => exact hm ▸ opens_grows m
  | small _ _ hkeeps => exact hkeeps _ grows_tolerant

/-! ## Closing the table -/

theorem closes_all_grows (m : Mux) (is : List Nat) : Grows m (m.closes_all is) := by
  induction is generalizing m with
  | nil => exact Grows.refl m
  | cons i is ih => exact (closes_grows m i).trans _ _ _ (ih (m.closes i))

theorem closed_closes {m : Mux} {i : Nat} (h : i < m.objects.length) : (m.closes i).closed i = true := by
  have hobjects : (m.closes i).objects = m.objects.modify i fun s => { s with closed := true } := rfl
  rw [Mux.closed, hobjects, List.getElem?_modify]
  simp [List.getElem?_eq_getElem h]

/-- Closing a list of objects closes each of them. -/
theorem closed_closes_all {m : Mux} (is : List Nat) {j : Nat} (hj : j ∈ is) (h : j < m.objects.length) :
    (m.closes_all is).closed j = true := by
  induction is generalizing m with
  | nil => cases hj
  | cons i is ih =>
    rw [Mux.closes_all]
    rcases List.mem_cons.1 hj with rfl | hj
    · exact (closes_all_grows _ is).closed _ (closed_closes h)
    · exact ih hj (by simpa [Mux.closes, Mux.set_closed, Mux.modify] using h)

/-! ## The invariant -/

/-- While every close comes in time. -/
structure Orderly (s : Session) : Prop where
  /-- Before the first close, and while it is at work, nothing has been cleared. -/
  cleared : s.begun = false ∨ s.closer ≠ none → s.mux.cleared = []
  dead : s.begun = true → s.mux.dead = true
  closer : ∀ d j, s.closer = some (d, j) → s.begun = true ∧ (j = true → s.joined = true)
  /-- A close that has returned has done its work. -/
  done : s.begun = true → s.closer = none → s.joined = true ∧ ∀ i ∈ s.mux.cleared, s.mux.closed i = true
  table : ∀ i ∈ s.mux.table, i < s.mux.objects.length
  torn : s.TornDown

theorem orderly_new (client : Bool) : Orderly (.new client) := by
  constructor
  · exact fun _ => rfl
  · intro h
    cases h
  · intro d j h
    cases h
  · intro h
    cases h
  · intro i hi
    cases hi
  · intro h
    cases h

/-- What an event can do. -/
inductive Moves (socket : Nat → List Int) (s : Session) : Event → Session → Prop
  | act (a : Act) (m : Mux) : a.run socket [] s.mux = .ok ((), m) →
      Moves socket s (.act a) { s with mux := m, finished := s.finished || a.ends_loop }
  | stuck (e : Event) : (∀ d, e ≠ .close_enter d) → Moves socket s e { s with stuck := true }
  | reader_stops : Moves socket s .reader_stops { s with finished := true }
  | too_late (d : Bool) : s.mux.dead = true → Moves socket s (.close_enter d) { s with destroyed := d }
  | close_enter (d : Bool) : s.mux.dead = false →
      Moves socket s (.close_enter d) { s with mux := s.mux.killed, begun := true, closer := some (d, false) }
  | close_join (d : Bool) : s.closer = some (d, false) →
      Moves socket s .close_join { s with joined := true, closer := some (d, true) }
  | close_finish (d : Bool) (m : Mux) : s.closer = some (d, true) → Mux.close_streams socket [] s.mux = .ok ((), m) →
      Moves socket s .close_finish { s with mux := m, closer := none, destroyed := d }

theorem next_moves {s t : Session} {e : Event} (h : s.next socket e = some t) :
    s.destroyed = false ∧ Moves socket s e t := by
  unfold Session.next at h
  split at h
  · cases h
  · rename_i hgo
    have halive : s.destroyed = false := by
      simp only [Bool.or_eq_true, not_or, Bool.not_eq_true] at hgo
      exact hgo.2
    refine ⟨halive, ?_⟩
    cases e with
    | act a =>
      simp only at h
      split at h
      · cases h
      · split at h
        · rename_i m hrun
          obtain rfl := Option.some.inj h
          exact .act a m hrun
        · obtain rfl := Option.some.inj h
          exact .stuck _ fun d hd => by cases hd
    | reader_stops =>
      simp only at h
      split at h
      · obtain rfl := Option.some.inj h
        exact .reader_stops
      · cases h
    | close_enter d =>
      simp only at h
      split at h
      · rename_i hdead
        obtain rfl := Option.some.inj h
        exact .too_late d hdead
      · rename_i hdead
        obtain rfl := Option.some.inj h
        exact .close_enter d (by simpa using hdead)
    | close_join =>
      simp only at h
      split at h
      · rename_i d hcloser
        split at h
        · obtain rfl := Option.some.inj h
          exact .close_join d hcloser
        · cases h
      · cases h
    | close_finish =>
      simp only at h
      split at h
      · rename_i d hcloser
        split at h
        · rename_i m hrun
          obtain rfl := Option.some.inj h
          exact .close_finish d m hcloser hrun
        · obtain rfl := Option.some.inj h
          exact .stuck _ fun d hd => by cases hd
      · cases h

/-- An event that comes in time keeps the order. -/
theorem orderly_step {s t : Session} {e : Event} (hs : Orderly s) (hok : s.in_time e = true) (h : s.next socket e = some t) :
    Orderly t := by
  obtain ⟨halive, hmoves⟩ := next_moves h
  have hnot : ¬ s.destroyed = true := by simp [halive]
  cases hmoves with
  | act a m hrun =>
    have hgrows := act_grows hrun
    constructor
    · exact fun hc => hgrows.cleared.trans (hs.cleared hc)
    · exact fun hb => hgrows.dead (hs.dead hb)
    · exact hs.closer
    · intro hb hc
      obtain ⟨hjoined, hclosed⟩ := hs.done hb hc
      exact ⟨hjoined, fun i hi => hgrows.closed i (hclosed i (hgrows.cleared ▸ hi))⟩
    · exact hgrows.table hs.table
    · exact fun hd => absurd hd hnot
  | stuck => exact ⟨hs.cleared, hs.dead, hs.closer, hs.done, hs.table, fun hd => absurd hd hnot⟩
  | reader_stops => exact ⟨hs.cleared, hs.dead, hs.closer, hs.done, hs.table, fun hd => absurd hd hnot⟩
  | too_late d hdead =>
    refine ⟨hs.cleared, hs.dead, hs.closer, hs.done, hs.table, fun hd => ?_⟩
    obtain rfl : d = true := hd
    cases hb : s.begun with
    | false =>
      -- a first close that comes too late is not in time
      have hfirst : s.mux.dead = false := by simpa [Session.in_time, hb] using hok
      exact absurd (hdead.symm.trans hfirst) (by decide)
    | true =>
      -- the work was done by an earlier close
      have hlater : s.closer = none ∧ ∀ i ∈ s.mux.table, s.mux.closed i = true := by
        simpa [Session.in_time, hb] using hok
      obtain ⟨hjoined, hclosed⟩ := hs.done hb hlater.1
      refine ⟨hjoined, fun i hi => ?_⟩
      exact (List.mem_append.1 hi).elim (hlater.2 i) (hclosed i)
  | close_enter d hdead =>
    have hb : s.begun = false := by
      cases hb : s.begun with
      | false => rfl
      | true => exact absurd ((hs.dead hb).symm.trans hdead) (by decide)
    constructor
    · exact fun _ => hs.cleared (.inl hb)
    · exact fun _ => rfl
    · intro d' j hc
      obtain ⟨-, rfl⟩ := Prod.mk.inj (Option.some.inj hc)
      exact ⟨rfl, fun hj => by cases hj⟩
    · exact fun _ hc => by cases hc
    · exact hs.table
    · exact fun hd => absurd hd hnot
  | close_join d hc =>
    constructor
    · exact fun _ => hs.cleared (.inr (by simp [hc]))
    · exact hs.dead
    · exact fun _ _ _ => ⟨(hs.closer d false hc).1, fun _ => rfl⟩
    · exact fun _ hn => by cases hn
    · exact hs.table
    · exact fun hd => absurd hd hnot
  | close_finish d m hc hrun =>
    obtain ⟨hb, hjoined⟩ := hs.closer d true hc
    -- it ran to its end, so every FIN it sent under `mu_` went out
    obtain rfl : m = (s.mux.closes_all s.mux.table).emptied s.mux.table := (under_ok (Mux.close_streams_mu s.mux) hrun).2
    have hcleared : ((s.mux.closes_all s.mux.table).emptied s.mux.table).cleared = s.mux.table := by
      rw [Mux.emptied, (closes_all_grows _ _).cleared, hs.cleared (.inr (by simp [hc])), List.nil_append]
    have hclosed : ∀ i ∈ s.mux.table, ((s.mux.closes_all s.mux.table).emptied s.mux.table).closed i = true :=
      fun i hi => closed_closes_all s.mux.table hi (hs.table i hi)
    constructor
    · rintro (hnot | hnot)
      · exact absurd (hb.symm.trans hnot) (by decide)
      · exact absurd rfl hnot
    · exact fun _ => (closes_all_grows s.mux s.mux.table).dead (hs.dead hb)
    · intro d' j hn
      cases hn
    · exact fun _ _ => ⟨hjoined rfl, fun i hi => hclosed i (hcleared ▸ hi)⟩
    · intro i hi
      cases hi
    · refine fun _ => ⟨hjoined rfl, fun i hi => hclosed i ?_⟩
      have htable : ((s.mux.closes_all s.mux.table).emptied s.mux.table).table = [] := rfl
      rwa [htable, hcleared, List.nil_append] at hi

end

/-- The next state by an event that comes in time. -/
def Session.timely (socket : Nat → List Int) (s : Session) (e : Event) : Option Session :=
  if s.in_time e then s.next socket e else none

theorem timely_step {socket : Nat → List Int} {s t : Session} {e : Event} (h : s.timely socket e = some t) :
    guarded (fun s e => s.in_time e = true) (Session.step socket) s e t := by
  unfold Session.timely at h
  split at h
  · exact ⟨‹_›, h⟩
  · cases h

/-- A stream of the peer is accepted and closed, and the session destroyed while it
lives. -/
def toyEvents : List Event :=
  [.act (toySyn 2), .act .poll, .act (.close_stream 0), .close_enter true, .reader_stops, .close_join, .close_finish]

/-- And the run ends with the destruction. -/
example : (toyEvents.foldlM (Session.timely toySocket) (.new true)).map (fun s => (s.destroyed, s.joined)) =
    some (true, true) := by decide +kernel

end Hostely.Tunnel
