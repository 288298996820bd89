import Hostely.Tunnel.Relock
/-!
# Streams that are never accepted

`pending_accept_` holds one stream. The stream of a SYN that finds it taken is
put in the table only, and no `accept_stream` ever returns it. A run loses no
stream exactly when every SYN of it finds the slot free.
-/

open Hostely.Lib

namespace Hostely.Tunnel

/-! ## Runs -/

/-- What the threads of a session do to it, one thing after the other. -/
inductive Act where
  /-- The reader handles a frame. -/
  | frame (f : Frame)
  /-- A turn of the loop of some `accept_stream`. -/
  | poll
  | open_stream
  | write (i : Nat) (buf : Bytes)
  | close_stream (i : Nat)
  /-- The reader ends the session. -/
  | die
deriving DecidableEq, Repr

section
variable (socket : Nat → List Int)

def Act.run (a : Act) : Locks Mutex Mux Unit :=
  match a with
  | frame f => Mux.on_frame socket f
  | poll => do
    let _ ← Mux.poll
    return ()
  | open_stream => do
    let _ ← Mux.open_stream socket
    return ()
  | write i buf => do
    let _ ← Mux.write socket (fun _ m => m) i buf.length buf
    return ()
  | close_stream i => Mux.close_stream socket i
  | die => Mux.die

/-- The session after these acts; none when a thread waits for itself. -/
def exec : Mux → List Act → Option Mux
  | m, [] => some m
  | m, a :: acts =>
    match a.run socket [] m with
    | .ok (_, m') => exec m' acts
    | .error _ => none

def Act.is_syn : Act → Bool
  | frame f => f.type = kTypeWindowUpdate && f.flags &&& kFlagSyn ≠ 0
  | _ => false

/-- Every SYN of the run finds the slot free. -/
def slot_free : Mux → List Act → Bool
  | _, [] => true
  | m, a :: acts =>
    (!a.is_syn || m.pending_accept.isNone) &&
      match a.run socket [] m with
      | .ok (_, m') => slot_free m' acts
      | .error _ => true

end

/-- Every stream the peer opened waits in the slot, or was returned once. -/
def NoneLost (m : Mux) : Prop :=
  ∀ i ∈ m.opened, (m.pending_accept = some i ∧ i ∉ m.handed) ∨ (m.pending_accept ≠ some i ∧ m.handed.count i = 1)

instance (m : Mux) : Decidable (NoneLost m) := inferInstanceAs (Decidable (∀ i ∈ m.opened, _))

/-! ## What an act does -/

/-- What an act can do: the stream of a SYN is offered, one is opened, the one in the
slot handed out, or the changes are small. -/
inductive Does (socket : Nat → List Int) (a : Act) (m m' : Mux) : Prop
  | syn (sid : UInt32) : a.is_syn = true → m' = m.offers sid → Does socket a m m'
  | poll : a = .poll → m' = m.polled.2 → Does socket a m m'
  | opened : a = .open_stream → Mux.open_stream socket [] m = .ok (m.objects.length, m.opens) → m' = m.opens →
      Does socket a m m'
  | small : a.is_syn = false → a ≠ .open_stream → (∀ R, Mux.Tolerant R → R m m') → Does socket a m m'

section
variable {socket : Nat → List Int}

/-- The part of an act before its result is dropped. -/
theorem dropped {α : Type} {y : Locks Mutex Mux α} {m m' : Mux}
    (h : (y >>= fun _ => (Pure.pure () : Locks Mutex Mux Unit)) [] m = .ok ((), m')) : ∃ r, y [] m = .ok (r, m') := by
  cases hy : y [] m with
  | error e =>
    rw [Locks.bind_error hy] at h
    cases h
  | ok r =>
    obtain ⟨a, m''⟩ := r
    rw [Locks.bind_ok hy] at h
    obtain ⟨-, rfl⟩ := Prod.mk.inj (Except.ok.inj h)
    exact ⟨a, rfl⟩

/-- What an operation that returns has done, when all its frames went out. -/
theorem under_ok {α : Type} {x : Locks Mutex Mux α} {m m' m'' : Mux} {fs : List Frame} {a b : α}
    (hx : Mux.Under socket x [] m fs a m') (h : x [] m = .ok (b, m'')) : x [] m = .ok (a, m') ∧ m'' = m' := by
  rcases hx with ⟨-, hok⟩ | ⟨-, herror⟩
  · exact ⟨hok, (congrArg Prod.snd (Except.ok.inj (hok.symm.trans h))).symm⟩
  · rw [herror] at h
    cases h

theorem act_does {a : Act} {m m' : Mux} (h : a.run socket [] m = .ok ((), m')) : Does socket a m m' := by
  cases a with
  | frame f =>
    by_cases hsyn : f.type = kTypeWindowUpdate ∧ f.flags &&& kFlagSyn ≠ 0
    · obtain ⟨hwindow, hflag⟩ := hsyn
      rw [Act.run, Mux.on_frame_syn socket hwindow hflag] at h
      exact .syn f.stream_id (by simp [Act.is_syn, hwindow, hflag]) (under_ok (Mux.on_syn_mu f.stream_id m) h).2
    · have hnot : (Act.frame f).is_syn = false := by simpa [Act.is_syn] using hsyn
      exact .small hnot (by simp) fun R hR => hR.on_frame f (fun hw => not_not.1 (not_and.1 hsyn hw)) [] m () m' h
  | poll =>
    obtain ⟨r, h⟩ := dropped h
    rw [Mux.poll_run] at h
    exact .poll rfl (congrArg Prod.snd (Except.ok.inj h)).symm
  | open_stream =>
    obtain ⟨r, h⟩ := dropped h
    obtain ⟨hok, hm⟩ := under_ok (Mux.open_stream_mu m) h
    exact .opened rfl hok hm
  | write i buf =>
    obtain ⟨r, h⟩ := dropped h
    exact .small rfl (by simp) fun R hR => hR.write (fun _ => hR.refl) i buf.length buf [] m r m' h
  | close_stream i => exact .small rfl (by simp) fun R hR => hR.close_stream i [] m () m' h
  | die => exact .small rfl (by simp) fun R hR => hR.die [] m () m' h

end

/-! ## What an act does to the slot -/

/-- What accepting a stream goes by, and the number of objects made. -/
def front (m : Mux) : List Nat × Option Nat × List Nat × Nat :=
  (m.opened, m.pending_accept, m.handed, m.objects.length)

/-- What an act can do there: nothing but make objects, put in a new stream of the
peer, or hand out the one in the slot. -/
inductive Effect (a : Act) (m m' : Mux) : Prop
  | other : a.is_syn = false → m'.opened = m.opened → m'.pending_accept = m.pending_accept → m'.handed = m.handed →
      m.objects.length ≤ m'.objects.length → Effect a m m'
  | syn : a.is_syn = true → m'.opened = m.opened ++ [m.objects.length] →
      m'.pending_accept = (if m.pending_accept.isSome then m.pending_accept else some m.objects.length) →
      m'.handed = m.handed → m'.objects.length = m.objects.length + 1 → Effect a m m'
  | hand (i : Nat) : a.is_syn = false → m.pending_accept = some i → m'.opened = m.opened → m'.pending_accept = none →
      m'.handed = m.handed ++ [i] → m'.objects.length = m.objects.length → Effect a m m'

section
variable {socket : Nat → List Int}

/-- The small changes leave the front alone. -/
theorem front_tolerant : Mux.Tolerant fun m m' => front m' = front m := by
  constructor
  · exact fun _ => rfl
  · exact fun _ _ _ h₁ h₂ => h₂.trans h₁
  · exact fun _ _ _ => rfl
  · exact fun _ => rfl
  · exact fun m i f _ => by simp [front, Mux.modify]

theorem front_closes (m : Mux) (i : Nat) : front (m.closes i) = front m := by
  simp [front, Mux.closes, Mux.set_closed, Mux.modify]

theorem front_registers (m : Mux) (id : UInt32) :
    front (m.registers id) = (m.opened, m.pending_accept, m.handed, m.objects.length + 1) := by
  have hput : front (m.put id) = (m.opened, m.pending_accept, m.handed, m.objects.length + 1) := by
    simp [front, Mux.put]
  unfold Mux.registers
  cases m.replaced id with
  | none => exact hput
  | some old => rw [front_closes, hput]

theorem act_effect {a : Act} {m m' : Mux} (h : a.run socket [] m = .ok ((), m')) : Effect a m m' := by
  cases act_does h with
  | syn sid hs hm =>
    subst hm
    have hfront := front_registers m sid
    simp only [front, Prod.mk.injEq] at hfront
    obtain ⟨hopened, hpending, hhanded, hobjects⟩ := hfront
    refine .syn hs ?_ ?_ hhanded hobjects
    · exact congrArg (· ++ [m.objects.length]) hopened
    · simp only [Mux.offers, Mux.log, Mux.offered, hpending]
  | poll ha hm =>
    subst ha hm
    unfold Mux.polled
    cases m.dead with
    | true => exact .other rfl rfl rfl rfl le_rfl
    | false =>
      cases hp : m.pending_accept with
      | none => exact .other rfl rfl rfl rfl le_rfl
      | some i => exact .hand i rfl hp rfl rfl rfl rfl
  | opened ha _ hm =>
    subst ha hm
    have hfront := front_registers m.numbered m.next_id
    simp only [front, Prod.mk.injEq] at hfront
    obtain ⟨hopened, hpending, hhanded, hobjects⟩ := hfront
    have hgrown : m.objects.length ≤ m.opens.objects.length := by
      show m.objects.length ≤ (m.numbered.registers m.next_id).objects.length
      rw [hobjects]
      exact Nat.le_succ _
    exact .other rfl hopened hpending hhanded hgrown
  | small hs _ hkeeps =>
    have hfront := hkeeps _ front_tolerant
    simp only [front, Prod.mk.injEq] at hfront
    obtain ⟨hopened, hpending, hhanded, hobjects⟩ := hfront
    exact .other hs hopened hpending hhanded (le_of_eq hobjects.symm)

/-! ## What a run keeps, and what it never repairs -/

/-- While no SYN has met a full slot. -/
structure Inv (m : Mux) : Prop where
  none_lost : NoneLost m
  opened : ∀ i ∈ m.opened, i < m.objects.length
  pending : ∀ i, m.pending_accept = some i → i < m.objects.length
  handed : ∀ i ∈ m.handed, i < m.objects.length

/-- A stream that was opened, is not in the slot and was not returned. -/
def Lost (m : Mux) (i : Nat) : Prop :=
  i ∈ m.opened ∧ i < m.objects.length ∧ m.pending_accept ≠ some i ∧ i ∉ m.handed

theorem Lost.not_none_lost {m : Mux} {i : Nat} (h : Lost m i) : ¬ NoneLost m := by
  obtain ⟨hopened, -, hpending, hhanded⟩ := h
  intro hnone
  rcases hnone i hopened with ⟨hp, -⟩ | ⟨-, hcount⟩
  · exact hpending hp
  · rw [List.count_eq_zero_of_not_mem hhanded] at hcount
    cases hcount

theorem inv_new (client : Bool) : Inv (Mux.new client) := by
  constructor
  · intro i hi
    cases hi
  · intro i hi
    cases hi
  · intro i hi
    cases hi
  · intro i hi
    cases hi

/-- What is lost stays lost. -/
theorem lost_step {a : Act} {m m' : Mux} {i : Nat} (he : Effect a m m') (h : Lost m i) : Lost m' i := by
  obtain ⟨hopened, hlt, hpending, hhanded⟩ := h
  cases he with
  | other _ ho hp hh hl => exact ⟨ho ▸ hopened, lt_of_lt_of_le hlt hl, hp ▸ hpending, hh ▸ hhanded⟩
  | syn _ ho hp hh hl =>
    refine ⟨ho ▸ List.mem_append_left _ hopened, by omega, ?_, hh ▸ hhanded⟩
    rw [hp]
    split
    · exact hpending
    · exact fun hc => absurd (Option.some.inj hc) (ne_of_gt hlt)
  | hand j _ hj ho hp hh hl =>
    have hne : i ≠ j := fun hc => hpending (hc ▸ hj)
    refine ⟨ho ▸ hopened, hl ▸ hlt, by simp [hp], ?_⟩
    rw [hh, List.mem_append, List.mem_singleton]
    exact not_or.2 ⟨hhanded, hne⟩

/-- An act keeps the invariant, unless it is a SYN that meets a full slot: its
stream is lost. -/
theorem inv_step {a : Act} {m m' : Mux} (he : Effect a m m') (h : Inv m)
    (hfree : a.is_syn = true → m.pending_accept = none) : Inv m' := by
  cases he with
  | other _ ho hp hh hl =>
    constructor
    · intro i hi
      rw [hp, hh]
      exact h.none_lost i (ho ▸ hi)
    · exact fun i hi => lt_of_lt_of_le (h.opened i (ho ▸ hi)) hl
    · exact fun i hi => lt_of_lt_of_le (h.pending i (hp ▸ hi)) hl
    · exact fun i hi => lt_of_lt_of_le (h.handed i (hh ▸ hi)) hl
  | syn hs ho hp hh hl =>
    have hempty := hfree hs
    have hslot : m'.pending_accept = some m.objects.length := by
      rw [hp, hempty]
      rfl
    constructor
    · intro i hi
      rw [ho, List.mem_append, List.mem_singleton] at hi
      rw [hslot, hh]
      rcases hi with hi | rfl
      · -- an older stream cannot be waiting, so it was returned
        have hne : m.objects.length ≠ i := ne_of_gt (h.opened i hi)
        rcases h.none_lost i hi with ⟨hc, -⟩ | ⟨-, hcount⟩
        · rw [hempty] at hc
          cases hc
        · exact .inr ⟨by simpa using hne, hcount⟩
      · exact .inl ⟨rfl, fun hi => lt_irrefl _ (h.handed _ hi)⟩
    · intro i hi
      rw [ho, List.mem_append, List.mem_singleton] at hi
      rcases hi with hi | rfl
      · have := h.opened i hi
        omega
      · omega
    · intro i hi
      obtain rfl := Option.some.inj (hslot.symm.trans hi)
      omega
    · intro i hi
      have := h.handed i (hh ▸ hi)
      omega
  | hand j _ hj ho hp hh hl =>
    constructor
    · intro i hi
      rw [hp, hh, List.count_append]
      refine .inr ⟨by simp, ?_⟩
      rcases h.none_lost i (ho ▸ hi) with ⟨hc, hnot⟩ | ⟨hne, hcount⟩
      · obtain rfl := Option.some.inj (hj.symm.trans hc)
        simp [List.count_eq_zero_of_not_mem hnot]
      · have hji : j ≠ i := fun hc => hne (hc ▸ hj)
        simp [hcount, hji]
    · exact fun i hi => hl ▸ h.opened i (ho ▸ hi)
    · intro i hi
      rw [hp] at hi
      cases hi
    · intro i hi
      rw [hh, List.mem_append, List.mem_singleton] at hi
      rw [hl]
      rcases hi with hi | rfl
      · exact h.handed i hi
      · exact h.pending _ hj

theorem syn_loses {a : Act} {m m' : Mux} {k : Nat} (he : Effect a m m') (h : Inv m) (hs : a.is_syn = true)
    (hk : m.pending_accept = some k) : Lost m' m.objects.length := by
  cases he with
  | other hno => exact absurd (hs.symm.trans hno) (by decide)
  | hand _ hno => exact absurd (hs.symm.trans hno) (by decide)
  | syn _ ho hp hh hl =>
    refine ⟨by rw [ho]; simp, by omega, ?_, ?_⟩
    · rw [hp, hk]
      exact fun hc => absurd (Option.some.inj hc) (ne_of_lt (h.pending k hk))
    · rw [hh]
      exact fun hi => lt_irrefl _ (h.handed _ hi)

/-! ## The runs that lose nothing -/

theorem exec_cons {m m' : Mux} {a : Act} {acts : List Act} (h : exec socket m (a :: acts) = some m') :
    ∃ m₁, a.run socket [] m = .ok ((), m₁) ∧ exec socket m₁ acts = some m' := by
  unfold exec at h
  split at h
  · rename_i m₁ hrun
    exact ⟨m₁, hrun, h⟩
  · cases h

theorem lost_run {acts : List Act} {m m' : Mux} {i : Nat} (h : exec socket m acts = some m') (hl : Lost m i) :
    Lost m' i := by
  induction acts generalizing m with
  | nil =>
    obtain rfl := Option.some.inj h
    exact hl
  | cons a acts ih =>
    obtain ⟨m₁, hrun, hrest⟩ := exec_cons h
    exact ih hrest (lost_step (act_effect hrun) hl)

theorem none_lost_run {acts : List Act} {m m' : Mux} (h : exec socket m acts = some m') (hi : Inv m) :
    NoneLost m' ↔ slot_free socket m acts = true := by
  induction acts generalizing m with
  | nil =>
    obtain rfl := Option.some.inj h
    exact ⟨fun _ => rfl, fun _ => hi.none_lost⟩
  | cons a acts ih =>
    obtain ⟨m₁, hrun, hrest⟩ := exec_cons h
    have he := act_effect hrun
    rw [slot_free, hrun]
    by_cases hfree : a.is_syn = true → m.pending_accept = none
    · have hhead : (!a.is_syn || m.pending_accept.isNone) = true := by
        cases hs : a.is_syn with
        | false => rfl
        | true => simp [hfree hs]
      simp only [hhead, Bool.true_and]
      exact ih hrest (inv_step he hi hfree)
    · -- this SYN loses its stream, and no later act brings it back
      obtain ⟨hs, hfull⟩ := Classical.not_imp.1 hfree
      obtain ⟨k, hk⟩ := Option.ne_none_iff_exists'.1 hfull
      have hlost := lost_run hrest (syn_loses he hi hs hk)
      simp [hs, hk, hlost.not_none_lost]

end

/-- In a run of a new session no stream of the peer is lost, neither at its end nor
on the way, exactly when every SYN finds the slot free. -/
theorem no_stream_lost_iff {socket : Nat → List Int} {client : Bool} {acts : List Act} {m : Mux}
    (h : exec socket (Mux.new client) acts = some m) :
    NoneLost m ↔ slot_free socket (Mux.new client) acts = true :=
  none_lost_run h (inv_new client)

/-- A connection that takes every frame. -/
def toySocket : Nat → List Int := fun _ => [12]

def toySyn (sid : UInt32) : Act := .frame ⟨kTypeWindowUpdate, kFlagSyn, sid, []⟩

/-- The client accepts each stream before the next is opened. -/
theorem no_stream_lost_in_turn :
    ∃ m, exec toySocket (Mux.new true) [toySyn 2, .poll, toySyn 4, .poll] = some m ∧
      (NoneLost m ↔ slot_free toySocket (Mux.new true) [toySyn 2, .poll, toySyn 4, .poll] = true) :=
  ⟨_, rfl, no_stream_lost_iff rfl⟩

/-- Two streams are opened between two turns of `accept_stream`: the second stands in
the table of a live session and is never returned. -/
theorem second_stream_is_lost :
    ∃ m, exec toySocket (Mux.new true) [toySyn 2, toySyn 4, .poll, .poll, .poll] = some m ∧ m.dead = false ∧
      m.table = [0, 1] ∧ m.pending_accept = none ∧ m.handed = [0] ∧ ¬ NoneLost m :=
  ⟨_, rfl, rfl, rfl, rfl, rfl, by decide⟩

end Hostely.Tunnel
