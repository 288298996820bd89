import Hostely.Lib.Tagged
import Hostely.Tunnel.Ids
/-!
# What the operations leave alone

Apart from a stream being opened, offered, written to or fed, nothing that happens
to a session touches an id or a buffer, and what it sends then carries no data and
opens nothing.
-/

open Hostely.Lib

namespace Hostely.Tunnel

/-! ## Frames by what they say -/

namespace Frame

/-- The payload of a DATA frame and its stream. -/
def carries (f : Frame) : Option (UInt32 × Bytes) :=
  if f.type = kTypeData then some (f.stream_id, f.payload) else none

/-- The stream that a SYN opens. -/
def announces (f : Frame) : Option UInt32 :=
  if f.type = kTypeWindowUpdate ∧ f.flags &&& kFlagSyn ≠ 0 then some f.stream_id else none

/-- The stream that a FIN ends; the SYN flag goes before it. -/
def hangs_up (f : Frame) : Option UInt32 :=
  if f.type = kTypeWindowUpdate ∧ f.flags &&& kFlagSyn = 0 ∧ f.flags &&& kFlagFin ≠ 0 then some f.stream_id else none

/-- It carries nothing and opens nothing. -/
structure Still (f : Frame) : Prop where
  carries : f.carries = none
  announces : f.announces = none
  sendable : Sendable f

/-- A window update that opens nothing. -/
theorem still_window {f : Frame} (htype : f.type = kTypeWindowUpdate) (hsyn : f.flags &&& kFlagSyn = 0)
    (hpayload : f.payload = []) : f.Still where
  carries := by
    have hdata : ¬ f.type = kTypeData := by
      rw [htype]
      decide
    exact if_neg hdata
  announces := if_neg fun h => h.2 hsyn
  sendable := by
    constructor
    · rw [hpayload]
      exact Nat.zero_le _
    · rw [htype]
      decide

theorem ack_no_syn : kFlagAck &&& kFlagSyn = 0 := by decide

theorem fin_no_syn : kFlagFin &&& kFlagSyn = 0 := by decide

theorem still_ack (id : UInt32) : (Mux.ack_frame id).Still := still_window rfl ack_no_syn rfl

theorem still_fin (m : Mux) (i : Nat) : (m.fin_frame i).Still := still_window rfl fin_no_syn rfl

theorem still_pong : (⟨kTypePing, kFlagAck, 0, []⟩ : Frame).Still := ⟨rfl, by decide, by decide, by decide⟩

theorem hangs_up_fin (m : Mux) (i : Nat) :
    (m.fin_frame i).hangs_up = some ((m.objects[i]?.map MuxStream.id).getD 0) :=
  if_pos ⟨rfl, fin_no_syn, (by decide : kFlagFin &&& kFlagFin ≠ 0)⟩

/-- A DATA frame does nothing but carry. -/
theorem data_frame {f : Frame} (htype : f.type = kTypeData) :
    f.carries = some (f.stream_id, f.payload) ∧ f.announces = none ∧ f.hangs_up = none := by
  have hwindow : ¬ f.type = kTypeWindowUpdate := by
    rw [htype]
    decide
  exact ⟨if_pos htype, if_neg fun h => hwindow h.1, if_neg fun h => hwindow h.1⟩

end Frame

namespace Mux

/-- The id of an object. -/
def id (m : Mux) (i : Nat) : Option UInt32 := m.objects[i]?.map MuxStream.id

/-- The bytes pushed into an object and not read yet. -/
def buffer (m : Mux) (i : Nat) : Bytes := (m.objects[i]?.map MuxStream.buffer).getD []

theorem id_lt {m : Mux} {i : Nat} {x : UInt32} (h : m.id i = some x) : i < m.objects.length := by
  obtain ⟨o, ho, -⟩ := Option.map_eq_some_iff.1 h
  exact (List.getElem?_eq_some_iff.1 ho).1

theorem id_of_lt {m : Mux} {i : Nat} (h : i < m.objects.length) : ∃ x, m.id i = some x :=
  ⟨_, by rw [id, List.getElem?_eq_getElem h, Option.map_some]⟩

section
variable (socket : Nat → List Int)

/-- A frame is sent without `mu_`; the session dies when it does not go out. -/
def sends (m : Mux) (f : Frame) : Mux := if m.goes_out socket f then m.log f true else (m.log f false).killed

/-- An object is closed without `mu_`. -/
def hangs (m : Mux) (i : Nat) : Mux :=
  if m.closed i then m.set_closed i else (m.set_closed i).sends socket (m.fin_frame i)

end

section
variable {socket : Nat → List Int}

theorem send_frame_run (f : Frame) (m : Mux) :
    send_frame socket f [] m = .ok (m.goes_out socket f, m.sends socket f) := by
  unfold sends
  cases h : m.goes_out socket f with
  | true => exact send_frame_out (by simp) h
  | false => exact send_frame_fails (by simp) (by simp) h

theorem close_stream_run (i : Nat) (m : Mux) : close_stream socket i [] m = .ok ((), m.hangs socket i) := by
  rw [close_stream, Locks.bind_ok (close_flag (by simp)), hangs]
  cases m.closed i with
  | true => rfl
  | false =>
    simp only [Bool.false_eq_true, if_false, Locks.look_bind, fin_frame_set_closed]
    exact Locks.bind_ok (send_frame_run (m.fin_frame i) (m.set_closed i))

end

end Mux

/-! ## Quiet changes -/

/-- Ids, buffers and numbers stay, only objects of `C` are closed, and what was sent
meanwhile is still. A failing frame is the end of the session. -/
structure Quiet (C : Nat → Prop) (m m' : Mux) : Prop where
  id : ∀ i, m'.id i = m.id i
  buffer : ∀ i, m'.buffer i = m.buffer i
  closed : ∀ i, m.closed i = true → m'.closed i = true
  closes : ∀ i, m'.closed i = true → m.closed i = true ∨ C i
  next_id : m'.next_id = m.next_id
  opened : m'.opened = m.opened
  streams : m'.streams = m.streams
  dead : m'.dead = false → m.dead = false
  sent : ∃ es, m'.sent = m.sent ++ es ∧ (∀ e ∈ es, e.1.Still) ∧ (m'.dead = false → ∀ e ∈ es, e.2 = true) ∧
    ∀ e ∈ es, ∀ x, e.1.hangs_up = some x → ∃ i, m'.id i = some x ∧ m'.closed i = true

theorem Quiet.length {C : Nat → Prop} {m m' : Mux} (h : Quiet C m m') (i : Nat) :
    i < m'.objects.length ↔ i < m.objects.length := by
  have hid := h.id i
  constructor
  · intro hi
    obtain ⟨x, hx⟩ := Mux.id_of_lt hi
    exact Mux.id_lt (hid ▸ hx)
  · intro hi
    obtain ⟨x, hx⟩ := Mux.id_of_lt hi
    exact Mux.id_lt (hid.symm ▸ hx)

section
variable {socket : Nat → List Int} {C D : Nat → Prop}

theorem Quiet.refl (m : Mux) : Quiet C m m where
  id _ := rfl
  buffer _ := rfl
  closed _ h := h
  closes _ h := .inl h
  next_id := rfl
  opened := rfl
  streams := rfl
  dead h := h
  sent := ⟨[], (List.append_nil _).symm, by simp, by simp, by simp⟩

theorem Quiet.trans {a b c : Mux} (h₁ : Quiet C a b) (h₂ : Quiet C b c) : Quiet C a c where
  id i := (h₂.id i).trans (h₁.id i)
  buffer i := (h₂.buffer i).trans (h₁.buffer i)
  closed i h := h₂.closed i (h₁.closed i h)
  closes i h := (h₂.closes i h).elim (h₁.closes i) .inr
  next_id := h₂.next_id.trans h₁.next_id
  opened := h₂.opened.trans h₁.opened
  streams := h₂.streams.trans h₁.streams
  dead h := h₁.dead (h₂.dead h)
  sent := by
    obtain ⟨es, hes, hstill, hout, hfin⟩ := h₁.sent
    obtain ⟨fs, hfs, hstill', hout', hfin'⟩ := h₂.sent
    refine ⟨es ++ fs, by rw [hfs, hes, List.append_assoc], ?_, fun hd => ?_, ?_⟩
    · exact fun e he => (List.mem_append.1 he).elim (hstill e) (hstill' e)
    · exact fun e he => (List.mem_append.1 he).elim (hout (h₂.dead hd) e) (hout' hd e)
    · intro e he x hx
      rcases List.mem_append.1 he with he | he
      · obtain ⟨i, hi, hclosed⟩ := hfin e he x hx
        exact ⟨i, (h₂.id i).trans hi, h₂.closed i hclosed⟩
      · exact hfin' e he x hx

theorem Quiet.weaken {m m' : Mux} (hCD : ∀ i, C i → D i) (h : Quiet C m m') : Quiet D m m' :=
  { h with closes := fun i hi => (h.closes i hi).imp_right (hCD i) }

/-- A frame that ends no stream, or one that is closed already. -/
theorem quiet_log {m : Mux} {f : Frame} (hf : f.Still)
    (hfin : ∀ x, f.hangs_up = some x → ∃ i, m.id i = some x ∧ m.closed i = true) : Quiet C m (m.log f true) where
  id _ := rfl
  buffer _ := rfl
  closed _ h := h
  closes _ h := .inl h
  next_id := rfl
  opened := rfl
  streams := rfl
  dead h := h
  sent := by
    refine ⟨[(f, true)], rfl, ?_, fun _ => ?_, ?_⟩
    · simpa using hf
    · simp
    · intro e he x hx
      rw [List.mem_singleton.1 he] at hx
      exact hfin x hx

theorem quiet_lost {m : Mux} {f : Frame} (hf : f.Still)
    (hfin : ∀ x, f.hangs_up = some x → ∃ i, m.id i = some x ∧ m.closed i = true) :
    Quiet C m (m.log f false).killed where
  id _ := rfl
  buffer _ := rfl
  closed _ h := h
  closes _ h := .inl h
  next_id := rfl
  opened := rfl
  streams := rfl
  dead h := by cases h
  sent := by
    refine ⟨[(f, false)], rfl, ?_, ?_, ?_⟩
    · simpa using hf
    · intro h
      cases h
    · intro e he x hx
      rw [List.mem_singleton.1 he] at hx
      exact hfin x hx

theorem quiet_sends {m : Mux} {f : Frame} (hf : f.Still)
    (hfin : ∀ x, f.hangs_up = some x → ∃ i, m.id i = some x ∧ m.closed i = true) : Quiet C m (m.sends socket f) := by
  unfold Mux.sends
  split
  · exact quiet_log hf hfin
  · exact quiet_lost hf hfin

theorem quiet_killed (m : Mux) : Quiet C m m.killed where
  id _ := rfl
  buffer _ := rfl
  closed _ h := h
  closes _ h := .inl h
  next_id := rfl
  opened := rfl
  streams := rfl
  dead h := by cases h
  sent := ⟨[], (List.append_nil _).symm, by simp, by simp, by simp⟩

theorem quiet_polled (m : Mux) : Quiet C m m.polled.2 := by
  unfold Mux.polled
  cases m.dead with
  | true => exact Quiet.refl m
  | false =>
    cases m.pending_accept with
    | none => exact Quiet.refl m
    | some i =>
      exact ⟨fun _ => rfl, fun _ => rfl, fun _ h => h, fun _ h => .inl h, rfl, rfl, rfl, fun h => h,
        ⟨[], (List.append_nil _).symm, by simp, by simp, by simp⟩⟩

/-! ## Closing a stream -/

theorem id_set_closed (m : Mux) (i j : Nat) : (m.set_closed i).id j = m.id j := by
  unfold Mux.id Mux.set_closed Mux.modify
  rw [List.getElem?_modify]
  cases m.objects[j]? with
  | none => rfl
  | some o => by_cases h : i = j <;> simp [h]

theorem buffer_set_closed (m : Mux) (i j : Nat) : (m.set_closed i).buffer j = m.buffer j := by
  unfold Mux.buffer Mux.set_closed Mux.modify
  rw [List.getElem?_modify]
  cases m.objects[j]? with
  | none => rfl
  | some o => by_cases h : i = j <;> simp [h]

theorem closed_set_closed {m : Mux} {i : Nat} (h : i < m.objects.length) (j : Nat) :
    (m.set_closed i).closed j = (decide (j = i) || m.closed j) := by
  unfold Mux.closed Mux.set_closed Mux.modify
  rw [List.getElem?_modify]
  by_cases hij : i = j
  · subst hij
    simp [List.getElem?_eq_getElem h]
  · cases m.objects[j]? with
    | none => simp [Ne.symm hij]
    | some o => simp [hij, Ne.symm hij]

theorem quiet_set_closed {m : Mux} {i : Nat} (h : i < m.objects.length) : Quiet (· = i) m (m.set_closed i) where
  id := id_set_closed m i
  buffer := buffer_set_closed m i
  closed j hj := by rw [closed_set_closed h, hj, Bool.or_true]
  closes j hj := by
    rw [closed_set_closed h, Bool.or_eq_true, decide_eq_true_eq] at hj
    exact hj.symm
  next_id := rfl
  opened := rfl
  streams := rfl
  dead h := h
  sent := ⟨[], (List.append_nil _).symm, by simp, by simp, by simp⟩

/-- The FIN of a closed object names it. -/
theorem fin_of_closed {m : Mux} {i : Nat} (h : i < m.objects.length) {x : UInt32} (hx : (m.fin_frame i).hangs_up = some x) :
    ∃ j, (m.set_closed i).id j = some x ∧ (m.set_closed i).closed j = true := by
  obtain ⟨y, hy⟩ := Mux.id_of_lt h
  have hid : m.objects[i]?.map MuxStream.id = some y := hy
  rw [Frame.hangs_up_fin, hid, Option.getD_some] at hx
  refine ⟨i, ?_, ?_⟩
  · rw [id_set_closed, hy, hx]
  · rw [closed_set_closed h, decide_eq_true rfl, Bool.true_or]

theorem quiet_hangs {m : Mux} {i : Nat} (h : i < m.objects.length) : Quiet (· = i) m (m.hangs socket i) := by
  unfold Mux.hangs
  split
  · exact quiet_set_closed h
  · exact (quiet_set_closed h).trans (quiet_sends (Frame.still_fin m i) fun x hx => fin_of_closed h hx)

theorem quiet_closes {m : Mux} {i : Nat} (h : i < m.objects.length) : Quiet (· = i) m (m.closes i) := by
  unfold Mux.closes Mux.fins
  split
  · have hsame : { m.set_closed i with sent := m.sent ++ ([] : List Frame).map (·, true) } = m.set_closed i := by
      simp [Mux.set_closed, Mux.modify]
    rw [hsame]
    exact quiet_set_closed h
  · exact (quiet_set_closed h).trans (quiet_log (Frame.still_fin m i) fun x hx => fin_of_closed h hx)

theorem quiet_closes_all {m : Mux} (is : List Nat) (h : ∀ i ∈ is, i < m.objects.length) :
    Quiet (· ∈ is) m (m.closes_all is) := by
  induction is generalizing m with
  | nil => exact Quiet.refl m
  | cons i is ih =>
    have hi := quiet_closes (h i List.mem_cons_self)
    have hrest := ih fun j hj => (hi.length j).2 (h j (List.mem_cons_of_mem _ hj))
    exact (hi.weaken fun j hj => hj ▸ List.mem_cons_self).trans (hrest.weaken fun j hj => List.mem_cons_of_mem _ hj)

/-! ## Frames of the peer -/

/-- Every entry of the table stands under the id of its object. -/
def Tabled (m : Mux) : Prop := ∀ e ∈ m.streams, m.id e.2 = some e.1

/-- A frame that carries nothing and opens nothing closes at most the stream it
hangs up. -/
theorem quiet_frame {m m' : Mux} {f : Frame} (htable : Tabled m) (hdata : f.carries = none) (hsyn : f.announces = none)
    (h : Mux.on_frame socket f [] m = .ok ((), m')) : Quiet (fun i => ∃ x, f.hangs_up = some x ∧ m.id i = some x) m m' := by
  have htype : ¬ f.type = kTypeData := fun htype => by simp [Frame.carries, htype] at hdata
  unfold Mux.on_frame at h
  rw [if_neg htype] at h
  split at h
  · rename_i hwindow
    have hflag : ¬ f.flags &&& kFlagSyn ≠ 0 := fun hflag => by simp [Frame.announces, hwindow, hflag] at hsyn
    rw [if_neg hflag] at h
    split at h
    · rename_i hfin
      have hends : f.hangs_up = some f.stream_id := if_pos ⟨hwindow, not_not.1 hflag, hfin⟩
      obtain rfl := (under_ok (Mux.on_fin_mu f.stream_id m) h).2
      unfold Mux.ends
      cases hi : m.streams.lookup f.stream_id with
      | none => exact Quiet.refl m
      | some i =>
        have hid : m.id i = some f.stream_id := htable _ (mem_of_lookup hi)
        refine (quiet_closes (Mux.id_lt hid)).weaken fun j hj => ⟨f.stream_id, hends, ?_⟩
        rw [hj, hid]
    · obtain ⟨-, rfl⟩ := Prod.mk.inj (Except.ok.inj h)
      exact Quiet.refl m
  · split at h
    · unfold Mux.on_ping at h
      split at h
      · obtain ⟨r, h⟩ := dropped h
        rw [Mux.send_frame_run] at h
        obtain ⟨-, rfl⟩ := Prod.mk.inj (Except.ok.inj h)
        exact quiet_sends Frame.still_pong fun x hx => by simp [Frame.hangs_up, kTypePing, kTypeWindowUpdate] at hx
      · obtain ⟨-, rfl⟩ := Prod.mk.inj (Except.ok.inj h)
        exact Quiet.refl m
    · split at h
      · rw [Mux.die_run] at h
        obtain ⟨-, rfl⟩ := Prod.mk.inj (Except.ok.inj h)
        exact quiet_killed m
      · obtain ⟨-, rfl⟩ := Prod.mk.inj (Except.ok.inj h)
        exact Quiet.refl m

/-! ## A new stream -/

/-- One object more, in the table under its id; it is open and has no bytes. -/
structure Adds (x : UInt32) (m m' : Mux) : Prop where
  id : ∀ i, m'.id i = if i = m.objects.length then some x else m.id i
  buffer : ∀ i, m'.buffer i = m.buffer i
  closed : ∀ i, m'.closed i = m.closed i
  streams : m'.streams = assign x m.objects.length m.streams
  dead : m'.dead = m.dead

theorem adds_put (m : Mux) (x : UInt32) : Adds x m (m.put x) := by
  have hobjects (i : Nat) : (m.put x).objects[i]? = if i = m.objects.length then some (MuxStream.new x) else m.objects[i]? := by
    show (m.objects ++ [MuxStream.new x])[i]? = _
    rw [List.getElem?_append]
    split
    · rename_i hlt
      rw [if_neg (ne_of_lt hlt)]
    · rename_i hge
      by_cases hi : i = m.objects.length
      · simp [hi]
      · have hout : m.objects.length < i := lt_of_le_of_ne (not_lt.1 hge) (Ne.symm hi)
        rw [if_neg hi, List.getElem?_eq_none (not_lt.1 hge), List.getElem?_eq_none]
        rw [List.length_singleton]
        omega
  have hnone : m.objects[m.objects.length]? = none := List.getElem?_eq_none le_rfl
  refine ⟨fun i => ?_, fun i => ?_, fun i => ?_, rfl, rfl⟩
  · unfold Mux.id
    rw [hobjects]
    split <;> rfl
  · unfold Mux.buffer
    rw [hobjects]
    split
    · rename_i hi
      rw [hi, hnone]
      rfl
    · rfl
  · unfold Mux.closed
    rw [hobjects]
    split
    · rename_i hi
      rw [hi, hnone]
      rfl
    · rfl

/-- Under an id that no object has, nothing is replaced. -/
theorem registers_fresh {m : Mux} {x : UInt32} (htable : Tabled m) (hfresh : ∀ i, m.id i ≠ some x) :
    m.registers x = m.put x := by
  have hnone : m.streams.lookup x = none := by
    cases hi : m.streams.lookup x with
    | none => rfl
    | some i => exact absurd (htable _ (mem_of_lookup hi)) (hfresh i)
  have hreplaced : m.replaced x = none := by rw [Mux.replaced, hnone, Option.filter_none]
  rw [Mux.registers, hreplaced]

theorem adds_opens {m : Mux} (htable : Tabled m) (hfresh : ∀ i, m.id i ≠ some m.next_id) :
    Adds m.next_id m m.opens ∧ m.opens.next_id = m.next_id + 2 ∧ m.opens.opened = m.opened ∧
      m.opens.sent = m.sent ++ [(Mux.syn_frame m.next_id, true)] := by
  have hput : m.numbered.registers m.next_id = m.numbered.put m.next_id := registers_fresh htable hfresh
  have hadds := adds_put m.numbered m.next_id
  rw [Mux.opens, hput]
  exact ⟨⟨hadds.id, hadds.buffer, hadds.closed, hadds.streams, hadds.dead⟩, rfl, rfl, rfl⟩

theorem adds_offers {m : Mux} {x : UInt32} (htable : Tabled m) (hfresh : ∀ i, m.id i ≠ some x) :
    Adds x m (m.offers x) ∧ (m.offers x).next_id = m.next_id ∧ (m.offers x).opened = m.opened ++ [m.objects.length] ∧
      (m.offers x).sent = m.sent ++ [(Mux.ack_frame x, true)] := by
  have hadds := adds_put m x
  rw [Mux.offers, registers_fresh htable hfresh]
  exact ⟨⟨hadds.id, hadds.buffer, hadds.closed, hadds.streams, hadds.dead⟩, rfl, rfl, rfl⟩

/-! ## Data -/

section
variable {m : Mux} {f : Frame}

theorem id_feeds (j : Nat) : (m.feeds f).id j = m.id j := by
  unfold Mux.feeds
  cases m.streams.lookup f.stream_id with
  | none => rfl
  | some i =>
    unfold Mux.id Mux.modify
    rw [List.getElem?_modify]
    cases m.objects[j]? with
    | none => rfl
    | some o => by_cases h : i = j <;> simp [h, MuxStream.push_data]

theorem closed_feeds (j : Nat) : (m.feeds f).closed j = m.closed j := by
  unfold Mux.feeds
  cases m.streams.lookup f.stream_id with
  | none => rfl
  | some i =>
    unfold Mux.closed Mux.modify
    rw [List.getElem?_modify]
    cases m.objects[j]? with
    | none => rfl
    | some o => by_cases h : i = j <;> simp [h, MuxStream.push_data]

/-- The stream that stands in the table gets the payload, and no other does. -/
theorem buffer_feeds (htable : Tabled m) (j : Nat) :
    (m.feeds f).buffer j = m.buffer j ++ if m.streams.lookup f.stream_id = some j then f.payload else [] := by
  unfold Mux.feeds
  cases hi : m.streams.lookup f.stream_id with
  | none => simp
  | some i =>
    have hlt : i < m.objects.length := Mux.id_lt (htable _ (mem_of_lookup hi))
    unfold Mux.buffer Mux.modify
    rw [List.getElem?_modify]
    by_cases hij : i = j
    · subst hij
      simp [List.getElem?_eq_getElem hlt, MuxStream.push_data]
    · cases m.objects[j]? with
      | none => simp [hij]
      | some o => simp [hij]

theorem numbers_feeds : numbers (m.feeds f) = numbers m ∧ (m.feeds f).sent = m.sent ∧ (m.feeds f).dead = m.dead := by
  unfold Mux.feeds
  cases m.streams.lookup f.stream_id <;> exact ⟨rfl, rfl, rfl⟩

end

end

end Hostely.Tunnel
