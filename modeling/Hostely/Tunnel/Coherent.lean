import Hostely.Tunnel.Peers
/-!
# What every step of a side keeps

One lemma for each kind of change, and from these one for each thing a side can do.
The other side only sees that more is sent.
-/

open Hostely.Lib

namespace Hostely.Tunnel

/-! ## What an event does to the reader -/

/-- The reader does not come back, and `close()` goes on only when it is gone. -/
structure Lasting (s t : Session) : Prop where
  finished : s.finished = true → t.finished = true
  joined : ∀ d, t.closer = some (d, true) → s.closer = some (d, true) ∨ t.finished = true

section
variable {socket : Nat → List Int}

theorem Lasting.refl (s : Session) : Lasting s s := ⟨id, fun _ => .inl⟩

theorem close_join_finished {s t : Session} (h : s.next socket .close_join = some t) : t.finished = true := by
  unfold Session.next at h
  split at h
  · cases h
  · simp only at h
    split at h
    · split at h
      · obtain rfl := Option.some.inj h
        assumption
      · cases h
    · cases h

theorem close_finish_joined {s t : Session} (h : s.next socket .close_finish = some t) :
    ∃ d, s.closer = some (d, true) := by
  unfold Session.next at h
  split at h
  · cases h
  · simp only at h
    split at h
    · exact ⟨_, ‹_›⟩
    · cases h

theorem handling_reader {s t : Session} {f : Frame} (h : s.next socket (.act (.frame f)) = some t) :
    s.finished = false := by
  unfold Session.next at h
  split at h
  · cases h
  · simp only at h
    split at h
    · cases h
    · rename_i hgo
      simpa [Act.by_reader] using hgo

theorem lasting_next {s t : Session} {e : Event} (h : s.next socket e = some t) : Lasting s t := by
  by_cases hjoin : e = .close_join
  · subst hjoin
    have hfinished := close_join_finished h
    exact ⟨fun _ => hfinished, fun _ _ => .inr hfinished⟩
  · cases (next_moves h).2 with
    | act a m hrun => exact ⟨fun hf => by simp [hf], fun _ => .inl⟩
    | stuck => exact ⟨id, fun _ => .inl⟩
    | reader_stops => exact ⟨fun _ => rfl, fun _ _ => .inr rfl⟩
    | too_late => exact ⟨id, fun _ => .inl⟩
    | close_enter d =>
      refine ⟨id, fun d' hd => ?_⟩
      cases hd
    | close_join => exact absurd rfl hjoin
    | close_finish =>
      refine ⟨id, fun d' hd => ?_⟩
      cases hd

end

/-! ## One lemma for each kind of change -/

section
variable {client : Bool} {p p' q q' : Peer}

theorem outgoing_append {es : List (Frame × Bool)} (h : p'.mux.sent = p.mux.sent ++ es) :
    p'.outgoing = p.outgoing ++ (es.filter Prod.snd).map Prod.fst := by
  rw [Peer.outgoing, Peer.outgoing, h, List.filter_append, List.map_append]

/-- The side as the sender: what the other has read stays read. -/
theorem Between.sender (h : Between q p) (hsent : p.mux.sent <+: p'.mux.sent) : Between q p' := by
  obtain ⟨hgot, hread⟩ := Peer.got_grows h.read hsent
  exact ⟨hread, by rw [hgot]; exact h.opened, by rw [hgot]; exact h.got, by rw [hgot]; exact h.ended⟩

/-- Nothing is written, read or opened. -/
structure Same (p p' : Peer) : Prop where
  own : p'.side.own = p.side.own
  written : p'.written = p.written
  taken : p'.taken = p.taken
  lasting : Lasting p.side.session p'.side.session

theorem Alone.quiet {C : Nat → Prop} (h : Alone client p) (hs : Same p p') (hm : Quiet C p.mux p'.mux) : Alone client p' := by
  obtain ⟨es, hes, hstill, hout, hfin⟩ := hm.sent
  have hmem (e : Frame × Bool) (he : e ∈ p'.mux.sent) : e ∈ p.mux.sent ∨ e ∈ es := by
    rwa [hes, List.mem_append] at he
  have hannounces : ∀ f ∈ es.map Prod.fst, f.announces = none := by
    intro f hf
    obtain ⟨e, he, rfl⟩ := List.mem_map.1 hf
    exact (hstill e he).announces
  constructor
  · refine h.numbered.same hs.own ?_
    show (p'.mux.next_id, p'.mux.streams, p'.mux.opened) = (p.mux.next_id, p.mux.streams, p.mux.opened)
    rw [hm.next_id, hm.streams, hm.opened]
  · intro i j x hi hj
    exact h.unique i j x (hm.id i ▸ hi) (hm.id j ▸ hj)
  · intro i x hi
    rw [hs.own, hm.opened]
    exact h.mine i x (hm.id i ▸ hi)
  · intro e he
    rw [hm.id]
    exact h.own e (hs.own ▸ he)
  · intro e he
    rw [hm.id]
    exact h.table e (hm.streams ▸ he)
  · intro hrun i x hi
    rw [hm.streams]
    refine h.standing ?_ i x (hm.id i ▸ hi)
    exact Bool.eq_false_iff.2 fun hf => by rw [hs.lasting.finished hf] at hrun; cases hrun
  · intro d hd
    exact (hs.lasting.joined d hd).elim (fun hc => hs.lasting.finished (h.joined d hc)) id
  · intro e he x b hx
    rcases hmem e he with he | he
    · obtain ⟨i, hi⟩ := h.known e he x b hx
      exact ⟨i, (hm.id i).trans hi⟩
    · rw [(hstill e he).carries] at hx
      cases hx
  · rw [hes, List.map_append]
    exact h.in_order.append hannounces
  · rw [hes, List.map_append, announced_append, announced_eq_nil hannounces, List.append_nil, hs.own]
    exact h.syns
  · intro e he
    exact (hmem e he).elim (h.sendable e) fun he => (hstill e he).sendable
  · intro hd e he
    exact (hmem e he).elim (h.alive (hm.dead hd) e) (hout hd e)
  · intro e he x hx
    rcases hmem e he with he | he
    · obtain ⟨i, hi, hclosed⟩ := h.fins e he x hx
      exact ⟨i, (hm.id i).trans hi, hm.closed i hclosed⟩
    · exact hfin e he x hx
  · intro i x hi
    have hnone : project Frame.carries x ((es.filter Prod.snd).map Prod.fst) = [] := by
      refine project_eq_nil fun f hf b => ?_
      obtain ⟨e, he, rfl⟩ := List.mem_map.1 hf
      simp [(hstill e (List.mem_filter.1 he).1).carries]
    rw [outgoing_append hes, project_append, hnone, List.append_nil, hs.written]
    exact h.written i x (hm.id i ▸ hi)
  · intro i hi
    rw [hs.written, hs.taken]
    exact h.unused i (hm.id i ▸ hi)

/-- A side closes streams of its own accord. -/
theorem Between.quiet {C : Nat → Prop} (h : Between p q) (hs : Same p p') (hm : Quiet C p.mux p'.mux) (hread : p'.read = p.read)
    (hhung : p.hung ⊆ p'.hung) (hC : ∀ i, C i → i ∈ p'.hung) : Between p' q := by
  have hgot : p'.got q = p.got q := by rw [Peer.got, Peer.got, hread]
  constructor
  · rw [hread]
    exact h.read
  · rw [hgot, hm.opened, funext hm.id]
    exact h.opened
  · intro i x hi
    rw [hgot, hs.taken, hm.buffer]
    exact h.got i x (hm.id i ▸ hi)
  · intro i x hi hclosed
    rw [hgot]
    rcases hm.closes i hclosed with hc | hc
    · exact (h.ended i x (hm.id i ▸ hi) hc).imp_left fun hi => hhung hi
    · exact .inl (hC i hc)

/-- Its reader handles a frame that carries nothing and opens nothing. -/
theorem Between.handled {f : Frame} (h : Between p q) (hs : Same p p') (hf : q.wire[p.read]? = some f) (hcarries : f.carries = none)
    (hannounces : f.announces = none) (hm : Quiet (fun i => ∃ x, f.hangs_up = some x ∧ p.mux.id i = some x) p.mux p'.mux)
    (hread : p'.read = p.read + 1) (hhung : p'.hung = p.hung) : Between p' q := by
  obtain ⟨hgot, hle⟩ := Peer.got_next hf hread
  constructor
  · exact hle
  · have hnone : announced Frame.announces [f] = [] := announced_eq_nil (by simpa using hannounces)
    rw [hgot, announced_append, hnone, List.append_nil, hm.opened, funext hm.id]
    exact h.opened
  · intro i x hi
    have hnone : project Frame.carries x [f] = [] := project_singleton_other fun b => by simp [hcarries]
    rw [hgot, project_append, hnone, List.append_nil, hs.taken, hm.buffer]
    exact h.got i x (hm.id i ▸ hi)
  · intro i x hi hclosed
    rw [hm.id] at hi
    rw [hgot, hhung]
    rcases hm.closes i hclosed with hc | ⟨y, hy, hiy⟩
    · exact (h.ended i x hi hc).imp_right fun ⟨g, hg, hx⟩ => ⟨g, List.mem_append_left _ hg, hx⟩
    · obtain rfl := Option.some.inj (hi.symm.trans hiy)
      exact .inr ⟨f, by simp, hy⟩

/-- Only the bytes in the buffers change, or the table is cleared for good. -/
structure Alike (p p' : Peer) : Prop where
  id : ∀ i, p'.mux.id i = p.mux.id i
  closed : ∀ i, p'.mux.closed i = p.mux.closed i
  opened : p'.mux.opened = p.mux.opened
  sent : p'.mux.sent = p.mux.sent
  dead : p'.mux.dead = p.mux.dead
  streams : p'.mux.streams = p.mux.streams ∨ p'.mux.streams = [] ∧ p'.side.session.finished = true
  own : p'.side.own = p.side.own
  written : p'.written = p.written
  lasting : Lasting p.side.session p'.side.session

theorem Alone.alike (h : Alone client p) (hm : Alike p p') (hnumbered : Numbered client p'.side)
    (htaken : ∀ i, p.mux.id i = none → p'.taken i = p.taken i) : Alone client p' := by
  have hout : p'.outgoing = p.outgoing := by rw [Peer.outgoing, Peer.outgoing, hm.sent]
  constructor
  · exact hnumbered
  · intro i j x hi hj
    exact h.unique i j x (hm.id i ▸ hi) (hm.id j ▸ hj)
  · intro i x hi
    rw [hm.own, hm.opened]
    exact h.mine i x (hm.id i ▸ hi)
  · intro e he
    rw [hm.id]
    exact h.own e (hm.own ▸ he)
  · intro e he
    rcases hm.streams with hs | ⟨hs, -⟩
    · rw [hm.id]
      exact h.table e (hs ▸ he)
    · rw [hs] at he
      cases he
  · intro hrun i x hi
    rcases hm.streams with hs | ⟨-, hf⟩
    · rw [hs]
      refine h.standing ?_ i x (hm.id i ▸ hi)
      exact Bool.eq_false_iff.2 fun hf => by rw [hm.lasting.finished hf] at hrun; cases hrun
    · rw [hf] at hrun
      cases hrun
  · intro d hd
    exact (hm.lasting.joined d hd).elim (fun hc => hm.lasting.finished (h.joined d hc)) id
  · intro e he x b hx
    obtain ⟨i, hi⟩ := h.known e (hm.sent ▸ he) x b hx
    exact ⟨i, (hm.id i).trans hi⟩
  · rw [hm.sent]
    exact h.in_order
  · rw [hm.sent, hm.own]
    exact h.syns
  · rw [hm.sent]
    exact h.sendable
  · rw [hm.sent, hm.dead]
    exact h.alive
  · intro e he x hx
    obtain ⟨i, hi, hc⟩ := h.fins e (hm.sent ▸ he) x hx
    exact ⟨i, (hm.id i).trans hi, (hm.closed i).trans hc⟩
  · intro i x hi
    rw [hout, hm.written]
    exact h.written i x (hm.id i ▸ hi)
  · intro i hi
    rw [hm.id] at hi
    rw [hm.written, htaken i hi]
    exact h.unused i hi

/-- The bytes of a stream are as many as before, read or not. -/
theorem Between.alike (h : Between p q) (hid : ∀ i, p'.mux.id i = p.mux.id i) (hclosed : ∀ i, p'.mux.closed i = p.mux.closed i)
    (hopened : p'.mux.opened = p.mux.opened) (hread : p'.read = p.read) (hhung : p'.hung = p.hung)
    (hbytes : ∀ i x, p.mux.id i = some x → p'.taken i ++ p'.mux.buffer i = p.taken i ++ p.mux.buffer i) : Between p' q := by
  have hgot : p'.got q = p.got q := by rw [Peer.got, Peer.got, hread]
  constructor
  · rw [hread]
    exact h.read
  · rw [hgot, hopened, funext hid]
    exact h.opened
  · intro i x hi
    rw [hid] at hi
    rw [hgot, hbytes i x hi]
    exact h.got i x hi
  · intro i x hi hc
    rw [hgot, hhung]
    exact h.ended i x (hid i ▸ hi) (hclosed i ▸ hc)

/-! ### A new stream -/

theorem Adds.old {m m' : Mux} {x y : UInt32} {i : Nat} (h : Adds x m m') (hi : m.id i = some y) : m'.id i = some y := by
  rw [h.id, if_neg (ne_of_lt (Mux.id_lt hi)), hi]

theorem Adds.cases {m m' : Mux} {x y : UInt32} {i : Nat} (h : Adds x m m') (hi : m'.id i = some y) :
    i = m.objects.length ∧ y = x ∨ m.id i = some y := by
  rw [h.id] at hi
  split at hi
  · exact .inl ⟨‹_›, (Option.some.inj hi).symm⟩
  · exact .inr hi

theorem id_length (m : Mux) : m.id m.objects.length = none := by
  rw [Mux.id, List.getElem?_eq_none le_rfl, Option.map_none]

/-- A side by itself when it gets a stream under a new id, its own or the other's. -/
theorem Alone.adds {x : UInt32} {f : Frame} (h : Alone client p) (hfresh : ∀ i, p.mux.id i ≠ some x) (hm : Adds x p.mux p'.mux)
    (hnumbered : Numbered client p'.side) (hsent : p'.mux.sent = p.mux.sent ++ [(f, true)]) (hf : f.carries = none)
    (hends : f.hangs_up = none) (hsendable : Sendable f) (hannounces : f.announces = none ∨ f.announces = some x)
    (hown : p'.side.own.map Prod.fst = p.side.own.map Prod.fst ++ f.announces.toList)
    (howned : ∀ e ∈ p'.side.own, e ∈ p.side.own ∨ e = (x, p.mux.objects.length))
    (hmine : p.side.own ⊆ p'.side.own ∧ p.mux.opened ⊆ p'.mux.opened)
    (hnew : (x, p.mux.objects.length) ∈ p'.side.own ∨ p.mux.objects.length ∈ p'.mux.opened)
    (hwritten : p'.written = p.written) (htaken : p'.taken = p.taken) (hlasting : Lasting p.side.session p'.side.session) :
    Alone client p' := by
  have hmem (e : Frame × Bool) (he : e ∈ p'.mux.sent) : e ∈ p.mux.sent ∨ e = (f, true) := by
    rwa [hsent, List.mem_append, List.mem_singleton] at he
  constructor
  · exact hnumbered
  · intro i j y hi hj
    rcases hm.cases hi with ⟨rfl, rfl⟩ | hi
    · rcases hm.cases hj with ⟨rfl, -⟩ | hj
      · rfl
      · exact absurd hj (hfresh j)
    · rcases hm.cases hj with ⟨rfl, rfl⟩ | hj
      · exact absurd hi (hfresh i)
      · exact h.unique i j y hi hj
  · intro i y hi
    rcases hm.cases hi with ⟨rfl, rfl⟩ | hi
    · exact hnew
    · exact (h.mine i y hi).imp (fun hi => hmine.1 hi) fun hi => hmine.2 hi
  · intro e he
    rcases howned e he with he | rfl
    · exact hm.old (h.own e he)
    · rw [hm.id, if_pos rfl]
  · intro e he
    rw [hm.streams] at he
    rcases mem_assign he with rfl | he
    · rw [hm.id, if_pos rfl]
    · exact hm.old (h.table e he)
  · intro hrun i y hi
    have hrun' : p.side.session.finished = false :=
      Bool.eq_false_iff.2 fun hf => by rw [hlasting.finished hf] at hrun; cases hrun
    rw [hm.streams, lookup_assign]
    rcases hm.cases hi with ⟨rfl, rfl⟩ | hi
    · rw [beq_self_eq_true, if_pos rfl]
    · have hne : y ≠ x := fun hy => hfresh i (hy ▸ hi)
      rw [beq_false_of_ne hne, if_neg (by decide)]
      exact h.standing hrun' i y hi
  · intro d hd
    exact (hlasting.joined d hd).elim (fun hc => hlasting.finished (h.joined d hc)) id
  · intro e he y b hy
    rcases hmem e he with he | rfl
    · obtain ⟨i, hi⟩ := h.known e he y b hy
      exact ⟨i, hm.old hi⟩
    · rw [hf] at hy
      cases hy
  · rw [hsent, List.map_append]
    refine h.in_order.announce fun k hk g hg b hb => ?_
    have hkx : k = x := by
      rcases hannounces with hnone | hsome
      · rw [hnone] at hk
        cases hk
      · exact (Option.some.inj (hsome.symm.trans hk)).symm
    -- data for the new id would belong to an object with it
    obtain ⟨e, he, rfl⟩ := List.mem_map.1 hg
    obtain ⟨i, hi⟩ := h.known e he k b hb
    exact hfresh i (hkx ▸ hi)
  · have hlast : announced Frame.announces ([(f, true)].map Prod.fst) = f.announces.toList := by
      cases hfa : f.announces <;> simp [announced, hfa]
    rw [hsent, List.map_append, announced_append, h.syns, hlast, hown]
  · intro e he
    rcases hmem e he with he | rfl
    · exact h.sendable e he
    · exact hsendable
  · intro hd e he
    rcases hmem e he with he | rfl
    · exact h.alive (hm.dead ▸ hd) e he
    · rfl
  · intro e he y hy
    rcases hmem e he with he | rfl
    · obtain ⟨i, hi, hc⟩ := h.fins e he y hy
      exact ⟨i, hm.old hi, (hm.closed i).trans hc⟩
    · rw [hends] at hy
      cases hy
  · intro i y hi
    have hnone : project Frame.carries y ([(f, true)].filter Prod.snd |>.map Prod.fst) = [] :=
      project_singleton_other fun b => by simp [hf]
    rw [outgoing_append hsent, project_append, hnone, List.append_nil, hwritten]
    rcases hm.cases hi with ⟨rfl, rfl⟩ | hi
    · rw [(h.unused _ (id_length p.mux)).1]
      refine (project_eq_nil fun g hg b hb => ?_).symm
      obtain ⟨e, he, rfl⟩ := List.mem_map.1 hg
      obtain ⟨i, hi⟩ := h.known e (List.mem_filter.1 he).1 y b hb
      exact hfresh i hi
    · exact h.written i y hi
  · intro i hi
    rw [hwritten, htaken]
    refine h.unused i ?_
    rw [hm.id] at hi
    split at hi
    · cases hi
    · exact hi

/-- Data is sent for streams that exist. -/
theorem data_known (hq : Alone client q) {x : UInt32} (hnone : ∀ i, q.mux.id i ≠ some x) :
    project Frame.carries x (p.got q) = [] := by
  refine project_eq_nil fun f hf b hb => ?_
  have hsent : f ∈ q.mux.sent.map Prod.fst := ((List.take_prefix _ _).trans q.wire_prefix_sent).subset hf
  obtain ⟨e, he, rfl⟩ := List.mem_map.1 hsent
  obtain ⟨i, hi⟩ := hq.known e he x b hb
  exact hnone i hi

/-- The other side does not know the next id of this one. -/
theorem unknown_next (hp : Alone client p) (hq : Alone (!client) q) (hqp : Between q p) (hfew : p.side.own.length < 2 ^ 31) (i : Nat) :
    q.mux.id i ≠ some p.mux.next_id := by
  intro hi
  have hnext : p.mux.next_id = nth_id client p.side.own.length := hp.numbered.next
  rcases hq.mine i _ hi with hmem | hmem
  · obtain ⟨j, -, -, hj⟩ := hq.numbered.id_eq hmem
    exact nth_id_apart (hnext.symm.trans hj)
  · have hp' : Alone (!!client) p := by rwa [Bool.not_not]
    obtain ⟨-, e, he, hx⟩ := hqp.peers_id hp' hmem hi
    obtain ⟨j, -, hlt, hj⟩ := hp.numbered.id_eq he
    have hsame : nth_id client j = nth_id client p.side.own.length := hj.symm.trans (hx.trans hnext)
    have := nth_id_inj (by omega) hfew hsame
    omega

/-- A stream of its own, of which the other side has not heard. -/
theorem Between.opens {x : UInt32} (h : Between p q) (hp : Alone client p) (hq : Alone (!client) q) (hm : Adds x p.mux p'.mux)
    (hunknown : ∀ i, q.mux.id i ≠ some x) (hopened : p'.mux.opened = p.mux.opened) (hread : p'.read = p.read)
    (htaken : p'.taken = p.taken) (hhung : p'.hung = p.hung) : Between p' q := by
  have hgot : p'.got q = p.got q := by rw [Peer.got, Peer.got, hread]
  constructor
  · rw [hread]
    exact h.read
  · rw [hgot, hopened, ← h.opened]
    refine List.map_congr_left fun i hi => ?_
    obtain ⟨y, -, hy⟩ := List.mem_map.1 (h.opened ▸ List.mem_map_of_mem hi)
    rw [← hy]
    exact hm.old hy.symm
  · intro i y hi
    rw [hgot, htaken, hm.buffer]
    rcases hm.cases hi with ⟨rfl, rfl⟩ | hi
    · have hbuffer : p.mux.buffer p.mux.objects.length = [] := by rw [Mux.buffer, List.getElem?_eq_none le_rfl]; rfl
      rw [(hp.unused _ (id_length p.mux)).2, hbuffer, data_known hq hunknown]
      rfl
    · exact h.got i y hi
  · intro i y hi hc
    rw [hm.closed] at hc
    rw [hgot, hhung]
    rcases hm.cases hi with ⟨rfl, -⟩ | hi
    · rw [Mux.closed, List.getElem?_eq_none le_rfl] at hc
      cases hc
    · exact h.ended i y hi hc

/-- A stream of the other side, whose SYN the reader handles. -/
theorem Between.offers {x : UInt32} {f : Frame} (h : Between p q) (hp : Alone client p) (hq : Alone (!client) q)
    (hf : q.wire[p.read]? = some f) (hx : f.announces = some x) (hm : Adds x p.mux p'.mux)
    (hopened : p'.mux.opened = p.mux.opened ++ [p.mux.objects.length]) (hread : p'.read = p.read + 1)
    (htaken : p'.taken = p.taken) (hhung : p'.hung = p.hung) : Between p' q := by
  obtain ⟨hgot, hle⟩ := Peer.got_next hf hread
  have hcarries (y : UInt32) (b : Bytes) : f.carries ≠ some (y, b) := by
    have hwindow : f.type = kTypeWindowUpdate := by
      by_contra hnot
      simp [Frame.announces, hnot] at hx
    simp [Frame.carries, hwindow, kTypeWindowUpdate, kTypeData]
  constructor
  · exact hle
  · have hlast : announced Frame.announces [f] = [x] := by simp [announced, hx]
    have hnew : p'.mux.id p.mux.objects.length = some x := by rw [hm.id, if_pos rfl]
    rw [hgot, hopened, announced_append, hlast, List.map_append, List.map_append, List.map_singleton, List.map_singleton, hnew,
      ← h.opened]
    congr 1
    refine List.map_congr_left fun i hi => ?_
    obtain ⟨y, -, hy⟩ := List.mem_map.1 (h.opened ▸ List.mem_map_of_mem hi)
    rw [← hy]
    exact hm.old hy.symm
  · intro i y hi
    rw [hgot, project_append, project_singleton_other (hcarries y), List.append_nil, htaken, hm.buffer]
    rcases hm.cases hi with ⟨rfl, rfl⟩ | hi
    · have hbuffer : p.mux.buffer p.mux.objects.length = [] := by rw [Mux.buffer, List.getElem?_eq_none le_rfl]; rfl
      -- what came before the SYN was for other streams
      obtain ⟨rest, hrest⟩ : p.got q ++ [f] <+: q.mux.sent.map Prod.fst := by
        rw [← hgot]
        exact (List.take_prefix _ _).trans q.wire_prefix_sent
      have horder := hq.in_order
      rw [← hrest, List.append_assoc] at horder
      rw [(hp.unused _ (id_length p.mux)).2, hbuffer, horder.silent hx]
      rfl
    · exact h.got i y hi
  · intro i y hi hc
    rw [hm.closed] at hc
    rw [hgot, hhung]
    rcases hm.cases hi with ⟨rfl, -⟩ | hi
    · rw [Mux.closed, List.getElem?_eq_none le_rfl] at hc
      cases hc
    · rcases h.ended i y hi hc with hhung | ⟨g, hg, hy⟩
      · exact .inl hhung
      · exact .inr ⟨g, List.mem_append_left _ hg, hy⟩

/-! ### Data -/

/-- The reader handles data: it goes to the one stream with its id. -/
theorem Between.feeds {f : Frame} {x : UInt32} {b : Bytes} (h : Between p q) (hp : Alone client p)
    (hrun : p.side.session.finished = false) (hf : q.wire[p.read]? = some f) (hb : f.carries = some (x, b))
    (hm : p'.mux = p.mux.feeds f) (hread : p'.read = p.read + 1) (htaken : p'.taken = p.taken) (hhung : p'.hung = p.hung) :
    Between p' q := by
  obtain ⟨hgot, hle⟩ := Peer.got_next hf hread
  obtain ⟨htype, hx⟩ : f.type = kTypeData ∧ (f.stream_id, f.payload) = (x, b) := by
    unfold Frame.carries at hb
    split at hb
    · exact ⟨‹_›, Option.some.inj hb⟩
    · cases hb
  obtain ⟨rfl, rfl⟩ := Prod.mk.inj hx
  have hannounces := (Frame.data_frame htype).2.1
  have hid (i : Nat) : p'.mux.id i = p.mux.id i := by rw [hm]; exact id_feeds i
  constructor
  · exact hle
  · have hnone : announced Frame.announces [f] = [] := announced_eq_nil (by simpa using hannounces)
    have hopened : p'.mux.opened = p.mux.opened := by
      have := (numbers_feeds (m := p.mux) (f := f)).1
      rw [hm]
      exact congrArg (·.2.2) this
    rw [hgot, announced_append, hnone, List.append_nil, hopened, funext hid]
    exact h.opened
  · intro i y hi
    rw [hid] at hi
    rw [hgot, project_append, htaken, hm, buffer_feeds hp.table, ← List.append_assoc, h.got i y hi]
    congr 1
    by_cases hy : f.stream_id = y
    · rw [project_singleton_self (hy ▸ hb), hy, if_pos (hp.standing hrun i y hi)]
    · have hother : ¬ p.mux.streams.lookup f.stream_id = some i := by
        intro hlookup
        exact hy (Option.some.inj ((hp.table _ (mem_of_lookup hlookup)).symm.trans hi))
      rw [if_neg hother, project_singleton_other fun b' hb' => hy (Prod.mk.inj (Option.some.inj (hb.symm.trans hb'))).1]
  · intro i y hi hc
    rw [hm, closed_feeds] at hc
    rw [hgot, hhung]
    exact (h.ended i y (hid i ▸ hi) hc).imp_right fun ⟨g, hg, hy⟩ => ⟨g, List.mem_append_left _ hg, hy⟩

/-- Data is sent for one of the streams. -/
theorem Alone.writes {i : Nat} {x : UInt32} {buf : Bytes} {ok : Bool} (h : Alone client p) (hx : p.mux.id i = some x)
    (hcap : buf.length ≤ kDataFrameCap) (hid : ∀ j, p'.mux.id j = p.mux.id j) (hclosed : ∀ j, p'.mux.closed j = p.mux.closed j)
    (hnumbers : numbers p'.mux = numbers p.mux) (hsent : p'.mux.sent = p.mux.sent ++ [(⟨kTypeData, 0, x, buf⟩, ok)])
    (hdead : p'.mux.dead = (p.mux.dead || !ok)) (hown : p'.side.own = p.side.own) (htaken : p'.taken = p.taken)
    (hwritten : p'.written = if ok then Function.update p.written i (p.written i ++ buf) else p.written)
    (hflags : p'.side.session.finished = p.side.session.finished ∧ p'.side.session.closer = p.side.session.closer) :
    Alone client p' := by
  have hmem (e : Frame × Bool) (he : e ∈ p'.mux.sent) : e ∈ p.mux.sent ∨ e = (⟨kTypeData, 0, x, buf⟩, ok) := by
    rwa [hsent, List.mem_append, List.mem_singleton] at he
  obtain ⟨hcarries, hannounces, hends⟩ := @Frame.data_frame ⟨kTypeData, 0, x, buf⟩ rfl
  have hsilent : ∀ f ∈ [(⟨⟨kTypeData, 0, x, buf⟩, ok⟩ : Frame × Bool)].map Prod.fst, f.announces = none :=
    fun f hf => (List.mem_singleton.1 hf) ▸ hannounces
  have hstreams : p'.mux.streams = p.mux.streams := congrArg (·.2.1) hnumbers
  have hopened : p'.mux.opened = p.mux.opened := congrArg (·.2.2) hnumbers
  constructor
  · exact h.numbered.same hown hnumbers
  · intro j k y hj hk
    exact h.unique j k y (hid j ▸ hj) (hid k ▸ hk)
  · intro j y hj
    rw [hown, hopened]
    exact h.mine j y (hid j ▸ hj)
  · intro e he
    rw [hid]
    exact h.own e (hown ▸ he)
  · intro e he
    rw [hid]
    exact h.table e (hstreams ▸ he)
  · intro hrun j y hj
    rw [hstreams]
    exact h.standing (hflags.1 ▸ hrun) j y (hid j ▸ hj)
  · intro d hd
    rw [hflags.1]
    exact h.joined d (hflags.2 ▸ hd)
  · intro e he y b hy
    rcases hmem e he with he | rfl
    · obtain ⟨j, hj⟩ := h.known e he y b hy
      exact ⟨j, (hid j).trans hj⟩
    · obtain ⟨rfl, -⟩ := Prod.mk.inj (Option.some.inj (hcarries.symm.trans hy))
      exact ⟨i, (hid i).trans hx⟩
  · rw [hsent, List.map_append]
    exact h.in_order.append hsilent
  · rw [hsent, List.map_append, announced_append, announced_eq_nil hsilent, List.append_nil, hown]
    exact h.syns
  · intro e he
    rcases hmem e he with he | rfl
    · exact h.sendable e he
    · exact ⟨hcap, (by decide : kTypeData ≠ kTypeGoAway)⟩
  · intro hd e he
    rw [hdead, Bool.or_eq_false_iff] at hd
    rcases hmem e he with he | rfl
    · exact h.alive hd.1 e he
    · simpa using hd.2
  · intro e he y hy
    rcases hmem e he with he | rfl
    · obtain ⟨j, hj, hc⟩ := h.fins e he y hy
      exact ⟨j, (hid j).trans hj, (hclosed j).trans hc⟩
    · rw [hends] at hy
      cases hy
  · intro j y hj
    rw [hid] at hj
    rw [outgoing_append hsent, project_append, hwritten]
    cases ok with
    | false =>
      rw [← h.written j y hj]
      exact (List.append_nil _).symm
    | true =>
      rw [if_pos rfl, ← h.written j y hj]
      show Function.update p.written i (p.written i ++ buf) j = p.written j ++ project Frame.carries y [⟨kTypeData, 0, x, buf⟩]
      by_cases hij : j = i
      · subst hij
        obtain rfl := Option.some.inj (hx.symm.trans hj)
        rw [Function.update_self, project_singleton_self hcarries]
      · have hne : x ≠ y := fun hxy => hij (h.unique j i y hj (hxy ▸ hx))
        rw [Function.update_of_ne hij, project_singleton_other, List.append_nil]
        exact fun b hb => hne (Prod.mk.inj (Option.some.inj (hcarries.symm.trans hb))).1
  · intro j hj
    rw [hid] at hj
    have hij : j ≠ i := by
      rintro rfl
      rw [hx] at hj
      cases hj
    rw [htaken, hwritten]
    refine ⟨?_, (h.unused j hj).2⟩
    split
    · rw [Function.update_of_ne hij]
      exact (h.unused j hj).1
    · exact (h.unused j hj).1

/-! ## What a side does -/

/-- An object keeps its id, and what is closed stays closed. -/
structure Stays (m m' : Mux) : Prop where
  id : ∀ i x, m.id i = some x → m'.id i = some x
  closed : ∀ i, m.closed i = true → m'.closed i = true

theorem Stays.of_eq {m m' : Mux} (hid : ∀ i, m'.id i = m.id i) (hclosed : ∀ i, m'.closed i = m.closed i) : Stays m m' :=
  ⟨fun i _ hi => (hid i).trans hi, fun i hi => (hclosed i).trans hi⟩

theorem Stays.refl (m : Mux) : Stays m m := .of_eq (fun _ => rfl) fun _ => rfl

theorem Quiet.stays {C : Nat → Prop} {m m' : Mux} (h : Quiet C m m') : Stays m m' :=
  ⟨fun i _ hi => (h.id i).trans hi, h.closed⟩

theorem Adds.stays {x : UInt32} {m m' : Mux} (h : Adds x m m') : Stays m m' :=
  ⟨fun _ _ hi => h.old hi, fun i hi => (h.closed i).trans hi⟩

/-- What a step of a side must keep: the invariant, and what was sent stays sent. -/
structure Kept (client : Bool) (q p p' : Peer) : Prop where
  alone : Alone client p'
  between : Between p' q
  sent : p.mux.sent <+: p'.mux.sent
  stays : Stays p.mux p'.mux

theorem Quiet.prefix_sent {C : Nat → Prop} {m m' : Mux} (h : Quiet C m m') : m.sent <+: m'.sent := by
  obtain ⟨es, hes, -⟩ := h.sent
  exact ⟨es, hes.symm⟩

variable {socket : Nat → List Int}

theorem next_unstuck {s t : Session} {e : Event} (h : s.next socket e = some t) : s.stuck = false := by
  unfold Session.next at h
  split at h
  · cases h
  · rename_i hgo
    simp only [Bool.or_eq_true, not_or, Bool.not_eq_true] at hgo
    exact hgo.1

/-- What any other event does than opening a stream or clearing the table. -/
theorem event_quiet {t : Session} {e : Event} (hmay : p.may e = true) (hopen : e ≠ .act .open_stream) (hfinish : e ≠ .close_finish)
    (h : p.side.session.next socket e = some t) : Quiet (· ∈ p.hangs e) p.mux t.mux := by
  cases (next_moves h).2 with
  | act a m hrun =>
    cases a with
    | frame f => cases hmay
    | write i buf => cases hmay
    | open_stream => exact absurd rfl hopen
    | poll =>
      obtain ⟨r, hrun⟩ := dropped hrun
      rw [Mux.poll_run] at hrun
      obtain ⟨-, rfl⟩ := Prod.mk.inj (Except.ok.inj hrun)
      exact quiet_polled p.mux
    | close_stream i =>
      have hlt : i < p.mux.objects.length := of_decide_eq_true hmay
      rw [Act.run, Mux.close_stream_run] at hrun
      obtain ⟨-, rfl⟩ := Prod.mk.inj (Except.ok.inj hrun)
      exact (quiet_hangs hlt).weaken fun j (hj : j = i) => hj ▸ List.mem_singleton_self i
    | die =>
      rw [Act.run, Mux.die_run] at hrun
      obtain ⟨-, rfl⟩ := Prod.mk.inj (Except.ok.inj hrun)
      exact quiet_killed p.mux
  | stuck => exact Quiet.refl p.mux
  | reader_stops => exact Quiet.refl p.mux
  | too_late => exact Quiet.refl p.mux
  | close_enter => exact quiet_killed p.mux
  | close_join => exact Quiet.refl p.mux
  | close_finish => exact absurd rfl hfinish

theorem kept_quiet {C : Nat → Prop} (hp : Alone client p) (hpq : Between p q) (hs : Same p p') (hm : Quiet C p.mux p'.mux)
    (hread : p'.read = p.read) (hhung : p.hung ⊆ p'.hung) (hC : ∀ i, C i → i ∈ p'.hung) : Kept client q p p' :=
  ⟨hp.quiet hs hm, hpq.quiet hs hm hread hhung hC, hm.prefix_sent, hm.stays⟩

theorem kept_handled {f : Frame} (hp : Alone client p) (hpq : Between p q) (hs : Same p p') (hf : q.wire[p.read]? = some f)
    (hcarries : f.carries = none) (hannounces : f.announces = none)
    (hm : Quiet (fun i => ∃ x, f.hangs_up = some x ∧ p.mux.id i = some x) p.mux p'.mux) (hread : p'.read = p.read + 1)
    (hhung : p'.hung = p.hung) : Kept client q p p' :=
  ⟨hp.quiet hs hm, hpq.handled hs hf hcarries hannounces hm hread hhung, hm.prefix_sent, hm.stays⟩

theorem opening_kept {side : Side} (hp : Alone client p) (hq : Alone (!client) q) (hpq : Between p q) (hqp : Between q p)
    (hfew : side.own.length ≤ 2 ^ 31) (h : p.side.next socket (.act .open_stream) = some side) :
    Kept client q p { p with side := side, hung := p.hung ++ p.hangs (.act .open_stream) } := by
  have hnumbered := numbered_step hp.numbered h
  obtain ⟨t, hnext, rfl⟩ := Option.map_eq_some_iff.1 h
  have hlasting := lasting_next hnext
  rcases open_next hnext with ⟨hmux, hgives⟩ | ⟨hmux, hnone⟩
  · simp only [if_pos, hgives, List.length_append, List.length_singleton] at hfew hnumbered ⊢
    have hroom : p.side.own.length < 2 ^ 31 := by omega
    obtain ⟨hadds, -, hopened, hsent⟩ := adds_opens hp.table (fresh_own hp hq hpq hroom)
    have hsyn : (Mux.syn_frame p.mux.next_id).announces = some p.mux.next_id :=
      if_pos ⟨rfl, (by decide : kFlagSyn &&& kFlagSyn ≠ 0)⟩
    have hends : (Mux.syn_frame p.mux.next_id).hangs_up = none :=
      if_neg fun hw => absurd hw.2.1 (by decide : ¬ kFlagSyn &&& kFlagSyn = 0)
    rw [← hmux] at hadds hopened hsent
    refine ⟨?_, ?_, ⟨_, hsent.symm⟩, hadds.stays⟩
    · exact hp.adds (fresh_own hp hq hpq hroom) hadds hnumbered hsent rfl hends ⟨Nat.zero_le _, (by decide : kTypeWindowUpdate ≠ kTypeGoAway)⟩
        (.inr hsyn) (by rw [hsyn, List.map_append]; rfl) (fun e he => by simpa using he)
        ⟨List.subset_append_left _ _, by rw [hopened]; exact List.Subset.refl _⟩ (.inl (by simp)) rfl rfl hlasting
    · exact hpq.opens hp hq hadds (unknown_next hp hq hqp hroom) hopened rfl rfl (by simp [Peer.hangs])
  · simp only [if_pos, hnone, List.append_nil]
    have hm : Quiet (fun _ => False) p.mux t.mux := hmux ▸ Quiet.refl p.mux
    exact kept_quiet hp hpq ⟨rfl, rfl, rfl, hlasting⟩ hm rfl (List.subset_append_left _ _) fun i hi => hi.elim

/-- The table is cleared after its streams are closed. -/
theorem finishing_kept {side : Side} (hp : Alone client p) (hpq : Between p q) (h : p.side.next socket .close_finish = some side) :
    Kept client q p { p with side := side, hung := p.hung ++ p.hangs .close_finish } := by
  have hnumbered := numbered_step hp.numbered h
  obtain ⟨t, hnext, rfl⟩ := Option.map_eq_some_iff.1 h
  have hlasting := lasting_next hnext
  have hfinished : t.finished = true := by
    obtain ⟨d, hd⟩ := close_finish_joined hnext
    exact hlasting.finished (hp.joined d hd)
  rw [if_neg (by decide), List.append_nil] at hnumbered ⊢
  cases (next_moves hnext).2 with
  | stuck =>
    exact kept_quiet hp hpq ⟨rfl, rfl, rfl, hlasting⟩ (Quiet.refl (C := fun _ => False) p.mux) rfl (List.subset_append_left _ _)
      fun i hi => hi.elim
  | close_finish d m hc hrun =>
    obtain rfl := (under_ok (Mux.close_streams_mu p.mux) hrun).2
    have hbounds : ∀ i ∈ p.mux.table, i < p.mux.objects.length := by
      intro i hi
      obtain ⟨e, he, rfl⟩ := List.mem_map.1 hi
      exact Mux.id_lt (hp.table e he)
    have hquiet := quiet_closes_all p.mux.table hbounds
    -- first the streams are closed, then they leave the table
    have hclosed : Kept client q p { p.set_mux (p.mux.closes_all p.mux.table) with hung := p.hung ++ p.mux.table } :=
      kept_quiet hp hpq ⟨rfl, rfl, rfl, ⟨id, fun _ => .inl⟩⟩ hquiet rfl (List.subset_append_left _ _)
        fun i hi => List.mem_append_right _ hi
    refine ⟨hclosed.alone.alike ⟨fun _ => rfl, fun _ => rfl, rfl, rfl, rfl, .inr ⟨rfl, hfinished⟩, rfl, rfl, ?_⟩ hnumbered
      fun _ _ => rfl, hclosed.between.alike (fun _ => rfl) (fun _ => rfl) rfl rfl rfl fun _ _ _ => rfl, hclosed.sent,
      ⟨hclosed.stays.id, hclosed.stays.closed⟩⟩
    exact ⟨hlasting.finished, hlasting.joined⟩

theorem event_kept {e : Event} (hp : Alone client p) (hq : Alone (!client) q) (hpq : Between p q) (hqp : Between q p)
    (hfew : p'.Few) (h : p.next socket q.wire (.event e) = some p') : Kept client q p p' := by
  simp only [Peer.next] at h
  split at h
  · rename_i hmay
    obtain ⟨side, hside, rfl⟩ := Option.map_eq_some_iff.1 h
    by_cases hopen : e = .act .open_stream
    · subst hopen
      exact opening_kept hp hq hpq hqp hfew hside
    · by_cases hfinish : e = .close_finish
      · subst hfinish
        exact finishing_kept hp hpq hside
      · obtain ⟨t, hnext, rfl⟩ := Option.map_eq_some_iff.1 hside
        rw [if_neg hopen, List.append_nil]
        exact kept_quiet hp hpq ⟨rfl, rfl, rfl, lasting_next hnext⟩ (event_quiet hmay hopen hfinish hnext) rfl
          (List.subset_append_left _ _) fun i hi => List.mem_append_right _ hi
  · cases h

theorem handle_kept (hp : Alone client p) (hq : Alone (!client) q) (hpq : Between p q) (hqfew : q.Few)
    (h : p.next socket q.wire .handle = some p') : Kept client q p p' := by
  simp only [Peer.next] at h
  split at h
  · cases h
  · rename_i f hf
    obtain ⟨side, hside, rfl⟩ := Option.map_eq_some_iff.1 h
    have hnumbered := numbered_step hp.numbered hside
    obtain ⟨t, hnext, rfl⟩ := Option.map_eq_some_iff.1 hside
    have hlasting := lasting_next hnext
    have hreader := handling_reader hnext
    have hown : Event.act (.frame f) ≠ .act .open_stream := fun heq => by cases heq
    rw [if_neg hown, List.append_nil] at hnumbered ⊢
    cases (next_moves hnext).2 with
    | stuck =>
      -- it is not through with the frame
      exact kept_quiet hp hpq ⟨rfl, rfl, rfl, hlasting⟩ (Quiet.refl (C := fun _ => False) p.mux) rfl
        (List.Subset.refl _) fun i hi => hi.elim
    | act a m hrun =>
      have hread : (if p.side.session.stuck then p.read else p.read + 1) = p.read + 1 := by
        rw [next_unstuck hnext]
        exact if_neg (by decide)
      have hrun : Mux.on_frame socket f [] p.mux = .ok ((), m) := hrun
      cases hsyn : f.announces with
      | some x =>
        obtain ⟨⟨hwindow, hflag⟩, hx⟩ : (f.type = kTypeWindowUpdate ∧ f.flags &&& kFlagSyn ≠ 0) ∧ f.stream_id = x := by
          unfold Frame.announces at hsyn
          split at hsyn
          · exact ⟨‹_›, Option.some.inj hsyn⟩
          · cases hsyn
        rw [Mux.on_frame_syn socket hwindow hflag, hx] at hrun
        obtain rfl := (under_ok (Mux.on_syn_mu x p.mux) hrun).2
        have hfresh := fresh_syn hp hq hpq hqfew hf hsyn
        obtain ⟨hadds, -, hopened, hsent⟩ := adds_offers hp.table hfresh
        have hack := Frame.still_ack x
        have hends : (Mux.ack_frame x).hangs_up = none := if_neg fun hw => hw.2.2 (by decide : kFlagAck &&& kFlagFin = 0)
        refine ⟨?_, hpq.offers hp hq hf hsyn hadds hopened hread rfl rfl, ⟨_, hsent.symm⟩, hadds.stays⟩
        exact hp.adds hfresh hadds hnumbered hsent hack.carries hends hack.sendable (.inl hack.announces)
          (by rw [hack.announces]; exact (List.append_nil _).symm) (fun e he => .inl he)
          ⟨List.Subset.refl _, by rw [hopened]; exact List.subset_append_left _ _⟩ (.inr (by rw [hopened]; simp)) rfl rfl hlasting
      | none =>
        cases hdata : f.carries with
        | some xb =>
          obtain ⟨x, b⟩ := xb
          have htype : f.type = kTypeData := by
            by_contra hnot
            simp [Frame.carries, hnot] at hdata
          rw [Mux.on_frame, if_pos htype, Mux.on_data_run] at hrun
          obtain ⟨-, rfl⟩ := Prod.mk.inj (Except.ok.inj hrun)
          obtain ⟨hnumbers, hsent, hdead⟩ := numbers_feeds (m := p.mux) (f := f)
          refine ⟨?_, hpq.feeds hp hreader hf hdata rfl hread rfl rfl, by rw [hsent], .of_eq id_feeds closed_feeds⟩
          exact hp.alike ⟨id_feeds, closed_feeds, congrArg (·.2.2) hnumbers, hsent, hdead, .inl (congrArg (·.2.1) hnumbers), rfl, rfl,
            hlasting⟩ hnumbered fun _ _ => rfl
        | none =>
          have hquiet := quiet_frame hp.table hdata hsyn hrun
          exact kept_handled hp hpq ⟨rfl, rfl, rfl, hlasting⟩ hf hdata hsyn hquiet hread rfl

theorem sends_kept (m : Mux) (f : Frame) :
    (∀ i, (m.sends socket f).id i = m.id i) ∧ (∀ i, (m.sends socket f).closed i = m.closed i) ∧
      (∀ i, (m.sends socket f).buffer i = m.buffer i) ∧ numbers (m.sends socket f) = numbers m ∧
      (m.sends socket f).sent = m.sent ++ [(f, m.goes_out socket f)] ∧
      (m.sends socket f).dead = (m.dead || !m.goes_out socket f) := by
  unfold Mux.sends
  cases m.goes_out socket f with
  | true => exact ⟨fun _ => rfl, fun _ => rfl, fun _ => rfl, rfl, rfl, (Bool.or_false _).symm⟩
  | false => exact ⟨fun _ => rfl, fun _ => rfl, fun _ => rfl, rfl, rfl, (Bool.or_true _).symm⟩

theorem write_kept {i : Nat} {buf : Bytes} (hp : Alone client p) (hpq : Between p q)
    (h : p.next socket q.wire (.write i buf) = some p') : Kept client q p p' := by
  simp only [Peer.next] at h
  split at h
  · cases h
  · rename_i hgo
    simp only [Bool.or_eq_true, decide_eq_true_eq, not_or, not_le, not_lt] at hgo
    obtain ⟨⟨⟨-, hlt⟩, -⟩, hcap⟩ := hgo
    obtain ⟨x, hx⟩ := Mux.id_of_lt hlt
    rw [Mux.send_frame_run] at h
    obtain rfl := Option.some.inj h
    obtain ⟨hid, hclosed, hbuffer, hnumbers, hsent, hdead⟩ := @sends_kept socket p.mux (p.data_frame i buf)
    have hframe : p.data_frame i buf = ⟨kTypeData, 0, x, buf⟩ := by rw [Peer.data_frame, hx, Option.getD_some]
    refine ⟨?_, hpq.alike hid hclosed (congrArg (·.2.2) hnumbers) rfl rfl fun j y _ => by rw [← hbuffer j]; rfl, ⟨_, hsent.symm⟩,
      .of_eq hid hclosed⟩
    refine hp.writes hx hcap hid hclosed hnumbers (hframe ▸ hsent) hdead rfl rfl rfl ⟨rfl, rfl⟩

theorem try_read_kept {i len : Nat} (hp : Alone client p) (hpq : Between p q)
    (h : p.next socket q.wire (.try_read i len) = some p') : Kept client q p p' := by
  simp only [Peer.next] at h
  split at h
  · cases h
  · rename_i hlt
    have hlt : i < p.mux.objects.length := not_le.1 hlt
    obtain rfl := Option.some.inj h
    have hobject (j : Nat) : (p.mux.modify i fun s => (s.try_read len).2).objects[j]? =
        (p.mux.objects[j]?).map fun s => if i = j then (s.try_read len).2 else s := by
      rw [Mux.modify, List.getElem?_modify]
      rfl
    have hread (s : MuxStream) : (s.try_read len).2.id = s.id ∧ (s.try_read len).2.closed = s.closed ∧
        (s.try_read len).1.getD [] ++ (s.try_read len).2.buffer = s.buffer := by
      unfold MuxStream.try_read
      split
      · rename_i hb
        cases s.closed <;> simp [hb]
      · simp
    have hid (j : Nat) : (p.mux.modify i fun s => (s.try_read len).2).id j = p.mux.id j := by
      unfold Mux.id
      rw [hobject]
      cases p.mux.objects[j]? with
      | none => rfl
      | some s => by_cases hij : i = j <;> simp [hij, (hread s).1]
    have hclosed (j : Nat) : (p.mux.modify i fun s => (s.try_read len).2).closed j = p.mux.closed j := by
      unfold Mux.closed
      rw [hobject]
      cases p.mux.objects[j]? with
      | none => rfl
      | some s => by_cases hij : i = j <;> simp [hij, (hread s).2.1]
    refine ⟨?_, hpq.alike hid hclosed rfl rfl rfl fun j x hj => ?_, List.prefix_rfl, .of_eq hid hclosed⟩
    · refine hp.alike ⟨hid, hclosed, rfl, rfl, rfl, .inl rfl, rfl, rfl, ⟨fun hf => hf, fun _ => .inl⟩⟩ (hp.numbered.same rfl rfl) fun j hj => ?_
      have hne : j ≠ i := by
        rintro rfl
        obtain ⟨x, hx⟩ := Mux.id_of_lt hlt
        rw [hx] at hj
        cases hj
      exact Function.update_of_ne hne _ _
    · -- what is taken is what the buffer loses
      obtain ⟨s, hs, -⟩ := Option.map_eq_some_iff.1 hj
      show Function.update p.taken i (p.taken i ++ p.takes i len) j ++ (p.mux.modify i fun s => (s.try_read len).2).buffer j =
        p.taken j ++ p.mux.buffer j
      unfold Mux.buffer
      rw [hobject, hs]
      by_cases hij : i = j
      · subst hij
        rw [Function.update_self, Peer.takes, hs]
        simp [← (hread s).2.2]
      · rw [Function.update_of_ne (Ne.symm hij)]
        simp [hij]

/-- A step of one side keeps the invariant, whatever the step. -/
theorem peer_kept {d : Deed} (hp : Alone client p) (hq : Alone (!client) q) (hpq : Between p q) (hqp : Between q p) (hfew : p'.Few)
    (hqfew : q.Few) (h : p.next socket q.wire d = some p') : Kept client q p p' := by
  cases d with
  | event e => exact event_kept hp hq hpq hqp hfew h
  | handle => exact handle_kept hp hq hpq hqfew h
  | write i buf => exact write_kept hp hpq h
  | try_read i len => exact try_read_kept hp hpq h

end

end Hostely.Tunnel
