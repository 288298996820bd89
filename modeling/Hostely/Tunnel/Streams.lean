import Hostely.Tunnel.Coherent
/-!
# Streams from end to end

What the users of two sessions on one connection can rely on, in every state that
any interleaving of the two sides reaches: each stream has one partner, what is
written comes out there in order and only there, and the end of a stream does not
come before its bytes.
-/

open Hostely.Lib

namespace Hostely.Tunnel

theorem Alone.wire_written {client : Bool} {p : Peer} {i : Nat} {x : UInt32} (h : Alone client p) (hi : p.mux.id i = some x) :
    project Frame.carries x p.wire <+: p.written i := by
  rw [h.written i x hi]
  exact project_prefix p.wire_prefix_outgoing

namespace Link

/-- Both sides by themselves, and each as the reader of the other. -/
def Coherent (s : Link) : Prop := ∀ c, Alone c (s c) ∧ Between (s c) (s !c)

section
variable {socket : Bool → Nat → List Int} {s t : Link} {a : Bool × Deed}

theorem coherent_new : Coherent .new := fun c => ⟨alone_new c, between_new c (new !c)⟩

theorem own_grows {socket : Nat → List Int} {incoming : List Frame} {p p' : Peer} {d : Deed}
    (h : p.next socket incoming d = some p') : p.side.own <+: p'.side.own := by
  have hside {e : Event} {t : Side} (ht : p.side.next socket e = some t) : p.side.own <+: t.own := by
    obtain ⟨session, -, rfl⟩ := Option.map_eq_some_iff.1 ht
    exact List.prefix_append _ _
  cases d with
  | event e =>
    simp only [Peer.next] at h
    split at h
    · obtain ⟨t, ht, rfl⟩ := Option.map_eq_some_iff.1 h
      exact hside ht
    · cases h
  | handle =>
    simp only [Peer.next] at h
    split at h
    · cases h
    · obtain ⟨t, ht, rfl⟩ := Option.map_eq_some_iff.1 h
      exact hside ht
  | write i buf =>
    simp only [Peer.next] at h
    split at h
    · cases h
    · rw [Mux.send_frame_run] at h
      obtain rfl := Option.some.inj h
      exact List.prefix_rfl
  | try_read i len =>
    simp only [Peer.next] at h
    split at h
    · cases h
    · obtain rfl := Option.some.inj h
      exact List.prefix_rfl

theorem side_cases (c d : Bool) : c = d ∨ c = !d := by cases c <;> cases d <;> simp

/-- A step leaves the other side as it is. -/
theorem step_sides (h : step socket s a t) :
    (s a.1).next (socket a.1) (s !a.1).wire a.2 = some (t a.1) ∧ t (!a.1) = s !a.1 := by
  obtain ⟨p', hp, rfl⟩ := Option.map_eq_some_iff.1 h
  rw [Function.update_self, Function.update_of_ne (by cases a.1 <;> decide)]
  exact ⟨hp, rfl⟩

theorem few_of_step (h : step socket s a t) (hfew : ∀ c, (t c).Few) (c : Bool) : (s c).Few := by
  obtain ⟨hnext, hother⟩ := step_sides h
  rcases side_cases c a.1 with rfl | rfl
  · exact (own_grows hnext).length_le.trans (hfew a.1)
  · exact hother ▸ hfew !a.1

theorem step_kept (h : step socket s a t) (hfew : ∀ c, (t c).Few) (hs : Coherent s) : Kept a.1 (s !a.1) (s a.1) (t a.1) := by
  obtain ⟨hnext, hother⟩ := step_sides h
  obtain ⟨hp, hpq⟩ := hs a.1
  obtain ⟨hq, hqp⟩ := hs !a.1
  rw [Bool.not_not] at hqp
  exact peer_kept hp hq hpq hqp (hfew a.1) (hother ▸ hfew !a.1) hnext

theorem coherent_step (h : step socket s a t) (hfew : ∀ c, (t c).Few) (hs : Coherent s) :
    Coherent t ∧ ∀ c, (s c).mux.sent <+: (t c).mux.sent := by
  have hother := (step_sides h).2
  obtain ⟨hq, hqp⟩ := hs !a.1
  rw [Bool.not_not] at hqp
  have hkept := step_kept h hfew hs
  have hotherside : Alone (!a.1) (t !a.1) ∧ Between (t !a.1) (t a.1) := by
    rw [hother]
    exact ⟨hq, hqp.sender hkept.sent⟩
  constructor
  · intro c
    rcases side_cases c a.1 with rfl | rfl
    · exact ⟨hkept.alone, hother ▸ hkept.between⟩
    · rw [Bool.not_not]
      exact hotherside
  · intro c
    rcases side_cases c a.1 with rfl | rfl
    · exact hkept.sent
    · rw [hother]

/-- From a coherent state every later one is coherent, and what was sent stays sent. -/
theorem coherent_run (hs : Coherent s) (h : Reaches (step socket) (· = s) t) (hfew : ∀ c, (t c).Few) :
    Coherent t ∧ ∀ c, (s c).mux.sent <+: (t c).mux.sent := by
  induction h with
  | init hi =>
    subst hi
    exact ⟨hs, fun _ => List.prefix_rfl⟩
  | step _ hstep ih =>
    obtain ⟨hcoherent, hsent⟩ := ih (few_of_step hstep hfew)
    obtain ⟨hnext, hgrows⟩ := coherent_step hstep hfew hcoherent
    exact ⟨hnext, fun c => (hsent c).trans (hgrows c)⟩

theorem few_of_run (h : Reaches (step socket) (· = s) t) (hfew : ∀ c, (t c).Few) (c : Bool) : (s c).Few := by
  induction h with
  | init hi => exact hi ▸ hfew c
  | step _ hstep ih => exact ih (few_of_step hstep hfew)

/-- What is on the way to a stream. -/
def in_flight (s : Link) (c : Bool) (x : UInt32) : Bytes := project Frame.carries x ((s c).wire.drop (s !c).read)

/-- What a side has of a stream and what is on the way to it went out there in order. -/
theorem Coherent.received (hs : Coherent s) {c : Bool} {j : Nat} {x : UInt32} (hj : (s !c).mux.id j = some x) :
    (s !c).taken j ++ (s !c).mux.buffer j ++ s.in_flight c x = project Frame.carries x (s c).wire := by
  have hbetween := (hs !c).2
  rw [Bool.not_not] at hbetween
  rw [hbetween.got j x hj]
  exact project_read (s !c).read (s c).wire

/-- What is on the wire of a stream was written to it in order, and is all of it while the
session lives. -/
theorem Coherent.on_wire (hs : Coherent s) {c : Bool} {i : Nat} {x : UInt32} (hi : (s c).mux.id i = some x) :
    project Frame.carries x (s c).wire <+: (s c).written i ∧
      ((s c).mux.dead = false → project Frame.carries x (s c).wire = (s c).written i) := by
  have halone := (hs c).1
  refine ⟨halone.wire_written hi, fun hd => ?_⟩
  rw [halone.written i x hi, Peer.wire_of_ok (halone.alive hd)]

/-- In every state that two sessions on one connection reach, what was read from a stream
and what lies in its buffer is a first part of what its partner wrote, and while the
partner's session lives the rest is on the way. -/
theorem streams_deliver (h : Reaches (step socket) (· = .new) s) (hfew : ∀ c, (s c).side.own.length ≤ 2 ^ 31) {c : Bool}
    {i j : Nat} {x : UInt32} (hi : (s c).mux.id i = some x) (hj : (s !c).mux.id j = some x) :
    (s !c).taken j ++ (s !c).mux.buffer j <+: (s c).written i ∧
      ((s c).mux.dead = false → (s !c).taken j ++ (s !c).mux.buffer j ++ s.in_flight c x = (s c).written i) := by
  have hcoherent := (coherent_run coherent_new h hfew).1
  have hreceived := hcoherent.received hj
  obtain ⟨hfirst, hall⟩ := hcoherent.on_wire hi
  constructor
  · exact (List.prefix_append _ _).trans (hreceived ▸ hfirst)
  · intro hd
    exact hreceived.trans (hall hd)

/-- Every stream of a side is one that the side opened or one that the other opened, never
both; no two have the same id; and the other's are, in their order, those whose SYN was
handled. -/
theorem streams_pair (h : Reaches (step socket) (· = .new) s) (hfew : ∀ c, (s c).side.own.length ≤ 2 ^ 31) (c : Bool) :
    (∀ i x, (s c).mux.id i = some x → ((x, i) ∈ (s c).side.own ↔ i ∉ (s c).mux.opened)) ∧
      (∀ i j x, (s c).mux.id i = some x → (s c).mux.id j = some x → i = j) ∧
      (s c).mux.opened.map (s c).mux.id <+: ((s !c).side.own.map fun e => some e.1) ∧
      ((s !c).mux.dead = false → (s c).read = (s !c).wire.length →
        (s c).mux.opened.map (s c).mux.id = (s !c).side.own.map fun e => some e.1) := by
  have hcoherent := (coherent_run coherent_new h hfew).1
  obtain ⟨halone, hbetween⟩ := hcoherent c
  have hother := (hcoherent !c).1
  have hown : (s !c).side.own.map (fun e => some e.1) = (announced Frame.announces ((s !c).mux.sent.map Prod.fst)).map some := by
    rw [hother.syns, List.map_map]
    rfl
  refine ⟨fun i x hi => ⟨fun hmem hopened => ?_, fun hnot => (halone.mine i x hi).resolve_right hnot⟩, halone.unique, ?_, ?_⟩
  · obtain ⟨-, e, he, hx⟩ := hbetween.peers_id hother hopened hi
    obtain ⟨k, -, -, hk⟩ := hother.numbered.id_eq he
    obtain ⟨k', -, -, hk'⟩ := halone.numbered.id_eq hmem
    exact nth_id_apart (hk'.symm.trans (hx.symm.trans hk))
  · rw [hbetween.opened, hown]
    exact ((@announced_before _ _ Frame.announces _ _
      ((List.take_prefix _ _).trans (s !c).wire_prefix_sent))).map some
  · intro hd hread
    have hall : (s c).got (s !c) = (s !c).mux.sent.map Prod.fst := by
      rw [Peer.got, hread, List.take_length, Peer.wire, List.takeWhile_eq_self_iff.2 (hother.alive hd)]
    rw [hbetween.opened, hown, hall]

/-- When a side finds a stream ended that it did not close itself, it has everything that
its partner wrote while the partner was open. -/
theorem no_early_end (hs : Reaches (step socket) (· = .new) s) (h : Reaches (step socket) (· = s) t)
    (hfew : ∀ c, (t c).side.own.length ≤ 2 ^ 31) {c : Bool} {i j : Nat} {x : UInt32} (hi : (s c).mux.id i = some x)
    (hopen : (s c).mux.closed i = false) (hj : (t !c).mux.id j = some x) (hended : (t !c).mux.closed j = true)
    (hhung : j ∉ (t !c).hung) : (s c).written i <+: (t !c).taken j ++ (t !c).mux.buffer j := by
  have hsfew := few_of_run h hfew
  have hbefore := (coherent_run coherent_new hs hsfew).1
  obtain ⟨hafter, hsent⟩ := coherent_run hbefore h hfew
  have halone := (hbefore c).1
  have hbetween := (hafter !c).2
  rw [Bool.not_not] at hbetween
  obtain ⟨f, hf, hfin⟩ := (hbetween.ended j x hj hended).resolve_left hhung
  -- the FIN that ended it was not sent yet
  have hnew : f ∉ (s c).mux.sent.map Prod.fst := by
    intro hmem
    obtain ⟨e, he, rfl⟩ := List.mem_map.1 hmem
    obtain ⟨k, hk, hclosed⟩ := halone.fins e he x hfin
    rw [halone.unique i k x hi hk, hclosed] at hopen
    cases hopen
  have hold : (s c).mux.sent.map Prod.fst <+: (t !c).got (t c) := by
    rcases List.prefix_or_prefix_of_prefix ((hsent c).map Prod.fst)
      ((List.take_prefix (t !c).read (t c).wire).trans (t c).wire_prefix_sent) with hpre | hpre
    · exact hpre
    · exact absurd (hpre.subset hf) hnew
  have hwritten : (s c).outgoing <+: (s c).mux.sent.map Prod.fst := by
    obtain ⟨es, hes⟩ := hsent c
    have hall : ∀ e ∈ (s c).mux.sent, e.2 = true := by
      have hlen := hold.length_le.trans (List.take_prefix (t !c).read (t c).wire).length_le
      rw [List.length_map, Peer.wire, List.length_map, ← hes, List.takeWhile_append] at hlen
      split at hlen
      · rename_i hsame
        exact List.takeWhile_eq_self_iff.1 ((List.takeWhile_prefix _).eq_of_length hsame)
      · rename_i hless
        have := (List.takeWhile_prefix (p := Prod.snd) (l := (s c).mux.sent)).length_le
        omega
    rw [Peer.outgoing, List.filter_eq_self.2 hall]
  rw [halone.written i x hi, hbetween.got j x hj]
  exact project_prefix (hwritten.trans hold)

/-! ## write, turn by turn -/

/-- Turns of `write` on an object that leave the session `m` and get out these bytes. -/
def Turns (socket : Nat → List Int) (incoming : List Frame) (p : Peer) (i : Nat) (m : Mux) (out : Bytes) : Prop :=
  ∃ (pieces : List Bytes) (p' : Peer), (pieces.map (Deed.write i)).foldlM (Peer.next socket incoming) p = some p' ∧ p'.mux = m ∧
    p'.written i = p.written i ++ out

section
variable {socket : Nat → List Int} {incoming : List Frame} {p : Peer} {i : Nat} {buf : Bytes}

theorem Turns.none : Turns socket incoming p i p.mux [] := ⟨[], p, rfl, rfl, (List.append_nil _).symm⟩

/-- What one turn leaves: the next part of the bytes in one frame. -/
def turned (socket : Nat → List Int) (p : Peer) (i : Nat) (buf : Bytes) : Peer :=
  { p.set_mux (p.mux.sends socket (p.data_frame i buf)) with
    written := if p.mux.goes_out socket (p.data_frame i buf) then Function.update p.written i (p.written i ++ buf) else p.written }

theorem next_write (hgo : p.side.session.stuck = false ∧ p.side.session.destroyed = false) (hi : i < p.mux.objects.length)
    (hbuf : buf ≠ []) (hcap : buf.length ≤ kDataFrameCap) : p.next socket incoming (.write i buf) = some (turned socket p i buf) := by
  simp only [Peer.next, hgo.1, hgo.2, Mux.send_frame_run]
  rw [if_neg]
  · rfl
  · simp [hi, hbuf, hcap]

theorem Turns.cons {m : Mux} {out : Bytes} (h : p.next socket incoming (.write i buf) = some (turned socket p i buf))
    (hout : p.mux.goes_out socket (p.data_frame i buf) = true) (ht : Turns socket incoming (turned socket p i buf) i m out) :
    Turns socket incoming p i m (buf ++ out) := by
  obtain ⟨pieces, p', hrun, hm, hwritten⟩ := ht
  refine ⟨buf :: pieces, p', ?_, hm, ?_⟩
  · rw [List.map_cons, List.foldlM_cons, h]
    exact hrun
  · have hone : (turned socket p i buf).written i = p.written i ++ buf := by simp [turned, hout]
    rw [hwritten, hone, List.append_assoc]

theorem Turns.last (h : p.next socket incoming (.write i buf) = some (turned socket p i buf))
    (hout : p.mux.goes_out socket (p.data_frame i buf) = false) :
    Turns socket incoming p i (p.mux.sends socket (p.data_frame i buf)) [] := by
  refine ⟨[buf], turned socket p i buf, ?_, rfl, ?_⟩
  · rw [List.map_singleton, List.foldlM_cons, h]
    rfl
  · rw [turned, hout, List.append_nil]
    rfl

/-- A call of `write` is a row of turns: what goes out is a first part of the bytes, and all of
them when it returns true. -/
theorem write_turns {fuel : Nat} {ok : Bool} {m : Mux} (hgo : p.side.session.stuck = false ∧ p.side.session.destroyed = false)
    (hi : i < p.mux.objects.length) (hfuel : buf.length ≤ fuel)
    (h : Mux.write socket (fun _ m => m) i fuel buf [] p.mux = .ok (ok, m)) :
    ∃ out, Turns socket incoming p i m out ∧ out <+: buf ∧ (ok = true → out = buf) := by
  induction fuel generalizing buf p with
  | zero =>
    obtain rfl := List.length_eq_zero_iff.1 (Nat.le_zero.1 hfuel)
    obtain ⟨rfl, rfl⟩ := Prod.mk.inj (Except.ok.inj h)
    exact ⟨[], Turns.none, List.nil_prefix, fun _ => rfl⟩
  | succ fuel ih =>
    unfold Mux.write at h
    split at h
    · rename_i hbuf
      obtain ⟨rfl, rfl⟩ := Prod.mk.inj (Except.ok.inj h)
      exact ⟨[], Turns.none, List.nil_prefix, fun _ => hbuf.symm⟩
    · rename_i hbuf
      have hflag : (Locks.lock_guard (.stream i) do
          let m ← Locks.look
          return m.closed i : Locks Mutex Mux Bool) [] p.mux = .ok (p.mux.closed i, p.mux) := by
        rw [Locks.lock_guard_free (by simp)]
        rfl
      rw [Locks.bind_ok hflag] at h
      split at h
      · obtain ⟨rfl, rfl⟩ := Prod.mk.inj (Except.ok.inj h)
        exact ⟨[], Turns.none, List.nil_prefix, fun hok => by cases hok⟩
      · have htake : buf.take kDataFrameCap ≠ [] := by
          rw [ne_eq, List.take_eq_nil_iff]
          exact fun hor => hor.elim (by decide) hbuf
        have hturn := @next_write socket incoming p i (buf.take kDataFrameCap) hgo hi htake (List.length_take_le _ _)
        have hsend : Mux.send_frame socket ⟨kTypeData, 0, (p.mux.objects[i]?.map MuxStream.id).getD 0, buf.take kDataFrameCap⟩ [] p.mux =
            .ok (p.mux.goes_out socket (p.data_frame i (buf.take kDataFrameCap)),
              p.mux.sends socket (p.data_frame i (buf.take kDataFrameCap))) := Mux.send_frame_run _ _
        rw [Locks.look_bind, Locks.bind_ok hsend] at h
        cases hout : p.mux.goes_out socket (p.data_frame i (buf.take kDataFrameCap)) with
        | false =>
          simp only [hout, Bool.not_false, if_true] at h
          obtain ⟨rfl, rfl⟩ := Prod.mk.inj (Except.ok.inj h)
          exact ⟨[], Turns.last hturn hout, List.nil_prefix, fun hok => by cases hok⟩
        | true =>
          simp only [hout, Bool.not_true, Bool.false_eq_true, if_false, Locks.change_bind] at h
          have hobjects : (turned socket p i (buf.take kDataFrameCap)).mux.objects = p.mux.objects := by
            show (p.mux.sends socket _).objects = p.mux.objects
            unfold Mux.sends
            split <;> rfl
          have hfuel' : (buf.drop kDataFrameCap).length ≤ fuel := by
            have hpos := List.length_pos_iff.2 hbuf
            have hcap : kDataFrameCap = 16384 := rfl
            rw [List.length_drop, hcap]
            omega
          obtain ⟨out, hturns, ⟨rest, hrest⟩, hall⟩ := @ih (turned socket p i (buf.take kDataFrameCap)) (buf.drop kDataFrameCap) hgo
            (hobjects ▸ hi) hfuel' h
          refine ⟨_, hturns.cons hturn hout, ⟨rest, ?_⟩, fun hok => ?_⟩
          · rw [List.append_assoc, hrest, List.take_append_drop]
          · rw [hall hok, List.take_append_drop]

end

/-! ## The bytes -/

/-- However the bytes received so far are cut, `read_loop` has dispatched the frames that
are there whole, and keeps the start of the next. -/
theorem read_loop_started {inbuf later : Bytes} {chunks : List Bytes} {fs : List Frame} (hs : ∀ f ∈ fs, Sendable f)
    (hchunks : ∀ chunk ∈ chunks, chunk ≠ []) (hwait : Waiting inbuf fs)
    (h : inbuf ++ chunks.flatten ++ later = stream_bytes fs) :
    ∃ fs₁ fs₂ buf, fs = fs₁ ++ fs₂ ∧ read_loop inbuf chunks = (fs₁, buf, none) ∧ buf ++ later = stream_bytes fs₂ ∧
      Waiting buf fs₂ := by
  induction chunks generalizing inbuf fs with
  | nil =>
    rw [List.flatten_nil, List.append_nil] at h
    exact ⟨[], fs, inbuf, rfl, rfl, h, hwait⟩
  | cons chunk chunks ih =>
    rw [List.flatten_cons, ← List.append_assoc, List.append_assoc] at h
    obtain ⟨fs₁, fs₂, buf, rfl, hreceive, hrest, hwait'⟩ := receive_stream hs h
    rw [← List.append_assoc] at hrest
    obtain ⟨fs₃, fs₄, buf', rfl, hloop, hlater, hwait''⟩ :=
      ih (fun f hf => hs f (List.mem_append_right _ hf)) (fun x hx => hchunks x (List.mem_cons_of_mem _ hx)) hwait' hrest
    refine ⟨fs₁ ++ fs₃, fs₄, buf', (List.append_assoc ..).symm, ?_, hlater, hwait''⟩
    rw [read_loop, if_neg (hchunks chunk List.mem_cons_self), hreceive]
    simp only [hloop]

/-- Whatever part of what a side sent has arrived, in pieces of any size, the reader of the
other has dispatched the next frames of the wire and nothing else, and waits. -/
theorem wire_arrives (h : Reaches (step socket) (· = .new) s) (hfew : ∀ c, (s c).side.own.length ≤ 2 ^ 31) {c : Bool}
    {chunks : List Bytes} (hchunks : ∀ chunk ∈ chunks, chunk ≠ []) (hbytes : chunks.flatten <+: stream_bytes (s c).wire) :
    ∃ n buf, read_loop [] chunks = ((s c).wire.take n, buf, none) ∧
      chunks.flatten = stream_bytes ((s c).wire.take n) ++ buf ∧ Waiting buf ((s c).wire.drop n) := by
  have halone := ((coherent_run coherent_new h hfew).1 c).1
  have hsendable : ∀ f ∈ (s c).wire, Sendable f := by
    intro f hf
    obtain ⟨e, he, rfl⟩ := List.mem_map.1 ((s c).wire_prefix_sent.subset hf)
    exact halone.sendable e he
  obtain ⟨later, hlater⟩ := hbytes
  have hempty : Waiting [] (s c).wire := by
    intro f _
    show (0 : Nat) < kHeaderSize + f.payload.length
    rw [kHeaderSize]
    omega
  obtain ⟨fs₁, fs₂, buf, hsplit, hloop, hrest, hwait⟩ := read_loop_started hsendable hchunks hempty hlater
  have htake : (s c).wire.take fs₁.length = fs₁ := by rw [hsplit, List.take_left]
  have hdrop : (s c).wire.drop fs₁.length = fs₂ := by rw [hsplit, List.drop_left]
  refine ⟨fs₁.length, buf, by rw [htake]; exact hloop, ?_, by rw [hdrop]; exact hwait⟩
  have hall : chunks.flatten ++ later = stream_bytes fs₁ ++ buf ++ later := by
    rw [hlater, hsplit, List.append_assoc, hrest, stream_bytes, stream_bytes, stream_bytes, List.map_append, List.flatten_append]
  rw [htake]
  exact List.append_cancel_right hall

/-! ## A run -/

/-- A connection that takes what it is given. -/
def wideSocket : Bool → Nat → List Int := fun _ _ => [16396]

/-- The client writes on a stream that the server accepts, closes it and gets an answer. -/
def toyTalk : List (Bool × Deed) :=
  [(true, .event (.act .open_stream)), (true, .write 0 [1, 2]), (false, .handle), (true, .write 0 [3]), (false, .handle),
    (false, .event (.act .poll)), (false, .try_read 0 1), (false, .write 0 [9]), (true, .event (.act (.close_stream 0))),
    (true, .handle), (true, .handle)]

end

theorem reaches_of_run {socket : Bool → Nat → List Int} {s t : Link} {as : List (Bool × Deed)}
    (h : as.foldlM (next socket) s = some t) : Reaches (step socket) (· = s) t :=
  Reaches.foldlM (fun _ _ _ h => h) (.init rfl) h

/-- The server handles the rest, the FIN with it. -/
def toyRest : List (Bool × Deed) := toyTalk.drop 4 ++ [(false, .handle), (false, .handle)]

theorem few_of_counts {s : Link} (hclient : (s true).side.own.length = 1) (hserver : (s false).side.own.length = 0) (c : Bool) :
    (s c).side.own.length ≤ 2 ^ 31 := by
  cases c with
  | false =>
    rw [hserver]
    exact Nat.zero_le _
  | true =>
    rw [hclient]
    exact Nat.one_le_two_pow

/-- What has become of the one stream of `toyTalk`. -/
theorem talk_run : ∃ s, toyTalk.foldlM (next wideSocket) .new = some s ∧ (s true).mux.id 0 = some 1 ∧ (s false).mux.id 0 = some 1 ∧
    (s true).mux.dead = false ∧ (s true).written 0 = [1, 2, 3] ∧ (stream_bytes (s true).wire).length = 51 ∧
    ∀ c, (s c).side.own.length ≤ 2 ^ 31 := by
  have hrun : (toyTalk.foldlM (next wideSocket) .new).map (fun s => decide ((s true).mux.id 0 = some 1 ∧ (s false).mux.id 0 = some 1 ∧
      (s true).mux.dead = false ∧ (s true).written 0 = [1, 2, 3] ∧ (stream_bytes (s true).wire).length = 51 ∧
      (s true).side.own.length = 1 ∧ (s false).side.own.length = 0)) = some true := by decide +kernel
  obtain ⟨s, hs, hfacts⟩ := Option.map_eq_some_iff.1 hrun
  obtain ⟨hclient, hserver, hdead, hwritten, hlength, hown, hother⟩ := of_decide_eq_true hfacts
  exact ⟨s, hs, hclient, hserver, hdead, hwritten, hlength, few_of_counts hown hother⟩

theorem streams_deliver_talk : ∃ s, toyTalk.foldlM (next wideSocket) .new = some s ∧
    (s false).taken 0 ++ (s false).mux.buffer 0 ++ s.in_flight true 1 = [1, 2, 3] := by
  obtain ⟨s, hs, hclient, hserver, hdead, hwritten, -, hfew⟩ := talk_run
  refine ⟨s, hs, ?_⟩
  rw [← hwritten]
  exact (@streams_deliver _ _ (reaches_of_run hs) hfew true 0 0 1 hclient hserver).2 hdead

theorem streams_pair_talk : ∃ s, toyTalk.foldlM (next wideSocket) .new = some s ∧
    (s false).mux.opened.map (s false).mux.id <+: ((s true).side.own.map fun e => some e.1) := by
  obtain ⟨s, hs, -, -, -, -, -, hfew⟩ := talk_run
  exact ⟨s, hs, (streams_pair (reaches_of_run hs) hfew false).2.2.1⟩

theorem no_early_end_talk : ∃ s t, (toyTalk.take 4).foldlM (next wideSocket) .new = some s ∧
    toyRest.foldlM (next wideSocket) s = some t ∧ (s true).written 0 = [1, 2, 3] ∧
    (s true).written 0 <+: (t false).taken 0 ++ (t false).mux.buffer 0 := by
  have hfirst : ((toyTalk.take 4).foldlM (next wideSocket) .new).map (fun s => decide ((s true).mux.id 0 = some 1 ∧
      (s true).mux.closed 0 = false ∧ (s true).written 0 = [1, 2, 3])) = some true := by decide +kernel
  have hrest : (((toyTalk.take 4).foldlM (next wideSocket) .new).bind (toyRest.foldlM (next wideSocket))).map
      (fun t => decide ((t false).mux.id 0 = some 1 ∧ (t false).mux.closed 0 = true ∧ (t false).hung = [] ∧
        (t true).side.own.length = 1 ∧ (t false).side.own.length = 0)) = some true := by decide +kernel
  obtain ⟨s, hs, hbefore⟩ := Option.map_eq_some_iff.1 hfirst
  rw [hs, Option.bind_some] at hrest
  obtain ⟨t, ht, hafter⟩ := Option.map_eq_some_iff.1 hrest
  obtain ⟨hclient, hopen, hwritten⟩ := of_decide_eq_true hbefore
  obtain ⟨hserver, hclosed, hhung, hown, hother⟩ := of_decide_eq_true hafter
  refine ⟨s, t, hs, ht, hwritten, ?_⟩
  exact no_early_end (reaches_of_run hs) (reaches_of_run ht) (few_of_counts hown hother) hclient hopen hserver hclosed (by simp [hhung])

/-- The first thirty bytes of what the client sent arrive: two frames and a part of the third. -/
theorem wire_arrives_talk : ∃ s n, toyTalk.foldlM (next wideSocket) .new = some s ∧
    (read_loop [] [(stream_bytes (s true).wire).take 30]).1 = (s true).wire.take n := by
  obtain ⟨s, hs, -, -, -, -, hlength, hfew⟩ := talk_run
  have hchunks : ∀ chunk ∈ [(stream_bytes (s true).wire).take 30], chunk ≠ [] := by
    intro chunk hc hnil
    have hlen := congrArg List.length ((List.mem_singleton.1 hc).symm.trans hnil)
    rw [List.length_take, hlength] at hlen
    cases hlen
  have hbytes : [(stream_bytes (s true).wire).take 30].flatten <+: stream_bytes (s true).wire := by
    rw [List.flatten_singleton]
    exact List.take_prefix _ _
  obtain ⟨n, buf, hloop, -⟩ := wire_arrives (reaches_of_run hs) hfew hchunks hbytes
  exact ⟨s, n, hs, by rw [hloop]⟩

end Link

end Hostely.Tunnel
