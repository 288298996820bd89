import Hostely.Tunnel.Carrying
import Hostely.Tunnel.Streams
/-!
# Through the tunnel

Two sessions on one connection with the pumps at both ends of one of their streams:
`serve_public` at the relay, `bridge_stream` at the origin. The readers, the pumps, the
other streams and whoever sits behind the two sockets act in any order.

What one socket takes is a first part of what the other gave. While the session
lives and no `write` has failed the rest is in the hands of the pumps, in a buffer or
on the way.
-/

open Hostely.Lib

namespace Hostely.Tunnel

/-! ## The pumps on their stream -/

namespace Pump

def Phase.over : Phase → Bool
  | ended _ => true
  | _ => false

/-- What a step calls on its stream, which is the object `i`. -/
def calls (s : Pump) (i : Nat) (e : Event) : List Deed :=
  match e, s.phase with
  | .moves, .read_dst => [.try_read i 1]
  | .moves, .drain => [.try_read i block_size]
  | .framed _, .frame rest _ => [.write i (rest.take kDataFrameCap)]
  | _, _ => []

/-- The steps that call anything; the others move no byte of the stream. -/
theorem calls_cases (s : Pump) (i : Nat) (e : Event) :
    (e = .moves ∧ s.phase = .read_dst) ∨ (e = .moves ∧ s.phase = .drain) ∨ (∃ ok rest next, e = .framed ok ∧ s.phase = .frame rest next) ∨
      s.calls i e = [] ∧ s.puts e = [] ∧ s.takes e = [] := by
  cases e with
  | moves => cases hp : s.phase <;> simp [calls, puts, takes, hp]
  | framed ok => cases hp : s.phase <;> cases ok <;> simp [calls, puts, takes, hp]
  | _ => exact .inr (.inr (.inr ⟨rfl, rfl, rfl⟩))

/-- `stream->close()` at the end. -/
def closing (s t : Pump) (i : Nat) : List Deed := if t.phase.over && !s.phase.over then [.event (.act (.close_stream i))] else []

/-- The stream is as the session has it. -/
def on (s : Pump) (o : MuxStream) : Pump := { s with stream := o }

end Pump

/-- The frames are the reader's, and `framed` has the answer of `send_frame`. -/
def Peer.answers (socket : Nat → List Int) (peer : Peer) (i : Nat) (s : Pump) (e : Pump.Event) : Bool :=
  match e, s.phase with
  | .data _, _ => false
  | .fin, _ => false
  | .framed ok, .frame rest _ => ok = peer.mux.goes_out socket (peer.data_frame i (rest.take kDataFrameCap))
  | _, _ => true

/-- One side does these things, one after the other. -/
def Link.acts (socket : Bool → Nat → List Int) (c : Bool) (ds : List Deed) (l : Link) : Option Link :=
  (ds.map (Prod.mk c)).foldlM (Link.next socket) l

structure Passage where
  link : Link
  pump : Bool → Option Pump
  /-- What each pump has read of the destination line, with the byte that ends it. -/
  line : Bool → Bytes

inductive Move where
  /-- Whatever else is done with the session. -/
  | session (d : Deed)
  /-- The stream is handed out and its thread starts. -/
  | begins
  | pump (e : Pump.Event)
deriving DecidableEq

/-- Only its pump writes to the stream and reads it. -/
def Deed.spares (i : Nat) : Deed → Bool
  | write j _ => j ≠ i
  | try_read j _ => j ≠ i
  | _ => true

namespace Passage

def new : Passage := ⟨.new, fun _ => none, fun _ => []⟩

section
variable (socket : Bool → Nat → List Int) (side : Bool → Pump.Side) (idx : Bool → Nat)

def next (s : Passage) (a : Bool × Move) : Option Passage :=
  let c := a.1
  match a.2 with
  | .session d => if d.spares (idx c) then (s.link.acts socket c [d]).map fun l => { s with link := l } else none
  | .begins =>
    match s.pump c, (s.link c).mux.id (idx c) with
    | none, some id =>
      if (s.link c).mux.users.contains (idx c) then some { s with pump := Function.update s.pump c (some (.start (side c) id)) }
      else none
    | _, _ => none
  | .pump e =>
    match s.pump c, (s.link c).mux.objects[idx c]? with
    | some p, some o =>
      if (s.link c).answers (socket c) (idx c) (p.on o) e then
        match (p.on o).next (side c) e with
        | none => none
        | some t =>
          (s.link.acts socket c ((p.on o).calls (idx c) e ++ (p.on o).closing t (idx c))).map fun l =>
            ⟨l, Function.update s.pump c (some t), Function.update s.line c (s.line c ++ (p.on o).reads_line e)⟩
      else none
    | _, _ => none

def step (s : Passage) (a : Bool × Move) (t : Passage) : Prop := next socket side idx s a = some t

/-! ## What a step can do -/

inductive Does (s : Passage) (c : Bool) : Move → Passage → Prop
  | session {d : Deed} {l : Link} (hd : d.spares (idx c) = true) (hl : s.link.acts socket c [d] = some l) :
    Does s c (.session d) { s with link := l }
  | begins {id : UInt32} (hp : s.pump c = none) (hid : (s.link c).mux.id (idx c) = some id) :
    Does s c .begins { s with pump := Function.update s.pump c (some (.start (side c) id)) }
  | pump {p t : Pump} {o : MuxStream} {e : Pump.Event} {l : Link} (hp : s.pump c = some p)
    (ho : (s.link c).mux.objects[idx c]? = some o) (hanswers : (s.link c).answers (socket c) (idx c) (p.on o) e = true)
    (ht : Pump.step (side c) (p.on o) e t) (hl : s.link.acts socket c ((p.on o).calls (idx c) e ++ (p.on o).closing t (idx c)) = some l) :
    Does s c (.pump e) ⟨l, Function.update s.pump c (some t), Function.update s.line c (s.line c ++ (p.on o).reads_line e)⟩

end

section
variable {socket : Bool → Nat → List Int} {side : Bool → Pump.Side} {idx : Bool → Nat} {s t : Passage} {c : Bool} {m : Move}

theorem does_of_step (h : step socket side idx s (c, m) t) : Does socket side idx s c m t := by
  unfold step next at h
  simp only at h
  split at h
  · split at h
    · rename_i hd
      obtain ⟨l, hl, rfl⟩ := Option.map_eq_some_iff.1 h
      exact .session hd hl
    · cases h
  · split at h
    · rename_i hp hid
      split at h
      · obtain rfl := Option.some.inj h
        exact .begins hp hid
      · cases h
    · cases h
  · split at h
    · rename_i hp ho
      split at h
      · rename_i hanswers
        split at h
        · cases h
        · rename_i ht
          obtain ⟨l, hl, rfl⟩ := Option.map_eq_some_iff.1 h
          exact .pump hp ho hanswers ht hl
      · cases h
    · cases h

end

end Passage

/-! ## What the calls do to a side -/

/-- A frame did not go out. -/
def Peer.Failed (p : Peer) : Prop := ∃ e ∈ p.mux.sent, e.2 = false

/-- On the object `i` these bytes were written and those read, and nothing else. -/
structure Handed (i : Nat) (x : UInt32) (p p' : Peer) (out took : Bytes) : Prop where
  id : p'.mux.id i = some x
  closed : p.mux.closed i = true → p'.mux.closed i = true
  failed : p.Failed → p'.Failed
  written : p'.written i = p.written i ++ out
  taken : p'.taken i = p.taken i ++ took
  ahead : project Frame.carries x p'.wire <+: p'.written i
  same : out = [] ∨ p.Failed → project Frame.carries x p'.wire = project Frame.carries x p.wire

section
variable {client : Bool} {p p' q : Peer} {i : Nat} {x : UInt32} {out took : Bytes}

/-- Behind a frame that failed the other side gets nothing. -/
theorem Peer.Failed.wire (h : p.Failed) (hsent : p.mux.sent <+: p'.mux.sent) : p'.wire = p.wire := by
  obtain ⟨e, he, hfalse⟩ := h
  obtain ⟨es, hes⟩ := hsent
  rw [Peer.wire, Peer.wire, ← hes, List.takeWhile_append, if_neg]
  intro hlength
  have hall := List.takeWhile_eq_self_iff.1 ((List.takeWhile_prefix _).eq_of_length hlength)
  rw [hall e he] at hfalse
  cases hfalse

theorem Kept.handed (hk : Kept client q p p') (hp : Alone client p) (hi : p.mux.id i = some x)
    (hwritten : p'.written i = p.written i ++ out) (htaken : p'.taken i = p.taken i ++ took) : Handed i x p p' out took := by
  have hi' := hk.stays.id i x hi
  refine ⟨hi', hk.stays.closed i, fun ⟨e, he, hf⟩ => ⟨e, hk.sent.subset he, hf⟩, hwritten, htaken, hk.alone.wire_written hi', fun hor => ?_⟩
  by_cases hfailed : p.Failed
  · rw [hfailed.wire hk.sent]
  · -- all that was written is on the wire, and no more was written
    have hok : ∀ e ∈ p.mux.sent, e.2 = true := fun e he => eq_true_of_ne_false fun hf => hfailed ⟨e, he, hf⟩
    have hall : project Frame.carries x p.wire = p.written i := by rw [Peer.wire_of_ok hok, hp.written i x hi]
    have hgrows : project Frame.carries x p.wire <+: project Frame.carries x p'.wire := project_prefix (Peer.wire_grows hk.sent)
    have hback := hk.alone.wire_written hi'
    rw [hwritten, hor.resolve_right hfailed, List.append_nil, ← hall] at hback
    exact (hgrows.eq_of_length (Nat.le_antisymm hgrows.length_le hback.length_le)).symm

end

section
variable {socket : Nat → List Int} {incoming : List Frame} {p p' : Peer} {i len : Nat} {buf : Bytes} {d : Deed}

theorem write_effect (h : p.next socket incoming (.write i buf) = some p') :
    p'.written i = p.written i ++ (if p.mux.goes_out socket (p.data_frame i buf) then buf else []) ∧ p'.taken = p.taken ∧
      (p.mux.goes_out socket (p.data_frame i buf) = false → p'.Failed) := by
  simp only [Peer.next] at h
  split at h
  · cases h
  · rw [Mux.send_frame_run] at h
    obtain rfl := Option.some.inj h
    refine ⟨?_, rfl, fun hout => ⟨(p.data_frame i buf, false), ?_, rfl⟩⟩
    · cases hout : p.mux.goes_out socket (p.data_frame i buf) <;> simp
    · show _ ∈ (p.mux.sends socket (p.data_frame i buf)).sent
      rw [(@sends_kept socket p.mux (p.data_frame i buf)).2.2.2.2.1, hout]
      exact List.mem_append_right _ (List.mem_singleton_self _)

theorem try_read_effect (h : p.next socket incoming (.try_read i len) = some p') :
    p'.written = p.written ∧ p'.taken i = p.taken i ++ p.takes i len := by
  simp only [Peer.next] at h
  split at h
  · cases h
  · obtain rfl := Option.some.inj h
    exact ⟨rfl, Function.update_self ..⟩

theorem spares_effect (hd : d.spares i = true) (h : p.next socket incoming d = some p') :
    p'.written i = p.written i ∧ p'.taken i = p.taken i := by
  cases d with
  | event e =>
    simp only [Peer.next] at h
    split at h
    · obtain ⟨t, -, rfl⟩ := Option.map_eq_some_iff.1 h
      exact ⟨rfl, rfl⟩
    · cases h
  | handle =>
    simp only [Peer.next] at h
    split at h
    · cases h
    · obtain ⟨t, -, rfl⟩ := Option.map_eq_some_iff.1 h
      exact ⟨rfl, rfl⟩
  | write j buf =>
    have hne : i ≠ j := Ne.symm (of_decide_eq_true hd)
    simp only [Peer.next] at h
    split at h
    · cases h
    · rw [Mux.send_frame_run] at h
      obtain rfl := Option.some.inj h
      refine ⟨?_, rfl⟩
      cases hout : p.mux.goes_out socket (p.data_frame j buf) <;> simp [hne]
  | try_read j len =>
    have hne : i ≠ j := Ne.symm (of_decide_eq_true hd)
    simp only [Peer.next] at h
    split at h
    · cases h
    · obtain rfl := Option.some.inj h
      exact ⟨rfl, Function.update_of_ne hne ..⟩

theorem takes_buffer {o : MuxStream} (ho : p.mux.objects[i]? = some o) (n : Nat) : p.takes i n = o.buffer.take n := by
  rw [Peer.takes, ho]
  cases hb : o.buffer with
  | nil => cases hc : o.closed <;> simp [MuxStream.try_read, hb, hc]
  | cons b rest => simp [MuxStream.try_read, hb]

end

/-! ## A pump and its side -/

/-- What holds of a pump, its side and the line that it has read. -/
structure Carried (side : Pump.Side) (i : Nat) (peer : Peer) (line : Bytes) (x : UInt32) (s : Pump) : Prop where
  id : peer.mux.id i = some x
  out : s.refused = false → side.dst ++ side.head ++ s.offered = peer.written i ++ s.unsent side ++ s.unread
  ahead : project Frame.carries x peer.wire <+: side.dst ++ side.head ++ s.offered
  /-- After a `write` has failed nothing more gets through. -/
  muted : s.refused = true → peer.Failed ∨ peer.mux.closed i = true ∧ s.phase.framing = false
  into : s.phase ≠ .ended .send_failed → peer.taken i = line ++ s.written ++ s.in_hand
  taken : line ++ s.written ++ s.in_hand <+: peer.taken i
  lined : Pump.Lined side line s

section
variable {side : Pump.Side} {i : Nat} {peer peer' : Peer} {line : Bytes} {x : UInt32} {s t : Pump} {e : Pump.Event}

theorem Carried.on (h : Carried side i peer line x s) (o : MuxStream) : Carried side i peer line x (s.on o) :=
  ⟨h.id, h.out, h.ahead, h.muted, h.into, h.taken, ⟨h.lined.reading, h.lined.none, h.lined.no_newline, h.lined.ends⟩⟩

/-- Other things happen on the session. -/
theorem Carried.session (h : Carried side i peer line x s) (hd : Handed i x peer peer' [] []) : Carried side i peer' line x s := by
  have hwritten : peer'.written i = peer.written i := by rw [hd.written, List.append_nil]
  have htaken : peer'.taken i = peer.taken i := by rw [hd.taken, List.append_nil]
  refine ⟨hd.id, ?_, ?_, fun hr => (h.muted hr).imp hd.failed fun hc => ⟨hd.closed hc.1, hc.2⟩, ?_, ?_, h.lined⟩
  · rw [hwritten]
    exact h.out
  · rw [hd.same (.inl rfl)]
    exact h.ahead
  · rw [htaken]
    exact h.into
  · rw [htaken]
    exact h.taken

/-- The pump takes a step, with its calls on the session. -/
theorem Carried.step (h : Carried side i peer line x s) (hclosed : s.stream.closed = peer.mux.closed i)
    (ht : Pump.step side s e t) (hd : Handed i x peer peer' (s.puts e) (s.takes e)) (hfailed : e = .framed false → peer'.Failed) :
    Carried side i peer' (line ++ s.reads_line e) x t := by
  have hm := Pump.moves_of_step ht
  have hout : t.refused = false → side.dst ++ side.head ++ t.offered = peer'.written i ++ t.unsent side ++ t.unread := by
    rw [hd.written]
    exact hm.out h.out
  have hinto : t.phase ≠ .ended .send_failed → peer'.taken i = line ++ s.reads_line e ++ t.written ++ t.in_hand := by
    rw [hd.taken]
    exact hm.into (fun hp => (h.lined.reading hp).2.2) h.into
  refine ⟨hd.id, hout, ?_, fun hr => ?_, hinto, ?_, hm.lined h.lined⟩
  · cases hr : t.refused with
    | false =>
      rw [hout hr, List.append_assoc]
      exact hd.ahead.trans (List.prefix_append _ _)
    | true =>
      -- nothing new has got on the wire
      have hsame : project Frame.carries x peer'.wire = project Frame.carries x peer.wire := by
        refine hd.same (hm.puts_of_frame.imp_right fun ⟨hframing, hrefused⟩ => ?_)
        refine (h.muted (hrefused ▸ hr)).resolve_right fun hc => ?_
        rw [hframing] at hc
        cases hc.2
      obtain ⟨more, hmore⟩ := hm.offered
      rw [hsame, ← hmore, ← List.append_assoc]
      exact h.ahead.trans (List.prefix_append _ _)
  · by_cases hf : peer'.Failed
    · exact .inl hf
    · obtain ⟨hc, hframing⟩ : peer.mux.closed i = true ∧ s.phase.framing = false := by
        rcases hm.refused hr with hs | he | ⟨hc, hframing⟩
        · exact (h.muted hs).resolve_left fun hs => hf (hd.failed hs)
        · exact absurd (hfailed he) hf
        · exact ⟨hclosed ▸ hc, hframing⟩
      refine .inr ⟨hd.closed hc, Bool.eq_false_iff.2 fun htrue => ?_⟩
      rcases Pump.framing_of_open ht htrue with hs | hopen
      · rw [hframing] at hs
        cases hs
      · rw [hclosed, hc] at hopen
        cases hopen
  · by_cases hgave : t.phase = .ended .send_failed
    · obtain ⟨htakes, hline, hwritten, hhand⟩ := hm.gives_up hgave
      rw [hd.taken, htakes, hline, hwritten, hhand, List.append_nil, List.append_nil, List.append_nil]
      exact (List.prefix_append _ _).trans h.taken
    · rw [hinto hgave]

end

namespace Link

variable {socket : Bool → Nat → List Int} {c : Bool} {l l' : Link} {ds es : List Deed} {d : Deed}

theorem acts_one (h : l.acts socket c [d] = some l') : step socket l (c, d) l' := by
  unfold acts at h
  obtain ⟨m, hm, hl⟩ := Option.bind_eq_some_iff.1 h
  obtain rfl := Option.some.inj hl
  exact hm

theorem acts_append (h : l.acts socket c (ds ++ es) = some l') : ∃ m, l.acts socket c ds = some m ∧ m.acts socket c es = some l' := by
  unfold acts at h
  rw [List.map_append, List.foldlM_append] at h
  exact Option.bind_eq_some_iff.1 h

theorem acts_reaches (h : l.acts socket c ds = some l') : Reaches (step socket) (· = l) l' :=
  Reaches.foldlM (fun _ _ _ h => h) (.init rfl) h

theorem acts_other (h : l.acts socket c ds = some l') : l' (!c) = l !c := by
  induction ds generalizing l with
  | nil =>
    obtain rfl := Option.some.inj h
    rfl
  | cons d ds ih =>
    have hsplit : l.acts socket c ([d] ++ ds) = some l' := h
    obtain ⟨m, hm, hl⟩ := acts_append hsplit
    rw [ih hl]
    exact (step_sides (acts_one hm)).2

variable {i : Nat} {x : UInt32}

/-- One thing is done with a stream that one side has. -/
theorem acts_handed {out took : Bytes} (hs : Coherent l) (hfew : ∀ c, (l' c).Few) (hi : (l c).mux.id i = some x)
    (h : l.acts socket c [d] = some l') (heffect : (l' c).written i = (l c).written i ++ out ∧ (l' c).taken i = (l c).taken i ++ took) :
    Handed i x (l c) (l' c) out took :=
  (step_kept (acts_one h) hfew hs).handed (hs c).1 hi heffect.1 heffect.2

theorem try_read_handed {o : MuxStream} {n : Nat} (hs : Coherent l) (hfew : ∀ c, (l' c).Few) (hi : (l c).mux.id i = some x)
    (ho : (l c).mux.objects[i]? = some o) (h : l.acts socket c [.try_read i n] = some l') :
    Handed i x (l c) (l' c) [] (o.buffer.take n) := by
  obtain ⟨hwritten, htaken⟩ := try_read_effect (step_sides (acts_one h)).1
  rw [takes_buffer ho] at htaken
  exact acts_handed hs hfew hi h ⟨by rw [hwritten, List.append_nil], htaken⟩

theorem spares_handed (hs : Coherent l) (hfew : ∀ c, (l' c).Few) (hi : (l c).mux.id i = some x) (hd : d.spares i = true)
    (h : l.acts socket c [d] = some l') : Handed i x (l c) (l' c) [] [] := by
  obtain ⟨hwritten, htaken⟩ := spares_effect hd (step_sides (acts_one h)).1
  exact acts_handed hs hfew hi h ⟨by rw [hwritten, List.append_nil], by rw [htaken, List.append_nil]⟩

theorem nothing_handed (hs : Coherent l) (hi : (l c).mux.id i = some x) : Handed i x (l c) (l c) [] [] := by
  have hkept : Kept c (l !c) (l c) (l c) := ⟨(hs c).1, (hs c).2, List.prefix_rfl, Stays.refl _⟩
  exact hkept.handed (hs c).1 hi (List.append_nil _).symm (List.append_nil _).symm

/-- `stream->close()` moves no byte. -/
theorem closing_handed {s t : Pump} (hs : Coherent l) (hfew : ∀ c, (l' c).Few) (hi : (l c).mux.id i = some x)
    (h : l.acts socket c (s.closing t i) = some l') : Handed i x (l c) (l' c) [] [] := by
  unfold Pump.closing at h
  split at h
  · exact spares_handed hs hfew hi rfl h
  · obtain rfl := Option.some.inj h
    exact nothing_handed hs hi

/-- The calls of a pump's step. -/
theorem calls_handed {side : Pump.Side} {s t : Pump} {e : Pump.Event} (hm : Pump.Moves side s e t) (hs : Coherent l) (hfew : ∀ c, (l' c).Few) (hi : (l c).mux.id i = some x)
    (ho : (l c).mux.objects[i]? = some s.stream) (hanswers : (l c).answers (socket c) i s e = true)
    (h : l.acts socket c (s.calls i e) = some l') :
    Handed i x (l c) (l' c) (s.puts e) (s.takes e) ∧ (e = .framed false → (l' c).Failed) := by
  rcases s.calls_cases i e with ⟨rfl, hp⟩ | ⟨rfl, hp⟩ | ⟨ok, rest, next, rfl, hp⟩ | ⟨hcalls, hputs, htakes⟩
  · simp only [Pump.calls, hp] at h
    exact ⟨by simpa [Pump.puts, Pump.takes, hp] using try_read_handed hs hfew hi ho h, nofun⟩
  · simp only [Pump.calls, hp] at h
    exact ⟨by simpa [Pump.puts, Pump.takes, hp] using try_read_handed hs hfew hi ho h, nofun⟩
  · simp only [Pump.calls, hp] at h
    obtain ⟨hwritten, htaken, hfailed⟩ := write_effect (step_sides (acts_one h)).1
    have hok : ok = (l c).mux.goes_out (socket c) ((l c).data_frame i (rest.take kDataFrameCap)) := by
      simpa [Peer.answers, hp] using hanswers
    refine ⟨acts_handed hs hfew hi h ⟨?_, ?_⟩, fun hf => ?_⟩
    · rw [hwritten, ← hok]
      cases ok <;> simp [Pump.puts, hp]
    · rw [htaken]
      exact (List.append_nil _).symm
    · cases hf
      exact hfailed hok.symm
  · rw [hcalls] at h
    obtain rfl := Option.some.inj h
    refine ⟨?_, fun hf => ?_⟩
    · rw [hputs, htakes]
      exact nothing_handed hs hi
    · -- `send_frame` answers only who calls it
      subst hf
      cases hm with
      | unframed hp => simp [Pump.calls, hp] at hcalls

end Link

namespace Passage

/-- Both sessions, and each pump with its side. -/
structure Sound (side : Bool → Pump.Side) (idx : Bool → Nat) (s : Passage) : Prop where
  link : s.link.Coherent
  idle : ∀ c, s.pump c = none → (s.link c).written (idx c) = [] ∧ (s.link c).taken (idx c) = [] ∧ s.line c = []
  carried : ∀ c p, s.pump c = some p → ∃ x, Carried (side c) (idx c) (s.link c) (s.line c) x p

section
variable {socket : Bool → Nat → List Int} {side : Bool → Pump.Side} {idx : Bool → Nat} {s t : Passage} {c : Bool} {m : Move}

theorem sound_new : Sound side idx new := ⟨Link.coherent_new, fun _ _ => ⟨rfl, rfl, rfl⟩, nofun⟩

/-- The other side and its pump are as before. -/
theorem Sound.of_other (hs : Sound side idx s) (hlink : t.link.Coherent) (hother : t.link (!c) = s.link !c)
    (hpump : t.pump (!c) = s.pump !c) (hline : t.line (!c) = s.line !c)
    (hidle : t.pump c = none → (t.link c).written (idx c) = [] ∧ (t.link c).taken (idx c) = [] ∧ t.line c = [])
    (hcarried : ∀ p, t.pump c = some p → ∃ x, Carried (side c) (idx c) (t.link c) (t.line c) x p) : Sound side idx t := by
  refine ⟨hlink, fun d hd => ?_, fun d p hp => ?_⟩
  · rcases Link.side_cases d c with rfl | rfl
    · exact hidle hd
    · rw [hother, hline]
      exact hs.idle _ (hpump ▸ hd)
  · rcases Link.side_cases d c with rfl | rfl
    · exact hcarried p hp
    · rw [hother, hline]
      exact hs.carried _ p (hpump ▸ hp)

theorem carried_start {peer : Peer} {side : Pump.Side} {i : Nat} {x : UInt32} (halone : Alone c peer) (hi : peer.mux.id i = some x)
    (hwritten : peer.written i = []) (htaken : peer.taken i = []) : Carried side i peer [] x (.start side x) := by
  have hnothing := halone.wire_written hi
  rw [hwritten, List.prefix_nil] at hnothing
  refine ⟨hi, fun _ => ?_, ?_, nofun, fun _ => ?_, ?_, Pump.lined_start side x⟩
  · rw [hwritten]
    cases side <;> simp [Pump.start, Pump.unsent, Pump.Side.dst, Pump.Side.head, Pump.Next.later]
  · rw [hnothing]
    exact List.nil_prefix
  · rw [htaken]
    cases side <;> rfl
  · cases side <;> exact List.nil_prefix

theorem sound_step (h : step socket side idx s (c, m) t) (hfew : ∀ c, (t.link c).Few) (hs : Sound side idx s) : Sound side idx t := by
  have hne : (!c) ≠ c := by cases c <;> decide
  cases does_of_step h with
  | @session d l hd hl =>
    have hcoherent := (Link.coherent_run hs.link (Link.acts_reaches hl) hfew).1
    have heffect := spares_effect hd (Link.step_sides (Link.acts_one hl)).1
    refine hs.of_other hcoherent (Link.acts_other hl) rfl rfl (fun hp => ?_) fun p hp => ?_
    · obtain ⟨hwritten, htaken, hline⟩ := hs.idle c hp
      exact ⟨heffect.1.trans hwritten, heffect.2.trans htaken, hline⟩
    · obtain ⟨x, hcarried⟩ := hs.carried c p hp
      exact ⟨x, hcarried.session (Link.spares_handed hs.link hfew hcarried.id hd hl)⟩
  | @begins id hp hid =>
    obtain ⟨hwritten, htaken, hline⟩ := hs.idle c hp
    refine hs.of_other hs.link rfl (Function.update_of_ne hne ..) rfl (fun hnone => ?_) fun p hsome => ?_
    · simp at hnone
    · obtain rfl : Pump.start (side c) id = p := by simpa using hsome
      refine ⟨id, ?_⟩
      show Carried (side c) (idx c) (s.link c) (s.line c) id _
      rw [hline]
      exact carried_start (hs.link c).1 hid hwritten htaken
  | @pump p u o e l hp ho hanswers hu hl =>
    obtain ⟨l₁, hcalls, hclosing⟩ := Link.acts_append hl
    have hfew₁ := Link.few_of_run (Link.acts_reaches hclosing) hfew
    have hcoherent₁ := (Link.coherent_run hs.link (Link.acts_reaches hcalls) hfew₁).1
    have hcoherent := (Link.coherent_run hcoherent₁ (Link.acts_reaches hclosing) hfew).1
    obtain ⟨x, hcarried⟩ := hs.carried c p hp
    have hclosed : (p.on o).stream.closed = (s.link c).mux.closed (idx c) := by rw [Mux.closed, ho]; rfl
    refine hs.of_other hcoherent (Link.acts_other hl) (Function.update_of_ne hne ..) (Function.update_of_ne hne ..) (fun hnone => ?_)
      fun q hq => ?_
    · simp at hnone
    · obtain rfl : u = q := by simpa using hq
      obtain ⟨hhanded, hfailed⟩ := Link.calls_handed (Pump.moves_of_step hu) hs.link hfew₁ hcarried.id ho hanswers hcalls
      have hstep := (hcarried.on o).step hclosed hu hhanded hfailed
      refine ⟨x, ?_⟩
      show Carried (side c) (idx c) (l c) (Function.update s.line c _ c) x u
      rw [Function.update_self]
      exact hstep.session (Link.closing_handed hcoherent₁ hfew hstep.id hclosing)

theorem link_reaches (h : step socket side idx s (c, m) t) : Reaches (Link.step socket) (· = s.link) t.link := by
  cases does_of_step h with
  | session hd hl => exact Link.acts_reaches hl
  | begins hp hid => exact .init rfl
  | pump hp ho hanswers hu hl => exact Link.acts_reaches hl

theorem sound_run (h : Reaches (step socket side idx) (· = new) s) (hfew : ∀ c, (s.link c).Few) : Sound side idx s := by
  induction h with
  | init hi => exact hi ▸ sound_new
  | step _ hstep ih => exact sound_step hstep hfew (ih (Link.few_of_run (link_reaches hstep) hfew))

/-! ## From one socket to the other -/

/-- What the pump of `c` has from its socket and the other socket has not taken yet. -/
def under_way (side : Bool → Pump.Side) (idx : Bool → Nat) (s : Passage) (c : Bool) (x : UInt32) (p q : Pump) : Bytes :=
  q.in_hand ++ (s.link !c).mux.buffer (idx !c) ++ s.link.in_flight c x ++ p.unsent (side c) ++ p.unread

theorem Sound.delivers (hs : Sound side idx s) {x : UInt32} (hi : (s.link c).mux.id (idx c) = some x)
    (hj : (s.link !c).mux.id (idx !c) = some x) {p q : Pump} (hp : s.pump c = some p) (hq : s.pump (!c) = some q) :
    s.line (!c) ++ q.written <+: (side c).dst ++ (side c).head ++ p.offered ∧
      ((s.link c).mux.dead = false → p.refused = false → q.phase ≠ .ended .send_failed →
        s.line (!c) ++ q.written ++ under_way side idx s c x p q = (side c).dst ++ (side c).head ++ p.offered) := by
  obtain ⟨y, hsender⟩ := hs.carried c p hp
  obtain ⟨z, hreader⟩ := hs.carried (!c) q hq
  obtain rfl := Option.some.inj (hsender.id.symm.trans hi)
  have hreceived := hs.link.received hj
  constructor
  · calc s.line (!c) ++ q.written
        <+: s.line (!c) ++ q.written ++ q.in_hand := List.prefix_append _ _
      _ <+: (s.link !c).taken (idx !c) := hreader.taken
      _ <+: project Frame.carries y (s.link c).wire := by
        rw [← hreceived, List.append_assoc]
        exact List.prefix_append _ _
      _ <+: (side c).dst ++ (side c).head ++ p.offered := hsender.ahead
  · intro hd hr hgave
    have htaken := hreader.into hgave
    have hwire := (hs.link.on_wire hi).2 hd
    rw [hsender.out hr, ← hwire, ← hreceived, htaken, under_way]
    simp only [List.append_assoc]

/-- The relay's pump under `false`, the origin's under `true`. -/
def ends (host : Bytes) (origin_port_hint : Int) (head : Bytes) : Bool → Pump.Side
  | false => .serve_public host origin_port_hint head
  | true => .bridge_stream

/-- In every state that the two ends of a tunnelled connection reach, the service has got a
first part of what the public client sent, once the destination line was read, and the
client a first part of what the service answered. Unless a session has died or a call has
failed, what is missing is under way. -/
theorem through_tunnel {host head : Bytes} {origin_port_hint : Int} (hhost : 10 ∉ host)
    (h : Reaches (step socket (ends host origin_port_hint head) idx) (· = new) s)
    (hfew : ∀ c, (s.link c).side.own.length ≤ 2 ^ 31) {x : UInt32} (hrelay : (s.link false).mux.id (idx false) = some x)
    (horigin : (s.link true).mux.id (idx true) = some x) {relay origin : Pump} (hr : s.pump false = some relay)
    (ho : s.pump true = some origin) :
    (10 ∈ s.line true → origin.dst = host ++ bytes ":" ++ to_string origin_port_hint ∧
        origin.written <+: head ++ relay.offered ∧
        ((s.link false).mux.dead = false → relay.refused = false → origin.phase ≠ .ended .send_failed →
          origin.written ++ under_way (ends host origin_port_hint head) idx s false x relay origin = head ++ relay.offered)) ∧
      relay.written <+: origin.offered ∧
      ((s.link true).mux.dead = false → origin.refused = false → relay.phase ≠ .ended .send_failed →
        relay.written ++ under_way (ends host origin_port_hint head) idx s true x origin relay = origin.offered) := by
  have hsound := sound_run h hfew
  obtain ⟨hrequest, hwhole⟩ := @Sound.delivers _ _ _ false hsound x hrelay horigin _ _ hr ho
  obtain ⟨hanswer, hback⟩ := @Sound.delivers _ _ _ true hsound x horigin hrelay _ _ ho hr
  obtain ⟨y, horiginal⟩ := hsound.carried true origin ho
  obtain ⟨z, hrelayed⟩ := hsound.carried false relay hr
  have hnone : s.line false = [] := hrelayed.lined.none rfl
  refine ⟨fun hline => ?_, ?_⟩
  · have hread : s.line true = origin.dst ++ [10] :=
      horiginal.lined.ends.resolve_left fun hdst => horiginal.lined.no_newline (hdst ▸ hline)
    have hname : 10 ∉ host ++ bytes ":" ++ to_string origin_port_hint := by
      have hcolon : (10 : UInt8) ∉ bytes ":" := by decide
      simp [hhost, hcolon, to_string_newline]
    have hwritten (rest : Bytes) : s.line true ++ origin.written ++ rest = origin.dst ++ 10 :: (origin.written ++ rest) := by
      rw [hread]
      simp
    have hsent : (ends host origin_port_hint head false).dst ++ (ends host origin_port_hint head false).head ++ relay.offered =
        host ++ bytes ":" ++ to_string origin_port_hint ++ 10 :: (head ++ relay.offered) := by
      have hnewline : bytes "\n" = [10] := by decide
      simp [ends, Pump.Side.dst, Pump.Side.head, hnewline]
    have hfirst := hwritten []
    simp only [List.append_nil] at hfirst
    rw [Bool.not_false, hfirst, hsent, before_first horiginal.lined.no_newline hname] at hrequest
    refine ⟨hrequest.1, hrequest.2, fun hd hrefused hgave => ?_⟩
    have hall := hwhole hd hrefused hgave
    rw [Bool.not_false, hwritten, hsent, hrequest.1] at hall
    exact (List.cons.inj (List.append_cancel_left hall)).2
  · have hsent : (ends host origin_port_hint head true).dst ++ (ends host origin_port_hint head true).head ++ origin.offered =
        origin.offered := rfl
    rw [Bool.not_true, hnone, hsent] at hanswer hback
    exact ⟨hanswer, hback⟩

end

/-! ## A run -/

def by_relay (es : List Pump.Event) : List (Bool × Move) := es.map fun e => (false, .pump e)

def by_origin (es : List Pump.Event) : List (Bool × Move) := es.map fun e => (true, .pump e)

/-- The relay sends the line and the head and then what the client goes on with. The origin reads
the line, has the head and gives the first byte of it to its service. -/
def toyRun : List (Bool × Move) :=
  [(false, .session (.event (.act .open_stream))), (false, .begins)] ++
    by_relay [.moves, .framed true, .moves, .moves, .framed true, .moves, .moves] ++
    [(true, .session .handle), (true, .session (.event (.act .poll))), (true, .begins), (true, .session .handle)] ++
    by_origin [.moves, .moves, .moves, .moves, .moves, .connected true] ++
    by_relay [.arrive [69, 84], .polled true false, .recvd 2, .moves, .framed true, .moves] ++
    [(true, .session .handle)] ++ by_origin [.moves, .polled false false, .moves, .moves, .took 1, .arrive [72]]

def toyPassage : Option Passage := toyRun.foldlM (next Link.wideSocket (ends [104] 80 [71, 32]) fun _ => 0) new

/-- What `toyRun` leads to. -/
def toyEnds (s : Passage) : Prop :=
  s.line true = [104, 58, 56, 48, 10] ∧ (s.link false).mux.id 0 = some 2 ∧ (s.link true).mux.id 0 = some 2 ∧
    (s.link false).mux.dead = false ∧ (s.link false).side.own.length = 1 ∧ (s.link true).side.own.length = 0 ∧
    ((s.pump false).any fun p => !p.refused && p.offered = [69, 84]) = true ∧
    ((s.pump true).any fun q => q.written = [71] && q.phase = .send [32]) = true

instance (s : Passage) : Decidable (toyEnds s) := inferInstanceAs (Decidable (_ ∧ _))

theorem through_tunnel_toy : ∃ s relay origin, toyPassage = some s ∧ s.pump false = some relay ∧ s.pump true = some origin ∧
    origin.written = [71] ∧ [71] ++ under_way (ends [104] 80 [71, 32]) (fun _ => 0) s false 2 relay origin = [71, 32, 69, 84] := by
  have hrun : toyPassage.any (fun s => decide (toyEnds s)) = true := by decide +kernel
  obtain ⟨s, hs, hends⟩ := (Option.any_eq_true _ _).1 hrun
  obtain ⟨hline, hrelay, horigin, hdead, hown, hother, hfirst, hsecond⟩ := of_decide_eq_true hends
  obtain ⟨relay, hr, hrelays⟩ := (Option.any_eq_true _ _).1 hfirst
  obtain ⟨origin, ho, horigins⟩ := (Option.any_eq_true _ _).1 hsecond
  simp only [Bool.and_eq_true, Bool.not_eq_true', decide_eq_true_eq] at hrelays horigins
  have hfew (c : Bool) : (s.link c).side.own.length ≤ 2 ^ 31 := by
    cases c with
    | false => rw [hown]; exact Nat.one_le_two_pow
    | true => rw [hother]; exact Nat.zero_le _
  have hreaches : Reaches (step Link.wideSocket (ends [104] 80 [71, 32]) fun _ => 0) (· = new) s :=
    Reaches.foldlM (fun _ _ _ h => h) (.init rfl) hs
  have hall := ((through_tunnel (by decide) hreaches hfew hrelay horigin hr ho).1 (by rw [hline]; decide)).2.2 hdead hrelays.1
    (by rw [horigins.2]; nofun)
  rw [horigins.1, hrelays.2] at hall
  exact ⟨s, relay, origin, hs, hr, ho, horigins.1, hall⟩

end Passage

end Hostely.Tunnel
