import Hostely.Lib.Runs
import Hostely.Inference.Generation
import Mathlib.Data.Finset.Card
import Mathlib.Order.Interval.Finset.Nat
/-!
# Who owns which sequence

Allocator, session table and KV cache are three structures that
`complete_stream` keeps in step by hand. `Owned` is what it keeps: the ids in
use are the ids the sessions hold, and what nobody holds is empty.
-/

open Hostely.Lib

namespace Hostely.Inference

variable {L : Type}

/-- A session of the table holds the sequence. -/
def Server.holds (s : Server L) (id : Nat) : Prop := ∃ x ∈ s.sessions.map, x.seq_id = id

structure Owned (n : Nat) (s : Server L) : Prop where
  alloc : s.seq_alloc.Ok n
  cap : s.sessions.max = n - 1
  range : ∀ x ∈ s.sessions.map, 1 ≤ x.seq_id ∧ x.seq_id < n
  distinct : ∀ x ∈ s.sessions.map, ∀ y ∈ s.sessions.map, x.seq_id = y.seq_id → x = y
  used : ∀ id, s.seq_alloc.used id = true ↔ s.holds id
  clean : ∀ id, 1 ≤ id → id < n → ¬ s.holds id → s.ctx.kv id = []

theorem load_model_owned (M : LlamaModel L) : Owned M.n_seq_max (load_model M) := by
  have hok := SeqAllocator.ofMax_ok M.two_le_n_seq_max
  refine ⟨hok, ?_, ?_, ?_, ?_, ?_⟩
  · show (SeqAllocator.ofMax M.n_seq_max).max - 1 = _
    rw [hok.max_eq]
  · intro x hx
    cases hx
  · intro x hx
    cases hx
  · intro id
    constructor
    · intro hu
      rw [load_model, SeqAllocator.ofMax_used] at hu
      cases hu
    · rintro ⟨x, hx, _⟩
      cases hx
  · intro id _ _ _
    rfl

section Count
variable {n : Nat} {s : Server L}

/-- The ids held, as a set of numbers below `n`. -/
theorem Owned.card (h : Owned n s) :
    (s.sessions.map.map (·.seq_id)).toFinset.card = s.sessions.map.length ∧
      (s.sessions.map.map (·.seq_id)).toFinset ⊆ Finset.Ico 1 n := by
  constructor
  · rw [List.toFinset_card_of_nodup, List.length_map]
    apply (List.nodup_map_iff_inj_on (List.Nodup.of_map _ s.sessions.nodup)).2
    exact h.distinct
  · intro id hid
    simp only [List.mem_toFinset, List.mem_map] at hid
    obtain ⟨x, hx, rfl⟩ := hid
    rw [Finset.mem_Ico]
    exact h.range x hx

/-- The table never exceeds its capacity. -/
theorem Owned.length_le (h : Owned n s) : s.sessions.map.length ≤ n - 1 := by
  obtain ⟨hcard, hsub⟩ := h.card
  have := Finset.card_le_card hsub
  rw [hcard, Nat.card_Ico] at this
  exact this

/-- A free id leaves room in the table. -/
theorem Owned.length_lt (h : Owned n s) {id : Nat} (h1 : 1 ≤ id) (hn : id < n) (hfree : ¬ s.holds id) :
    s.sessions.map.length < n - 1 := by
  obtain ⟨hcard, hsub⟩ := h.card
  have hnot : id ∉ (s.sessions.map.map (·.seq_id)).toFinset := by
    simp only [List.mem_toFinset, List.mem_map]
    exact hfree
  have := Finset.card_lt_card (Finset.ssubset_iff_of_subset hsub |>.2 ⟨id, Finset.mem_Ico.2 ⟨h1, hn⟩, hnot⟩)
  rw [hcard, Nat.card_Ico] at this
  exact this

end Count

/-! ## What a request does to the three structures -/

/-- A new session takes its sequence and its place in the table. -/
def Server.enter (s : Server L) (x : Session) : Server L :=
  { s with
    seq_alloc :=
      { s.seq_alloc with
        in_use := s.seq_alloc.in_use.set x.seq_id true
        next := (x.seq_id + 1) % s.seq_alloc.max }
    sessions := s.sessions.assign x }

/-- A session leaves: its sequence is cleared and given back. -/
def Server.evict (s : Server L) (v : Session) : Server L :=
  { ctx := llama_memory_seq_rm s.ctx v.seq_id (-1) (-1)
    seq_alloc := s.seq_alloc.give_back v.seq_id
    sessions := s.sessions.erase v.id }

section Owned
variable {n : Nat} {s : Server L}

theorem Server.evict_seq_alloc (s : Server L) (v : Session) :
    (s.evict v).seq_alloc = s.seq_alloc.give_back v.seq_id := rfl

theorem Server.evict_ctx (s : Server L) (v : Session) :
    (s.evict v).ctx = llama_memory_seq_rm s.ctx v.seq_id (-1) (-1) := rfl

theorem Server.enter_used (h : s.seq_alloc.Ok n) {x : Session} (hx : x.seq_id < n) (id : Nat) :
    (s.enter x).seq_alloc.used id = if id = x.seq_id then true else s.seq_alloc.used id :=
  SeqAllocator.used_set h hx true id

theorem Server.enter_sessions {x : Session} (hnew : s.sessions.peek x.id = none) :
    (s.enter x).sessions.map = s.sessions.map ++ [x] := SessionTable.assign_new hnew

theorem Owned.enter (h : Owned n s) {x : Session} (hx : s.seq_alloc.Offers n x.seq_id)
    (hnew : s.sessions.peek x.id = none) : Owned n (s.enter x) := by
  obtain ⟨h1, hlt, hu, -⟩ := hx
  have hmap : (s.enter x).sessions.map = s.sessions.map ++ [x] := SessionTable.assign_new hnew
  have hfree : ¬ s.holds x.seq_id := by
    rw [← h.used, hu]
    simp
  have hok : (s.enter x).seq_alloc.Ok n := by
    have := @SeqAllocator.Ok.taken s.seq_alloc n x.seq_id h.alloc
    simp only [Server.enter, h.alloc.max_eq] at this ⊢
    exact this
  refine ⟨hok, ?_, ?_, ?_, ?_, ?_⟩
  · exact (SessionTable.assign_max _ _).trans h.cap
  · intro y hy
    rw [hmap, List.mem_append, List.mem_singleton] at hy
    rcases hy with hy | rfl
    · exact h.range y hy
    · exact ⟨h1, hlt⟩
  · intro y hy z hz hyz
    rw [hmap, List.mem_append, List.mem_singleton] at hy hz
    rcases hy with hy | rfl <;> rcases hz with hz | rfl
    · exact h.distinct y hy z hz hyz
    · exact absurd ⟨y, hy, hyz⟩ hfree
    · exact absurd ⟨z, hz, hyz.symm⟩ hfree
    · rfl
  · -- one id more is marked, and one more is held
    intro id
    rw [Server.enter_used h.alloc hlt, Server.holds, hmap]
    split
    · subst_vars
      simp
    · rw [h.used, Server.holds]
      constructor
      · rintro ⟨y, hy, rfl⟩
        exact ⟨y, List.mem_append_left _ hy, rfl⟩
      · rintro ⟨y, hy, rfl⟩
        rcases List.mem_append.1 hy with hy | hy
        · exact ⟨y, hy, rfl⟩
        · rw [List.mem_singleton] at hy
          exact absurd (congrArg Session.seq_id hy) ‹_›
  · intro id hid1 hidn hnot
    refine h.clean id hid1 hidn fun ⟨y, hy, hyid⟩ => hnot ⟨y, ?_, hyid⟩
    rw [hmap]
    exact List.mem_append_left _ hy

theorem Owned.evict (h : Owned n s) {v : Session} (hv : v ∈ s.sessions.map) : Owned n (s.evict v) := by
  obtain ⟨h1, hlt⟩ := h.range v hv
  have hmem : ∀ {y}, y ∈ (s.evict v).sessions.map ↔ y ∈ s.sessions.map ∧ y.id ≠ v.id := SessionTable.mem_erase
  refine ⟨h.alloc.give_back v.seq_id, h.cap, ?_, ?_, ?_, ?_⟩
  · intro y hy
    exact h.range y (hmem.1 hy).1
  · intro y hy z hz
    exact h.distinct y (hmem.1 hy).1 z (hmem.1 hz).1
  · intro id
    rw [Server.evict_seq_alloc, SeqAllocator.give_back_used h.alloc h1 hlt id]
    split
    · subst_vars
      simp only [Bool.false_eq_true, false_iff]
      rintro ⟨y, hy, hyid⟩
      obtain ⟨hy, hne⟩ := hmem.1 hy
      exact hne (congrArg Session.id (h.distinct y hy v hv hyid))
    · rw [h.used]
      constructor
      · rintro ⟨y, hy, rfl⟩
        refine ⟨y, hmem.2 ⟨hy, fun he => ?_⟩, rfl⟩
        have := key_unique Session.id s.sessions.nodup hy hv he
        subst this
        contradiction
      · rintro ⟨y, hy, rfl⟩
        exact ⟨y, (hmem.1 hy).1, rfl⟩
  · intro id hid1 hidn hnot
    by_cases hid : id = v.seq_id
    · subst hid
      exact seq_rm_all _ _
    · rw [Server.evict_ctx, seq_rm_other _ _ _ hid]
      refine h.clean id hid1 hidn fun ⟨y, hy, hyid⟩ => hnot ⟨y, hmem.2 ⟨hy, fun he => ?_⟩, hyid⟩
      have := key_unique Session.id s.sessions.nodup hy hv he
      subst this
      exact hid hyid.symm

/-- Updating a session in place: nobody's sequence changes hands. -/
theorem Owned.set (h : Owned n s) {x y : Session} (hx : x ∈ s.sessions.map) (hid : y.id = x.id)
    (hseq : y.seq_id = x.seq_id) : Owned n { s with sessions := s.sessions.set y } := by
  have hmem : ∀ {z}, z ∈ (s.sessions.set y).map ↔ z = y ∨ (z ∈ s.sessions.map ∧ z.id ≠ x.id) := by
    intro z
    rw [SessionTable.mem_set, hid]
    have : x.id ∈ s.sessions.map.map Session.id := List.mem_map.2 ⟨x, hx, rfl⟩
    simp [this]
  have hseq_other : ∀ z ∈ s.sessions.map, z.id ≠ x.id → z.seq_id ≠ x.seq_id := by
    intro z hz hne he
    exact hne (congrArg Session.id (h.distinct z hz x hx he))
  have hholds : ∀ id, Server.holds { s with sessions := s.sessions.set y } id ↔ s.holds id := by
    intro id
    constructor
    · rintro ⟨z, hz, rfl⟩
      rcases hmem.1 hz with rfl | ⟨hz, _⟩
      · exact ⟨x, hx, hseq.symm⟩
      · exact ⟨z, hz, rfl⟩
    · rintro ⟨z, hz, rfl⟩
      by_cases he : z.id = x.id
      · obtain rfl := key_unique Session.id s.sessions.nodup hz hx he
        exact ⟨y, hmem.2 (.inl rfl), hseq⟩
      · exact ⟨z, hmem.2 (.inr ⟨hz, he⟩), rfl⟩
  refine ⟨h.alloc, h.cap, ?_, ?_, ?_, ?_⟩
  · intro z hz
    rcases hmem.1 hz with rfl | ⟨hz, _⟩
    · rw [hseq]
      exact h.range x hx
    · exact h.range z hz
  · intro z hz z' hz' he
    rcases hmem.1 hz with rfl | ⟨hz₀, hne⟩
    · rcases hmem.1 hz' with rfl | ⟨hz₀', hne'⟩
      · rfl
      · exact absurd (he.symm.trans hseq) (hseq_other z' hz₀' hne')
    · rcases hmem.1 hz' with rfl | ⟨hz₀', hne'⟩
      · exact absurd (he.trans hseq) (hseq_other z hz₀ hne)
      · exact h.distinct z hz₀ z' hz₀' he
  · intro id
    rw [hholds]
    exact h.used id
  · intro id hid1 hidn hnot
    exact h.clean id hid1 hidn ((hholds id).not.1 hnot)

/-- Decoding on a sequence that is held, or on sequence 0. -/
theorem Owned.ctx (h : Owned n s) {ctx : LlamaContext L} {seq : Nat} (hseq : seq = 0 ∨ s.holds seq)
    (hkv : ∀ id, id ≠ seq → ctx.kv id = s.ctx.kv id) : Owned n { s with ctx } := by
  refine ⟨h.alloc, h.cap, h.range, h.distinct, h.used, fun id h1 hn hnot => ?_⟩
  have hne : id ≠ seq := by
    rintro rfl
    rcases hseq with rfl | hheld
    · omega
    · exact hnot hheld
  exact (hkv id hne).trans (h.clean id h1 hn hnot)

end Owned

/-! ## Resolving a session -/

/-- The session a request with an unknown id is given. -/
def newSession (w : World) (req : Request) (seq : Nat) : Session := ⟨req.session_id, seq, [], w.now⟩

/-- The ways `resolve_session` can go. -/
inductive Resolves (n : Nat) (w : World) (req : Request) (s : Server L) : Option Session × Server L → Prop
  /-- No session asked for, or none whose tokens start the prompt. -/
  | stateless : req.session_id = "" → Resolves n w req s (none, s)
  /-- A session of the table. -/
  | found {x : Session} : x ∈ s.sessions.map → (req.session_id ≠ "" → x.id = req.session_id) →
      Resolves n w req s (some (x.touch w.now), { s with sessions := s.sessions.set (x.touch w.now) })
  /-- A new session on a free sequence. -/
  | fresh {id : Nat} : req.session_id ≠ "" → s.sessions.peek req.session_id = none → s.seq_alloc.Offers n id →
      Resolves n w req s (some (newSession w req id), s.enter (newSession w req id))
  /-- A new session after the least recently used one left. -/
  | recycled {v : Session} {id : Nat} : req.session_id ≠ "" → s.sessions.peek req.session_id = none →
      (∀ id, ¬ s.seq_alloc.Offers n id) → s.sessions.lru w.iter = some v →
      (s.evict v).seq_alloc.Offers n id →
      Resolves n w req s (some (newSession w req id), (s.evict v).enter (newSession w req id))
  /-- A session left and its sequence was not found again. -/
  | lost {v : Session} : req.session_id ≠ "" → s.sessions.peek req.session_id = none →
      (∀ id, ¬ s.seq_alloc.Offers n id) → s.sessions.lru w.iter = some v →
      (∀ id, ¬ (s.evict v).seq_alloc.Offers n id) → Resolves n w req s (none, s.evict v)
  /-- No session and no sequence to be had. -/
  | barren : req.session_id ≠ "" → s.sessions.peek req.session_id = none →
      (∀ id, ¬ s.seq_alloc.Offers n id) → s.sessions.map = [] → Resolves n w req s (none, s)

section Resolve
variable {n : Nat} {s : Server L}

/-- With a free sequence there is room: inserting evicts nobody. -/
theorem insert_session_eq (h : Owned n s) (w : World) (req : Request) {seq : Nat}
    (ho : s.seq_alloc.Offers n seq) (hnew : s.sessions.peek req.session_id = none) :
    insert_session w req.session_id seq
        { s with seq_alloc := { s.seq_alloc with in_use := s.seq_alloc.in_use.set seq true, next := (seq + 1) % n } } =
      (some (newSession w req seq), s.enter (newSession w req seq)) := by
  have hfree : ¬ s.holds seq := by
    rw [← h.used, ho.2.2.1]
    simp
  have hroom := h.length_lt ho.1 ho.2.1 hfree
  have hmap : (s.sessions.assign (newSession w req seq)).map = s.sessions.map ++ [newSession w req seq] :=
    SessionTable.assign_new hnew
  have hin : newSession w req seq ∈ (s.sessions.assign (newSession w req seq)).map := by simp [hmap]
  have hpeek : (s.sessions.assign (newSession w req seq)).peek req.session_id = some (newSession w req seq) :=
    (find_eq_some Session.id (s.sessions.assign (newSession w req seq)).nodup).2 ⟨hin, rfl⟩
  have hcap : ¬ (s.sessions.map.length ≥ s.sessions.max ∧ s.sessions.peek req.session_id = none) := by
    rw [h.cap]
    omega
  have hrec : (⟨req.session_id, seq, [], w.now⟩ : Session) = newSession w req seq := rfl
  simp only [insert_session, SessionTable.insert, if_neg hcap, hrec, SessionTable.find, hpeek]
  have htouch : (newSession w req seq).touch w.now = newSession w req seq := rfl
  rw [htouch, SessionTable.set_self hin]
  simp only [Server.enter, h.alloc.max_eq, newSession]

theorem resolve_session_spec (h : Owned n s) (w : World) (req : Request) (prompt : List LlamaToken) :
    Resolves n w req s (resolve_session w req prompt s) := by
  unfold resolve_session
  split
  · rename_i hid
    unfold SessionTable.find
    cases hp : s.sessions.peek req.session_id with
    | some x =>
      obtain ⟨hx, hxid⟩ := SessionTable.peek_some hp
      exact .found hx fun _ => hxid
    | none =>
      dsimp only
      unfold allocate_seq
      rcases SeqAllocator.take_cases h.alloc with ⟨id, ho, htake⟩ | ⟨hno, htake⟩
      · rw [htake]
        dsimp only
        rw [insert_session_eq h w req ho hp]
        exact .fresh hid hp ho
      · -- the pool gives nothing: somebody has to leave, and it is asked again
        rw [htake]
        dsimp only
        unfold SessionTable.evict_lru
        cases hl : s.sessions.lru w.iter with
        | none => exact .barren hid hp hno (SessionTable.lru_none.1 hl)
        | some v =>
          have hv := (SessionTable.lru_mem hl).1
          have he := h.evict hv
          have hpe : (s.evict v).sessions.peek req.session_id = none := SessionTable.peek_erase hp
          dsimp only
          rcases SeqAllocator.take_cases he.alloc with ⟨id, ho, htake⟩ | ⟨hno', htake⟩
          · rw [← Server.evict_seq_alloc, htake]
            dsimp only
            have := insert_session_eq he w req ho hpe
            simp only [Server.evict] at this
            exact this ▸ .recycled hid hp hno hl ho
          · rw [← Server.evict_seq_alloc, htake]
            exact .lost hid hp hno hl hno'
  · rename_i hid
    simp only [ne_eq, not_not] at hid
    split
    · unfold SessionTable.find_by_prefix
      cases hb : (w.iter.order s.sessions.map).foldl (SessionTable.better prompt) none with
      | none => exact .stateless hid
      | some x =>
        rcases SessionTable.better_mem prompt _ none hb with hno | hx
        · cases hno
        · exact .found ((w.iter.perm _).subset hx) fun hne => absurd hid hne
    · exact .stateless hid

/-- Resolving keeps ownership and gives out a session of the table. -/
theorem Resolves.owned {w : World} {req : Request} {r : Option Session × Server L} (hr : Resolves n w req s r)
    (h : Owned n s) : Owned n r.2 ∧ ∀ x, r.1 = some x → x ∈ r.2.sessions.map := by
  have hassign : ∀ {s : Server L} {x : Session}, s.sessions.peek x.id = none → x ∈ (s.enter x).sessions.map := by
    intro s x hnew
    rw [Server.enter_sessions hnew]
    simp
  cases hr with
  | stateless _ => exact ⟨h, fun x hx => by cases hx⟩
  | @found x hx _ =>
    refine ⟨h.set hx rfl rfl, ?_⟩
    rintro _ ⟨⟩
    exact SessionTable.mem_set.2 (.inl ⟨rfl, List.mem_map.2 ⟨x, hx, rfl⟩⟩)
  | fresh _ hnew ho =>
    refine ⟨h.enter ho hnew, ?_⟩
    rintro _ ⟨⟩
    exact hassign hnew
  | @recycled v id _ hnew _ hl ho =>
    have hpe : (s.evict v).sessions.peek req.session_id = none := SessionTable.peek_erase hnew
    refine ⟨(h.evict (SessionTable.lru_mem hl).1).enter ho hpe, ?_⟩
    rintro _ ⟨⟩
    exact hassign hpe
  | lost _ _ _ hl _ => exact ⟨h.evict (SessionTable.lru_mem hl).1, fun x hx => by cases hx⟩
  | barren => exact ⟨h, fun x hx => by cases hx⟩

end Resolve

/-! ## The rest of a request -/

section Open
variable {n : Nat} {s : Server L}

/-- An opened request works on its own session's sequence, or on sequence 0. -/
theorem open_session_owned (h : Owned n s) (w : World) (req : Request) (prompt : List LlamaToken) :
    let o := open_session w req prompt s
    Owned n o.server ∧
      ((o.sess = none ∧ o.seq = 0) ∨
        ∃ x ∈ o.server.sessions.map, o.sess = some x ∧ o.seq = x.seq_id) := by
  obtain ⟨hown, hmem⟩ := (resolve_session_spec h w req prompt).owned h
  unfold open_session
  cases hr : resolve_session w req prompt s with
  | mk sess t =>
    rw [hr] at hown hmem
    cases sess with
    | none =>
      exact ⟨hown.ctx (.inl rfl) fun id hid => seq_rm_other _ _ _ hid, .inl ⟨rfl, rfl⟩⟩
    | some x =>
      have hx := hmem x rfl
      dsimp only at hown hx ⊢
      split
      · have hset : Owned n { t with
            sessions := t.sessions.set { x with tokens := x.tokens.take (common_len x.tokens prompt) } } :=
          hown.set hx rfl rfl
        have hin : { x with tokens := x.tokens.take (common_len x.tokens prompt) } ∈
            (t.sessions.set { x with tokens := x.tokens.take (common_len x.tokens prompt) }).map :=
          SessionTable.mem_set.2 (.inl ⟨rfl, List.mem_map.2 ⟨x, hx, rfl⟩⟩)
        exact ⟨hset.ctx (.inr ⟨_, hin, rfl⟩) fun id hid => seq_rm_other _ _ _ hid, .inr ⟨_, hin, rfl, rfl⟩⟩
      · exact ⟨hown, .inr ⟨x, hx, rfl, rfl⟩⟩

/-- What a call leaves: the opened server with other contents on the request's
sequence and, if it got that far, other tokens in its session. -/
theorem run_prompt_server {σ : Type} (M : LlamaModel L) (w : World) (req : Request) (hooks : StreamHooks σ)
    (captured : σ) (prompt : List LlamaToken) (max_tokens : Int) (o : Opened L) :
    ∃ ctx tokens, (∀ id, id ≠ o.seq → ctx.kv id = o.server.ctx.kv id) ∧
      ((run_prompt M w req hooks captured prompt max_tokens o).server = { o.server with ctx } ∨
        (run_prompt M w req hooks captured prompt max_tokens o).server = persist o.sess tokens { o.server with ctx }) := by
  have hpre := fun id (hid : id ≠ o.seq) =>
    prefill_loop_other M w.prefill_ok prompt o.n_past o.seq (n_feed prompt o.n_past) 0 0 o.server.ctx hid
  unfold run_prompt prefill
  cases hp : prefill_loop M w.prefill_ok prompt o.n_past o.seq (n_feed prompt o.n_past) 0 0 o.server.ctx with
  | mk ok ctx =>
    rw [hp] at hpre
    dsimp only at hpre ⊢
    split
    · unfold generate_and_persist
      dsimp only
      split
      · exact ⟨ctx, [], hpre, .inl rfl⟩
      · split
        · rename_i g hg
          exact ⟨g.ctx, [], fun id hid => (generate_other hg hid).trans (hpre id hid), .inl rfl⟩
        · rename_i g hg
          exact ⟨g.ctx, prompt ++ g.generated, fun id hid => (generate_other hg hid).trans (hpre id hid), .inr rfl⟩
    · exact ⟨ctx, [], hpre, .inl rfl⟩

theorem drop_cache_owned {o : Opened L} (h : Owned n o.server)
    (hsess : (o.sess = none ∧ o.seq = 0) ∨ ∃ x ∈ o.server.sessions.map, o.sess = some x ∧ o.seq = x.seq_id) :
    Owned n (drop_cache o) := by
  rcases hsess with ⟨hn, _⟩ | ⟨x, hx, hs, hseq⟩
  · rw [drop_cache_none hn]
    exact h
  · rw [drop_cache_some hs, hseq]
    have hset : Owned n { o.server with sessions := o.server.sessions.set { x with tokens := [] } } :=
      h.set hx rfl rfl
    have hin : { x with tokens := [] } ∈ (o.server.sessions.set { x with tokens := [] }).map :=
      SessionTable.mem_set.2 (.inl ⟨rfl, List.mem_map.2 ⟨x, hx, rfl⟩⟩)
    exact hset.ctx (.inr ⟨_, hin, rfl⟩) fun id hid => seq_rm_other _ _ _ hid

/-- Serving a request keeps ownership, however the call ends. -/
theorem Owned.step (M : LlamaModel L) (h : Owned n s) (c : Call) : Owned n (c.run M s).server := by
  unfold Call.run
  by_cases hp : M.tokenizer c.req.prompt = []
  · rw [complete_stream_no_prompt M s c.world c.req c.hooks c.captured hp]
    exact h
  obtain ⟨hown, hsess⟩ := open_session_owned h c.world c.req (M.tokenizer c.req.prompt)
  cases hg : context_guard M (M.tokenizer c.req.prompt).length c.req.max_tokens with
  | none =>
    rw [complete_stream_exhausted M s c.world c.req c.hooks c.captured hp hg]
    exact drop_cache_owned hown hsess
  | some max_tokens =>
    rw [complete_stream_run M s c.world c.req c.hooks c.captured hp hg]
    generalize open_session c.world c.req (M.tokenizer c.req.prompt) s = o at hown hsess
    obtain ⟨ctx, tokens, hkv, hserver⟩ :=
      run_prompt_server M c.world c.req c.hooks c.captured (M.tokenizer c.req.prompt) max_tokens o
    have hseq : o.seq = 0 ∨ o.server.holds o.seq := by
      rcases hsess with ⟨_, h0⟩ | ⟨x, hx, _, hseq⟩
      · exact .inl h0
      · exact .inr ⟨x, hx, hseq.symm⟩
    have hctx := hown.ctx hseq hkv
    rcases hserver with hserver | hserver
    · rw [hserver]
      exact hctx
    · rw [hserver]
      rcases hsess with ⟨hn, _⟩ | ⟨x, hx, hs, _⟩
      · rw [hn]
        exact hctx
      · rw [hs]
        exact hctx.set hx rfl rfl

end Open

/-- The ownership invariant holds in every state the server reaches. -/
theorem reachable_owned {M : LlamaModel L} {s : Server L} (h : Reaches (Step M) (Loaded M) s) :
    Owned M.n_seq_max s := by
  refine h.inv ?_ ?_
  · intro s hs
    rw [hs]
    exact load_model_owned M
  · intro s c t hs ht
    rw [ht]
    exact hs.step M c

/-- Whatever requests were served: distinct sessions hold distinct sequences
among `1 .. n_seq_max - 1`, the ids in use are the ids held, the table is
within its capacity and a sequence nobody holds is empty. -/
theorem sequences_owned {M : LlamaModel L} {s : Server L} (h : Reaches (Step M) (Loaded M) s) :
    (∀ x ∈ s.sessions.map, ∀ y ∈ s.sessions.map, x ≠ y → x.seq_id ≠ y.seq_id) ∧
    (∀ x ∈ s.sessions.map, 1 ≤ x.seq_id ∧ x.seq_id ≤ M.n_seq_max - 1) ∧
    (∀ id, s.seq_alloc.used id = true ↔ ∃ x ∈ s.sessions.map, x.seq_id = id) ∧
    (s.sessions.max = M.n_seq_max - 1 ∧ s.sessions.map.length ≤ M.n_seq_max - 1) ∧
    (∀ id, 1 ≤ id → id ≤ M.n_seq_max - 1 → (∀ x ∈ s.sessions.map, x.seq_id ≠ id) → s.ctx.kv id = []) := by
  have hown := reachable_owned h
  refine ⟨?_, ?_, hown.used, ⟨hown.cap, hown.length_le⟩, ?_⟩
  · intro x hx y hy hne he
    exact hne (hown.distinct x hx y hy he)
  · intro x hx
    obtain ⟨h1, hn⟩ := hown.range x hx
    exact ⟨h1, by omega⟩
  · intro id h1 hn hfree
    apply hown.clean id h1 (by have := M.two_le_n_seq_max; omega)
    rintro ⟨x, hx, hid⟩
    exact hfree x hx hid

theorem sequences_owned_two :
    let s := ((plainCall 1 "b" [8] 1).run toyModel ((plainCall 0 "a" [7] 1).run toyModel (load_model toyModel)).server).server
    s.sessions.map.map (·.seq_id) = [1, 2] ∧ s.sessions.map.length ≤ toyModel.n_seq_max - 1 := by
  have hr : Reaches (Step toyModel) (Loaded toyModel)
      ((plainCall 1 "b" [8] 1).run toyModel
        ((plainCall 0 "a" [7] 1).run toyModel (load_model toyModel)).server).server :=
    .step (.step (.init rfl) rfl) rfl
  exact ⟨by decide, (sequences_owned hr).2.2.2.1.2⟩

end Hostely.Inference
