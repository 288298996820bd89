import Hostely.Inference.Ownership
/-!
# Admitting a new session

A request with an unknown session id should always get a session, and cost at
most the least recently used one. The allocator's sweep never looks at the
slot just before its cursor, which is the id it handed out last: when that is
the only free id, the sweep comes back empty.
-/

open Hostely.Lib

namespace Hostely.Inference

variable {L : Type}

/-! ## Who sits where -/

/-- The session ids of a table with the sequences they hold. -/
def seats (t : SessionTable) : List (String × Nat) := t.map.map fun x => (x.id, x.seq_id)

theorem peek_seats {t : SessionTable} {id : String} : t.peek id = none ↔ ∀ seq, (id, seq) ∉ seats t := by
  rw [SessionTable.peek_none]
  simp only [seats, List.mem_map, Prod.mk.injEq, not_exists, not_and]
  constructor
  · intro h seq x hx hid _
    exact h x hx hid
  · intro h x hx hid
    exact h x.seq_id x hx hid rfl

theorem set_seats {t : SessionTable} {x y : Session} (hx : x ∈ t.map) (hid : y.id = x.id)
    (hseq : y.seq_id = x.seq_id) : seats (t.set y) = seats t := by
  apply map_replaceKey Session.id _ y t.map
  intro z hz hk
  obtain rfl := key_unique Session.id t.nodup hz hx (hk.trans hid)
  rw [hid, hseq]

theorem enter_seats {s : Server L} {x : Session} (h : s.sessions.peek x.id = none) :
    seats (s.enter x).sessions = seats s.sessions ++ [(x.id, x.seq_id)] := by
  rw [seats, Server.enter_sessions h, List.map_append]
  rfl

section Call
variable {n : Nat} {s : Server L}

theorem open_session_seats (h : Owned n s) (w : World) (req : Request) (prompt : List LlamaToken) :
    seats (open_session w req prompt s).server.sessions = seats (resolve_session w req prompt s).2.sessions := by
  have hmem := ((resolve_session_spec h w req prompt).owned h).2
  unfold open_session
  cases hr : resolve_session w req prompt s with
  | mk sess t =>
    rw [hr] at hmem
    cases sess with
    | none => rfl
    | some x =>
      dsimp only
      split
      · exact set_seats (hmem x rfl) rfl rfl
      · rfl

/-- After the session is resolved, a call moves nobody. -/
theorem call_seats (M : LlamaModel L) (h : Owned n s) (c : Call) (hp : M.tokenizer c.req.prompt ≠ []) :
    seats (c.run M s).server.sessions =
      seats (resolve_session c.world c.req (M.tokenizer c.req.prompt) s).2.sessions := by
  rw [← open_session_seats h]
  obtain ⟨_, hsess⟩ := open_session_owned h c.world c.req (M.tokenizer c.req.prompt)
  unfold Call.run
  cases hg : context_guard M (M.tokenizer c.req.prompt).length c.req.max_tokens with
  | none =>
    rw [complete_stream_exhausted M s c.world c.req c.hooks c.captured hp hg]
    rcases hsess with ⟨hn, _⟩ | ⟨x, hx, hs, _⟩
    · rw [drop_cache_none hn]
    · rw [drop_cache_some hs]
      exact set_seats hx rfl rfl
  | some max_tokens =>
    rw [complete_stream_run M s c.world c.req c.hooks c.captured hp hg]
    generalize open_session c.world c.req (M.tokenizer c.req.prompt) s = o at hsess
    obtain ⟨ctx, tokens, _, hserver⟩ :=
      run_prompt_server M c.world c.req c.hooks c.captured (M.tokenizer c.req.prompt) max_tokens o
    rcases hserver with hserver | hserver
    · rw [hserver]
    · rw [hserver]
      rcases hsess with ⟨hn, _⟩ | ⟨x, hx, hs, _⟩
      · rw [hn]
        rfl
      · rw [hs]
        exact set_seats hx rfl rfl

end Call

/-! ## Admission -/

/-- From `s` to `t` the session `id` was admitted: it has a place, nobody left
while there was room, and only the least recently used session left, passing on
its sequence, when there was none. -/
structure Admits (n : Nat) (s t : Server L) (id : String) : Prop where
  given : t.sessions.peek id ≠ none
  room : s.sessions.map.length < n - 1 → ∀ x ∈ s.sessions.map, t.sessions.peek x.id ≠ none
  full : s.sessions.map.length = n - 1 →
    ∃ v ∈ s.sessions.map, (∀ x ∈ s.sessions.map, v.last_used ≤ x.last_used) ∧
      (∀ x ∈ s.sessions.map, t.sessions.peek x.id = none ↔ x = v) ∧ (id, v.seq_id) ∈ seats t.sessions

/-- The sweep finds what it needs: a free id other than the one handed out
last, or, when the table is full, a victim that does not hold that one. -/
def SweepFinds (n : Nat) (s : Server L) (w : World) : Prop :=
  (∃ id, s.seq_alloc.Offers n id) ∨
  (s.sessions.map.length = n - 1 ∧ ∀ v, s.sessions.lru w.iter = some v → v.seq_id ≠ s.seq_alloc.skipped)

section Admits
variable {n : Nat} {s : Server L} {w : World} {req : Request}

/-- Entering at a free id takes nobody's place. -/
theorem admits_fresh (h : Owned n s) {t : Server L} {id : Nat} (hnew : s.sessions.peek req.session_id = none)
    (ho : s.seq_alloc.Offers n id) (ht : seats t.sessions = seats (s.enter (newSession w req id)).sessions) :
    Admits n s t req.session_id := by
  have hseats : seats t.sessions = seats s.sessions ++ [(req.session_id, id)] := by
    rw [ht]
    exact enter_seats hnew
  have hfree : ¬ s.holds id := by
    rw [← h.used, ho.2.2.1]
    simp
  have hroom := h.length_lt ho.1 ho.2.1 hfree
  refine ⟨?_, ?_, ?_⟩
  · rw [ne_eq, peek_seats]
    intro hno
    exact hno id (by simp [hseats])
  · intro _ x hx
    rw [ne_eq, peek_seats]
    intro hno
    exact hno x.seq_id (by rw [hseats]; exact List.mem_append_left _ (List.mem_map.2 ⟨x, hx, rfl⟩))
  · intro hfull
    omega

/-- After evicting `v` the only new offer is the id of `v`. -/
theorem offers_evicted (h : Owned n s) {v : Session} {id : Nat} (hv : v ∈ s.sessions.map)
    (hno : ∀ id, ¬ s.seq_alloc.Offers n id) (ho : (s.evict v).seq_alloc.Offers n id) :
    id = v.seq_id ∧ v.seq_id ≠ s.seq_alloc.skipped := by
  obtain ⟨h1, hn, hu, hskip⟩ := ho
  obtain ⟨hv1, hvn⟩ := h.range v hv
  rw [Server.evict_seq_alloc] at hu hskip
  rw [SeqAllocator.give_back_skipped] at hskip
  rw [SeqAllocator.give_back_used h.alloc hv1 hvn] at hu
  by_cases he : id = v.seq_id
  · rw [← he]
    exact ⟨rfl, hskip⟩
  · rw [if_neg he] at hu
    exact absurd ⟨h1, hn, hu, hskip⟩ (hno id)

/-- Entering on the sequence of the evicted `v` admits exactly when the table was full. -/
theorem admits_recycled_iff (h : Owned n s) {t : Server L} {v : Session}
    (hnew : s.sessions.peek req.session_id = none) (hl : s.sessions.lru w.iter = some v)
    (ht : seats t.sessions = seats ((s.evict v).enter (newSession w req v.seq_id)).sessions) :
    Admits n s t req.session_id ↔ s.sessions.map.length = n - 1 := by
  obtain ⟨hv, hold⟩ := SessionTable.lru_mem hl
  have hseats : seats t.sessions = seats (s.evict v).sessions ++ [(req.session_id, v.seq_id)] := by
    rw [ht]
    exact enter_seats (SessionTable.peek_erase hnew)
  have hnotreq : ∀ x ∈ s.sessions.map, x.id ≠ req.session_id := by
    intro x hx he
    rw [SessionTable.peek_none] at hnew
    exact hnew (List.mem_map.2 ⟨x, hx, he⟩)
  have hgone : ∀ x ∈ s.sessions.map, t.sessions.peek x.id = none ↔ x = v := by
    intro x hx
    rw [peek_seats, hseats]
    constructor
    · intro hno
      by_contra hne
      have hne' : x.id ≠ v.id := fun he => hne (key_unique Session.id s.sessions.nodup hx hv he)
      exact hno x.seq_id (List.mem_append_left _ (List.mem_map.2 ⟨x, SessionTable.mem_erase.2 ⟨hx, hne'⟩, rfl⟩))
    · rintro rfl seq hmem
      rw [List.mem_append, List.mem_singleton, Prod.mk.injEq] at hmem
      rcases hmem with hmem | ⟨he, _⟩
      · obtain ⟨y, hy, hyid⟩ := List.mem_map.1 hmem
        exact (SessionTable.mem_erase.1 hy).2 (Prod.mk.inj hyid).1
      · exact hnotreq x hx he
  constructor
  · intro hadm
    have hle := h.length_le
    by_contra hne
    exact hadm.room (by omega) v hv ((hgone v hv).2 rfl)
  · intro hfull
    refine ⟨?_, fun hlt => absurd hfull (by omega), fun _ => ⟨v, hv, hold, hgone, ?_⟩⟩
    · rw [ne_eq, peek_seats]
      intro hno
      exact hno v.seq_id (by simp [hseats])
    · rw [hseats]
      exact List.mem_append_right _ (by simp)

theorem not_admits_of_absent {t : Server L} (ht : t.sessions.peek req.session_id = none) :
    ¬ Admits n s t req.session_id := fun h => h.given ht

end Admits

/-- A new session is admitted exactly when the sweep finds what it needs. -/
theorem session_admitted_iff {M : LlamaModel L} {s : Server L} (h : Reaches (Step M) (Loaded M) s) (c : Call)
    (hid : c.req.session_id ≠ "") (hnew : s.sessions.peek c.req.session_id = none)
    (hp : M.tokenizer c.req.prompt ≠ []) :
    Admits M.n_seq_max s (c.run M s).server c.req.session_id ↔ SweepFinds M.n_seq_max s c.world := by
  have hown := reachable_owned h
  have hseats := call_seats M hown c hp
  have hspec := resolve_session_spec hown c.world c.req (M.tokenizer c.req.prompt)
  generalize resolve_session c.world c.req (M.tokenizer c.req.prompt) s = r at hseats hspec
  have h2 := M.two_le_n_seq_max
  cases hspec with
  | stateless he => exact absurd he hid
  | found hx hxid =>
    rw [SessionTable.peek_none] at hnew
    exact absurd (List.mem_map.2 ⟨_, hx, hxid hid⟩) hnew
  | fresh _ _ ho => exact iff_of_true (admits_fresh hown hnew ho hseats) (.inl ⟨_, ho⟩)
  | @recycled v id _ _ hno hl ho =>
    obtain ⟨rfl, hskip⟩ := offers_evicted hown (SessionTable.lru_mem hl).1 hno ho
    rw [admits_recycled_iff hown hnew hl hseats]
    constructor
    · intro hfull
      refine .inr ⟨hfull, fun v' hv' => ?_⟩
      rw [hl] at hv'
      obtain rfl := Option.some.inj hv'
      exact hskip
    · rintro (⟨id, ho'⟩ | ⟨hfull, _⟩)
      · exact absurd ho' (hno id)
      · exact hfull
  | @lost v _ _ hno hl hno' =>
    have hv := (SessionTable.lru_mem hl).1
    refine iff_of_false (not_admits_of_absent ?_) ?_
    · rw [peek_seats, hseats, ← peek_seats]
      exact SessionTable.peek_erase hnew
    · rintro (⟨id, ho⟩ | ⟨_, hskip⟩)
      · exact hno id ho
      · obtain ⟨hv1, hvn⟩ := hown.range v hv
        refine hno' v.seq_id ⟨hv1, hvn, ?_, ?_⟩
        · rw [Server.evict_seq_alloc, SeqAllocator.give_back_used hown.alloc hv1 hvn, if_pos rfl]
        · rw [Server.evict_seq_alloc, SeqAllocator.give_back_skipped]
          exact hskip v hl
  | barren _ _ hno hempty =>
    refine iff_of_false (not_admits_of_absent ?_) ?_
    · rw [peek_seats, hseats, ← peek_seats]
      exact hnew
    · rintro (⟨id, ho⟩ | ⟨hfull, _⟩)
      · exact hno id ho
      · rw [hempty] at hfull
        simp only [List.length_nil] at hfull
        omega

theorem session_admitted_iff_third :
    let s := ((plainCall 1 "b" [8] 1).run toyModel ((plainCall 0 "a" [7] 1).run toyModel (load_model toyModel)).server).server
    Admits toyModel.n_seq_max s ((plainCall 2 "c" [9] 1).run toyModel s).server "c" ↔
      SweepFinds toyModel.n_seq_max s (World.calm 2) :=
  session_admitted_iff (.step (.step (.init rfl) rfl) rfl) (plainCall 2 "c" [9] 1) (by decide) (by decide) (by decide)

/-- Two sessions fill the table and the first is used again: the least recently
used one then holds the id handed out last, and the third request loses it. -/
theorem third_session_lost :
    ¬ ∀ s, Reaches (Step toyModel) (Loaded toyModel) s → ∀ c : Call, c.req.session_id ≠ "" →
      s.sessions.peek c.req.session_id = none → toyModel.tokenizer c.req.prompt ≠ [] →
      Admits toyModel.n_seq_max s (c.run toyModel s).server c.req.session_id := by
  intro h
  have hr : Reaches (Step toyModel) (Loaded toyModel)
      ((plainCall 2 "a" [7] 1).run toyModel ((plainCall 1 "b" [8] 1).run toyModel
        ((plainCall 0 "a" [7] 1).run toyModel (load_model toyModel)).server).server).server :=
    .step (.step (.step (.init rfl) rfl) rfl) rfl
  have hadm := h _ hr (plainCall 3 "c" [9] 1) (by decide) (by decide) (by decide)
  exact hadm.given (by decide)

end Hostely.Inference
