import Hostely.Inference.Ownership
/-!
# What a session says its sequence holds

`Session::tokens` is meant to be the exact token history in the KV cache.
Resolving a session and trimming it keep that. After that the cache grows
before the session is told, so a call that ends early in between leaves the
two apart; `Parts` says when.
-/

open Hostely.Lib

namespace Hostely.Inference

variable {L : Type}

/-- Every session's `tokens` are what its sequence holds, at positions 0, 1, 2, ... -/
def Mirrors (s : Server L) : Prop := ∀ x ∈ s.sessions.map, s.ctx.kv x.seq_id = mirror x.tokens

theorem load_model_mirrors (M : LlamaModel L) : Mirrors (load_model M) := by
  intro x hx
  cases hx

section Mirrors
variable {n : Nat} {s : Server L}

/-- Rewriting a session together with its own sequence. -/
theorem Mirrors.update (h : Owned n s) (hm : Mirrors s) {x y : Session} (ctx : LlamaContext L)
    (hx : x ∈ s.sessions.map) (hid : y.id = x.id) (hseq : y.seq_id = x.seq_id)
    (hkv : ctx.kv x.seq_id = mirror y.tokens) (hother : ∀ id, id ≠ x.seq_id → ctx.kv id = s.ctx.kv id) :
    Mirrors { s with ctx, sessions := s.sessions.set y } := by
  intro z hz
  rcases SessionTable.mem_set.1 hz with ⟨rfl, _⟩ | ⟨hz₀, hne⟩
  · rw [hseq]
    exact hkv
  · have hzseq : z.seq_id ≠ x.seq_id := by
      intro he
      rw [hid] at hne
      exact hne (congrArg Session.id (h.distinct z hz₀ x hx he))
    exact (hother _ hzseq).trans (hm z hz₀)

/-- Decoding on the sequence of `x` keeps the mirror exactly when what it
leaves there is what `x` says. -/
theorem mirrors_ctx_iff (h : Owned n s) (hm : Mirrors s) {x : Session} (hx : x ∈ s.sessions.map)
    {ctx : LlamaContext L} (hother : ∀ id, id ≠ x.seq_id → ctx.kv id = s.ctx.kv id) :
    Mirrors { s with ctx } ↔ ctx.kv x.seq_id = mirror x.tokens := by
  constructor
  · intro hc
    exact hc x hx
  · intro hkv z hz
    by_cases he : z.seq_id = x.seq_id
    · obtain rfl := h.distinct z hz x hx he
      exact hkv
    · exact (hother _ he).trans (hm z hz)

/-- Decoding on sequence 0 is nobody's business. -/
theorem Mirrors.ctx_zero (h : Owned n s) (hm : Mirrors s) {ctx : LlamaContext L}
    (hother : ∀ id, id ≠ 0 → ctx.kv id = s.ctx.kv id) : Mirrors { s with ctx } := by
  intro z hz
  have := (h.range z hz).1
  exact (hother _ (by omega)).trans (hm z hz)

theorem Mirrors.evict (h : Owned n s) (hm : Mirrors s) {v : Session} (hv : v ∈ s.sessions.map) :
    Mirrors (s.evict v) := by
  intro z hz
  obtain ⟨hz₀, hne⟩ := SessionTable.mem_erase.1 hz
  have hseq : z.seq_id ≠ v.seq_id := fun he => hne (congrArg Session.id (h.distinct z hz₀ v hv he))
  exact (seq_rm_other _ _ _ hseq).trans (hm z hz₀)

/-- A new session starts on an empty sequence. -/
theorem Mirrors.enter (h : Owned n s) (hm : Mirrors s) {w : World} {req : Request} {seq : Nat}
    (ho : s.seq_alloc.Offers n seq) (hnew : s.sessions.peek req.session_id = none) :
    Mirrors (s.enter (newSession w req seq)) := by
  have hmap : (s.enter (newSession w req seq)).sessions.map = s.sessions.map ++ [newSession w req seq] :=
    SessionTable.assign_new hnew
  intro z hz
  rw [hmap, List.mem_append, List.mem_singleton] at hz
  rcases hz with hz | rfl
  · exact hm z hz
  · apply h.clean seq ho.1 ho.2.1
    rw [← h.used, ho.2.2.1]
    simp

theorem Resolves.mirrors {w : World} {req : Request} {r : Option Session × Server L} (hr : Resolves n w req s r)
    (h : Owned n s) (hm : Mirrors s) : Mirrors r.2 := by
  cases hr with
  | stateless _ => exact hm
  | found hx _ => exact hm.update h s.ctx hx rfl rfl (hm _ hx) fun _ _ => rfl
  | fresh _ hnew ho => exact hm.enter h ho hnew
  | recycled _ hnew _ hl ho =>
    have hv := (SessionTable.lru_mem hl).1
    exact (hm.evict h hv).enter (h.evict hv) ho (SessionTable.peek_erase hnew)
  | lost _ _ _ hl _ => exact hm.evict h (SessionTable.lru_mem hl).1
  | barren => exact hm

/-- An opened request on a mirrored server: its sequence holds the first
`n_past` tokens of the prompt, and its session says so. -/
structure Opens (n : Nat) (prompt : List LlamaToken) (o : Opened L) : Prop where
  owned : Owned n o.server
  mirrors : Mirrors o.server
  le : o.n_past ≤ prompt.length
  kv : o.server.ctx.kv o.seq = mirror (prompt.take o.n_past)
  sess : (o.sess = none ∧ o.seq = 0) ∨
    ∃ x ∈ o.server.sessions.map, o.sess = some x ∧ o.seq = x.seq_id ∧ x.tokens = prompt.take o.n_past

theorem open_session_opens (h : Owned n s) (hm : Mirrors s) (w : World) (req : Request) (prompt : List LlamaToken) :
    Opens n prompt (open_session w req prompt s) := by
  have hspec := resolve_session_spec h w req prompt
  obtain ⟨hown, hmem⟩ := hspec.owned h
  have hmir := hspec.mirrors h hm
  obtain ⟨hopen, hsess⟩ := open_session_owned h w req prompt
  unfold open_session at hopen hsess ⊢
  cases hr : resolve_session w req prompt s with
  | mk sess t =>
    rw [hr] at hown hmem hmir hopen hsess
    cases sess with
    | none =>
      refine ⟨hopen, hmir.ctx_zero hown fun id hid => seq_rm_other _ _ _ hid, Nat.zero_le _, ?_, .inl ⟨rfl, rfl⟩⟩
      rw [List.take_zero]
      exact seq_rm_all _ _
    | some x =>
      have hx := hmem x rfl
      have htake := take_common_len x.tokens prompt
      dsimp only at hown hmir hx hopen hsess ⊢
      split
      · rename_i hlt
        rw [if_pos hlt] at hopen
        have hkv := seq_rm_mirror t.ctx (common_len x.tokens prompt) (hmir x hx)
        refine ⟨hopen, ?_, common_len_le_right _ _, ?_, .inr ⟨_, ?_, rfl, rfl, htake⟩⟩
        · exact hmir.update hown _ hx rfl rfl hkv fun id hid => seq_rm_other _ _ _ hid
        · rw [← htake]
          exact hkv
        · exact SessionTable.mem_set.2 (.inl ⟨rfl, List.mem_map.2 ⟨x, hx, rfl⟩⟩)
      · rename_i hge
        have hlen : common_len x.tokens prompt = x.tokens.length := by
          have := common_len_le_left x.tokens prompt
          omega
        rw [hlen, List.take_length] at htake
        have hle := common_len_le_right x.tokens prompt
        rw [hlen] at hle
        exact ⟨hown, hmir, hle, (hmir x hx).trans (congrArg mirror htake), .inr ⟨x, hx, rfl, rfl, htake⟩⟩

end Mirrors

/-! ## Which calls keep it -/

/-- No call of `on_token` throws. -/
def TokensReturn {σ : Type} (hooks : StreamHooks σ) : Prop :=
  ∀ f, hooks.on_token = some f → ∀ piece x, ∃ y, f piece x = .ok y

section Keeps
variable (M : LlamaModel L) (s : Server L) (c : Call)

/-- The request as it stands when the prefill begins. -/
def Call.opened : Opened L := open_session c.world c.req (M.tokenizer c.req.prompt) s

/-- Every chunk of the prefill is decoded. -/
def Call.Prefills : Prop :=
  ∀ k, k * n_chunk M (M.tokenizer c.req.prompt) (c.opened M s).n_past <
    n_feed (M.tokenizer c.req.prompt) (c.opened M s).n_past → c.world.prefill_ok k = true

/-- A call that tells its session all it fed: it feeds nothing for a session,
or it fails at the first chunk, or nothing fails and no hook throws once
something was fed. -/
def KeepsMirror : Prop :=
  M.tokenizer c.req.prompt = [] ∨ (c.opened M s).sess = none ∨
  context_guard M (M.tokenizer c.req.prompt).length c.req.max_tokens = none ∨
  ((c.opened M s).n_past < (M.tokenizer c.req.prompt).length ∧ c.world.prefill_ok 0 = false) ∨
  (c.Prefills M s ∧
    ((∃ x, call_on_prefill c.hooks (M.tokenizer c.req.prompt).length c.captured = .error x ∧
        (c.opened M s).n_past = (M.tokenizer c.req.prompt).length) ∨
      (∃ x, call_on_prefill c.hooks (M.tokenizer c.req.prompt).length c.captured = .ok x ∧ TokensReturn c.hooks)))

/-- A call that feeds its session's sequence and ends before it says so: a
chunk after the first fails, or a hook throws after something was fed. -/
def Parts : Prop :=
  M.tokenizer c.req.prompt ≠ [] ∧ (c.opened M s).sess ≠ none ∧
  context_guard M (M.tokenizer c.req.prompt).length c.req.max_tokens ≠ none ∧
  ((∃ k, 0 < k ∧ c.world.prefill_ok k = false ∧ (∀ j < k, c.world.prefill_ok j = true) ∧
      k * n_chunk M (M.tokenizer c.req.prompt) (c.opened M s).n_past <
        n_feed (M.tokenizer c.req.prompt) (c.opened M s).n_past) ∨
    (c.Prefills M s ∧ (c.run M s).exit = .hook_threw ∧
      ((c.opened M s).n_past < (M.tokenizer c.req.prompt).length ∨ (c.run M s).generated ≠ [])))

variable {M s c} {n : Nat}

theorem Call.opened_opens (h : Owned n s) (hm : Mirrors s) : Opens n (M.tokenizer c.req.prompt) (c.opened M s) :=
  open_session_opens h hm c.world c.req (M.tokenizer c.req.prompt)

/-- Past the context guard a call is the prefill and what follows it. -/
theorem Call.run_opened {max_tokens : Int} (hp : M.tokenizer c.req.prompt ≠ [])
    (hg : context_guard M (M.tokenizer c.req.prompt).length c.req.max_tokens = some max_tokens) :
    c.run M s = run_prompt M c.world c.req c.hooks c.captured (M.tokenizer c.req.prompt) max_tokens (c.opened M s) :=
  complete_stream_run M s c.world c.req c.hooks c.captured hp hg

/-- Feeding more of the prompt than the session says shows in the cache. -/
theorem mirror_take_inj {prompt : List LlamaToken} {i d : Nat} (h : i + d ≤ prompt.length) :
    mirror (prompt.take (i + d)) = mirror (prompt.take i) ↔ d = 0 := by
  constructor
  · intro he
    have := congrArg List.length (mirror_inj he)
    simp only [List.length_take] at this
    omega
  · rintro rfl
    rfl

/-- A call that ends when its prompt is in the cache. -/
theorem generate_and_persist_mirrors {prompt : List LlamaToken} {sess : Option Session} {seq i : Nat}
    {server : Server L} {x : Session} (max_tokens : Int) (h : Owned n server) (hx : x ∈ server.sessions.map)
    (hsess : sess = some x) (hseq : seq = x.seq_id) (hi : i ≤ prompt.length) (htok : x.tokens = prompt.take i)
    (hkv : server.ctx.kv seq = mirror prompt)
    (hother : ∀ y ∈ server.sessions.map, y ≠ x → server.ctx.kv y.seq_id = mirror y.tokens) :
    let r := generate_and_persist M c.world c.req c.hooks c.captured prompt max_tokens sess seq server
    Mirrors r.server ↔ ¬ (r.exit = .hook_threw ∧ (i < prompt.length ∨ r.generated ≠ [])) := by
  intro r
  subst hseq
  have hothers : ∀ {ctx : LlamaContext L}, (∀ id, id ≠ x.seq_id → ctx.kv id = server.ctx.kv id) →
      ∀ y ∈ server.sessions.map, y ≠ x → ctx.kv y.seq_id = mirror y.tokens := by
    intro ctx hctx y hy hne
    rw [hctx _ fun he => hne (h.distinct y hy x hx he)]
    exact hother y hy hne
  have hiff : ∀ {ctx : LlamaContext L}, (∀ id, id ≠ x.seq_id → ctx.kv id = server.ctx.kv id) →
      (Mirrors { server with ctx } ↔ ctx.kv x.seq_id = mirror x.tokens) := by
    intro ctx hctx
    refine ⟨fun hm => hm x hx, fun hxkv y hy => ?_⟩
    by_cases hy' : y = x
    · rw [hy']
      exact hxkv
    · exact hothers hctx y hy hy'
  rcases generate_and_persist_cases M c.world c.req c.hooks c.captured max_tokens sess server hkv with
    ⟨z, hp, hr⟩ | ⟨z, g, hp, hg, hne, htr, hctx, hr⟩ | ⟨z, g, hp, hg, htr, hctx, hr⟩
  · have hrun : r = _ := hr
    rw [hrun]
    have hd : prompt.take (i + (prompt.length - i)) = prompt := by
      rw [Nat.add_sub_cancel' hi, List.take_length]
    have hsame := @hiff server.ctx fun _ _ => rfl
    rw [hkv, htok] at hsame
    have hall : i + (prompt.length - i) ≤ prompt.length := by omega
    have hinj := mirror_take_inj hall
    rw [hd] at hinj
    apply (hsame.trans hinj).trans
    simp only [true_and, ne_eq, not_true, or_false]
    omega
  · -- `on_token` threw, with what was generated in the cache
    have hrun : r = _ := hr
    rw [hrun, hiff hctx, htr.kv, htok]
    simp only [hne, ne_eq, not_false_eq_true, or_true, and_true, not_true, iff_false]
    intro he
    have := congrArg List.length (mirror_inj he)
    have hpos := List.length_pos_iff.2 hne
    simp only [List.length_append, List.length_take] at this
    omega
  · have hrun : r = _ := hr
    rw [hrun]
    simp only [reduceCtorEq, false_and, not_false_eq_true, iff_true]
    rw [hsess]
    intro y hy
    rcases SessionTable.mem_set.1 hy with ⟨rfl, _⟩ | ⟨hy₀, hyne⟩
    · exact htr.kv
    · apply hothers hctx y hy₀
      rintro rfl
      exact hyne rfl

section Prompt
variable {prompt : List LlamaToken} {o : Opened L} (max_tokens : Int)

/-- A request without a session touches nobody's sequence. -/
theorem run_prompt_stateless_mirrors (hopens : Opens n prompt o) (hn : o.sess = none) (h0 : o.seq = 0) :
    Mirrors (run_prompt M c.world c.req c.hooks c.captured prompt max_tokens o).server := by
  obtain ⟨ctx, tokens, hkv, hserver⟩ := run_prompt_server M c.world c.req c.hooks c.captured prompt max_tokens o
  rw [h0] at hkv
  have hzero := hopens.mirrors.ctx_zero hopens.owned hkv
  rcases hserver with hserver | hserver
  · rw [hserver]
    exact hzero
  · rw [hserver, hn]
    exact hzero

theorem run_prompt_mirrors_iff (hopens : Opens n prompt o) {x : Session} (hx : x ∈ o.server.sessions.map)
    (hs : o.sess = some x) (hseq : o.seq = x.seq_id) (htok : x.tokens = prompt.take o.n_past) :
    let r := run_prompt M c.world c.req c.hooks c.captured prompt max_tokens o
    Mirrors r.server ↔ ¬ ((∃ k, 0 < k ∧ c.world.prefill_ok k = false ∧ (∀ j < k, c.world.prefill_ok j = true) ∧
        k * n_chunk M prompt o.n_past < n_feed prompt o.n_past) ∨
      ((∀ k, k * n_chunk M prompt o.n_past < n_feed prompt o.n_past → c.world.prefill_ok k = true) ∧
        r.exit = .hook_threw ∧ (o.n_past < prompt.length ∨ r.generated ≠ []))) := by
  intro r
  rcases run_prompt_cases M c.world c.req c.hooks c.captured max_tokens hopens.le hopens.kv with
    ⟨k, ctx, hfail, hbefore, hk, hother, hkv, hr⟩ | ⟨ctx, hall, hother, hkv, -, hr⟩
  · -- the prefill fails at chunk `k`, with the `k` chunks before it in the cache
    rw [hseq] at hother hkv
    have hle : o.n_past + k * n_chunk M prompt o.n_past ≤ prompt.length := by
      unfold n_feed at hk
      omega
    have hchunk := n_chunk_pos M prompt o.n_past
    have hrun : r = _ := hr
    rw [hrun]
    simp only [reduceCtorEq, false_and, and_false, or_false]
    rw [mirrors_ctx_iff hopens.owned hopens.mirrors hx hother, hkv, htok, mirror_take_inj hle,
      Nat.mul_eq_zero, or_iff_left (by omega)]
    constructor
    · rintro rfl ⟨j, hj, _, hj', _⟩
      rw [hj' 0 hj] at hfail
      cases hfail
    · intro hno
      by_contra hk0
      exact hno ⟨k, by omega, hfail, hbefore, hk⟩
  · -- the prompt is in the cache
    have hno : ¬ ∃ k, 0 < k ∧ c.world.prefill_ok k = false ∧ (∀ j < k, c.world.prefill_ok j = true) ∧
        k * n_chunk M prompt o.n_past < n_feed prompt o.n_past := by
      rintro ⟨k, _, hfail, _, hk⟩
      rw [hall k hk] at hfail
      cases hfail
    have hothers : ∀ y ∈ o.server.sessions.map, y ≠ x → ctx.kv y.seq_id = mirror y.tokens := by
      intro y hy hne
      rw [hother _ fun he => hne (hopens.owned.distinct y hy x hx (he.trans hseq))]
      exact hopens.mirrors y hy
    have hctx := hopens.owned.ctx (.inr ⟨x, hx, hseq.symm⟩) hother
    have hrun : r = _ := hr
    rw [hrun, or_iff_right hno, and_iff_right hall]
    exact generate_and_persist_mirrors max_tokens hctx hx hs hseq hopens.le htok hkv hothers

end Prompt

/-- Exactly when a call on a mirrored server leaves it mirrored. -/
theorem mirrors_iff_not_parts (h : Owned n s) (hm : Mirrors s) : Mirrors (c.run M s).server ↔ ¬ Parts M s c := by
  have hopens : Opens n (M.tokenizer c.req.prompt) (c.opened M s) := Call.opened_opens h hm
  unfold Parts Call.Prefills
  by_cases hp : M.tokenizer c.req.prompt = []
  · rw [Call.run, complete_stream_no_prompt M s c.world c.req c.hooks c.captured hp]
    simp [hp, hm]
  cases hg : context_guard M (M.tokenizer c.req.prompt).length c.req.max_tokens with
  | none =>
    rw [Call.run, complete_stream_exhausted M s c.world c.req c.hooks c.captured hp hg]
    simp only [ne_eq, not_true, false_and, and_false, not_false_eq_true, iff_true]
    rw [← Call.opened]
    rcases hopens.sess with ⟨hn, _⟩ | ⟨x, hx, hs, hseq, _⟩
    · rw [drop_cache_none hn]
      exact hopens.mirrors
    · rw [drop_cache_some hs, hseq]
      exact hopens.mirrors.update hopens.owned _ hx rfl rfl (seq_rm_all _ _) fun id hid => seq_rm_other _ _ _ hid
  | some max_tokens =>
    rw [Call.run_opened hp hg]
    rcases hopens.sess with ⟨hn, h0⟩ | ⟨x, hx, hs, hseq, htok⟩
    · simp only [hn, ne_eq, not_true, false_and, and_false, not_false_eq_true, iff_true]
      exact run_prompt_stateless_mirrors max_tokens hopens hn h0
    · simp only [ne_eq, hp, hs, not_false_eq_true, reduceCtorEq, true_and]
      exact run_prompt_mirrors_iff max_tokens hopens hx hs hseq htok

/-- The calls of `KeepsMirror` do not part the two. -/
theorem KeepsMirror.not_parts (h : Owned n s) (hm : Mirrors s) (hk : KeepsMirror M s c) : ¬ Parts M s c := by
  rintro ⟨hp, hs, hg, hbad⟩
  rcases hk with hk | hk | hk | ⟨hlt, hk⟩ | ⟨hall, hhooks⟩
  · exact hp hk
  · exact hs hk
  · exact hg hk
  · rcases hbad with ⟨k, hpos, _, hbefore, _⟩ | ⟨hall, _⟩
    · rw [hbefore 0 hpos] at hk
      cases hk
    · have := hall 0 (by unfold n_feed; omega)
      rw [this] at hk
      cases hk
  · rcases hbad with ⟨k, _, hfail, _, hlt⟩ | ⟨_, hexit, hfed⟩
    · rw [hall k hlt] at hfail
      cases hfail
    · obtain ⟨max_tokens, hg⟩ := Option.ne_none_iff_exists'.1 hg
      have hopens : Opens n (M.tokenizer c.req.prompt) (c.opened M s) := Call.opened_opens h hm
      have hrun := Call.run_opened (s := s) hp hg
      rcases run_prompt_cases M c.world c.req c.hooks c.captured max_tokens hopens.le hopens.kv with
        ⟨_, _, _, _, _, _, _, hr⟩ | ⟨ctx, _, _, hkv, -, hr⟩
      · rw [hrun, hr] at hexit
        cases hexit
      · rw [hrun, hr] at hexit hfed
        rcases generate_and_persist_cases M c.world c.req c.hooks c.captured max_tokens (c.opened M s).sess
            { (c.opened M s).server with ctx } hkv with
          ⟨z, hpre, hr'⟩ | ⟨z, g, hpre, hgen, _, _, _, hr'⟩ | ⟨z, g, hpre, hgen, _, _, hr'⟩
        · rcases hhooks with ⟨_, _, hall⟩ | ⟨y, hy, _⟩
          · rw [hr'] at hfed
            rcases hfed with hlt | hne
            · omega
            · exact hne rfl
          · rw [hpre] at hy
            cases hy
        · rcases hhooks with ⟨y, hy, _⟩ | ⟨_, _, hret⟩
          · rw [hpre] at hy
            cases hy
          · exact generate_returns hret hgen
        · rw [hr'] at hexit
          cases hexit

end Keeps

/-- As long as every call meets `KeepsMirror`, tokens and cache agree. -/
theorem guarded_mirrors {M : LlamaModel L} {s : Server L} (h : Reaches (guarded (KeepsMirror M) (Step M)) (Loaded M) s) :
    Mirrors s := by
  refine h.inv_with (fun s hs => reachable_owned hs.unguard) ?_ ?_
  · intro s hs
    rw [hs]
    exact load_model_mirrors M
  · rintro s c t hown hm ⟨hk, ht⟩
    rw [ht]
    exact (mirrors_iff_not_parts hown hm).2 (hk.not_parts hown hm)

instance (s : Server L) : Decidable (Mirrors s) :=
  inferInstanceAs (Decidable (∀ x ∈ s.sessions.map, s.ctx.kv x.seq_id = mirror x.tokens))

/-- The second chunk of a session's prompt fails. -/
def secondChunkFails : Call :=
  ⟨⟨[7, 8, 9], 1, "a", false, none⟩, { World.calm 0 with prefill_ok := fun k => k = 0 }, Unit, .none, ()⟩

end Hostely.Inference
