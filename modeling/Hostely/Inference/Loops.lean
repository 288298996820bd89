import Hostely.Inference.Server
/-!
# Tokenizing, common part, prefill

One spec lemma for each helper that `complete_stream` calls before it
generates. Later modules use these and do not unfold the loops.
-/

open Hostely.Lib

namespace Hostely.Inference

variable {L σ : Type}

/-! ## Text -/

theorem tokenize_prompt_eq (M : LlamaModel L) (prompt : Bytes) :
    tokenize_prompt M prompt = if M.tokenizer prompt = [] then none else some (M.tokenizer prompt) := by
  obtain ⟨rest, h⟩ := ask_twice_fill (M.tokenizer prompt) (prompt.length + 16) 0
  unfold tokenize_prompt llama_tokenize
  rw [h]
  dsimp only
  split
  · have : M.tokenizer prompt = [] := List.length_eq_zero_iff.1 (by omega)
    rw [if_pos this]
  · have : M.tokenizer prompt ≠ [] := fun he => by simp [he] at *
    rw [if_neg this]
    simp

theorem detokenize_eq (M : LlamaModel L) (ts : List LlamaToken) :
    detokenize M ts = if ts = [] then [] else M.detokenizer ts := by
  obtain ⟨rest, h⟩ := ask_twice_fill (M.detokenizer ts) (ts.length * 16 + 64) 0
  unfold detokenize llama_detokenize
  rw [h]
  dsimp only
  split
  · rfl
  · split
    · simp
    · exact (List.length_eq_zero_iff.1 (by omega)).symm

/-! ## The common part -/

theorem common_len_le_left (a b : List LlamaToken) : common_len a b ≤ a.length := by
  induction a generalizing b with
  | nil => simp [common_len]
  | cons x a ih =>
    cases b with
    | nil => simp [common_len]
    | cons y b =>
      simp only [common_len]
      split
      · have := ih b; simp; omega
      · omega

theorem common_len_le_right (a b : List LlamaToken) : common_len a b ≤ b.length := by
  induction a generalizing b with
  | nil => simp [common_len]
  | cons x a ih =>
    cases b with
    | nil => simp [common_len]
    | cons y b =>
      simp only [common_len]
      split
      · have := ih b; simp; omega
      · omega

theorem take_common_len (a b : List LlamaToken) : a.take (common_len a b) = b.take (common_len a b) := by
  induction a generalizing b with
  | nil => simp [common_len]
  | cons x a ih =>
    cases b with
    | nil => simp [common_len]
    | cons y b =>
      simp only [common_len]
      split
      · subst_vars; simp [ih b]
      · simp

/-! ## Prefill -/

theorem cellsFrom_eq_range (i : Nat) (ts : List LlamaToken) :
    cellsFrom i ts = (List.range ts.length).map fun j => ⟨i + j, ts.getD j 0⟩ := by
  induction ts generalizing i with
  | nil => rfl
  | cons t ts ih =>
    rw [cellsFrom, ih, List.length_cons, List.range_succ_eq_map, List.map_cons, List.map_map]
    simp only [List.cons.injEq, List.getD_cons_zero, Nat.add_zero, true_and]
    apply List.map_congr_left
    intro j _
    simp [Nat.add_assoc, Nat.add_comm 1]

section Prefill
variable (M : LlamaModel L) (ok : Nat → Bool) (prompt : List LlamaToken) (n_past seq : Nat)

theorem prefill_batch_feeds {start len : Nat} (h : n_past + start + len ≤ prompt.length) :
    feeds seq (n_past + start) ((prompt.drop (n_past + start)).take len)
      (prefill_batch prompt n_past seq start len) := by
  have hl : ((prompt.drop (n_past + start)).take len).length = len := by simp; omega
  simp only [feeds, prefill_batch, cellsFrom_eq_range, hl, List.map_map]
  apply List.map_congr_left
  intro j hj
  rw [List.mem_range] at hj
  simp [hj]

theorem prefill_batch_last (start : Nat) {len : Nat} (hlen : 0 < len) :
    ∃ b, (prefill_batch prompt n_past seq start len).getLast? = some b ∧
      b.logits = decide (start + len = n_feed prompt n_past) := by
  refine ⟨_, by simp only [prefill_batch, List.getLast?_map, List.getLast?_range, Nat.pos_iff_ne_zero.1 hlen,
    if_false, Option.map_some]; rfl, ?_⟩
  simp only
  congr 1
  have hsum : start + (len - 1) + 1 = start + len := by omega
  rw [hsum]

theorem n_chunk_pos : 0 < n_chunk M prompt n_past := by
  have := M.n_batch_pos
  unfold n_chunk
  omega

theorem prefill_batch_seq (start len : Nat) : ∀ b ∈ prefill_batch prompt n_past seq start len, b.seq_id = seq := by
  intro b hb
  obtain ⟨_, _, rfl⟩ := List.mem_map.1 hb
  rfl

/-- Prefill touches its own sequence only. -/
theorem prefill_loop_other (rounds chunk start : Nat) (ctx : LlamaContext L) {s : Nat} (hs : s ≠ seq) :
    (prefill_loop M ok prompt n_past seq rounds chunk start ctx).2.kv s = ctx.kv s := by
  induction rounds generalizing chunk start ctx with
  | zero => rfl
  | succ rounds ih =>
    simp only [prefill_loop]
    split
    · have hkv := decode_other M (ok chunk) ctx (prefill_batch_seq prompt n_past seq start
        (min (n_chunk M prompt n_past) (n_feed prompt n_past - start))) hs
      split
      · rw [← hkv, ‹llama_decode _ _ _ _ = _›]
      · rw [ih, ← hkv, ‹llama_decode _ _ _ _ = _›]
    · rfl

/-- A chunk that decodes moves its part of the prompt onto the sequence, whatever
that holds; the last one leaves the logits of all of it. -/
theorem prefill_chunk_tokens {start : Nat} (hs : start < n_feed prompt n_past) {ctx c : LlamaContext L}
    (hc : llama_decode M true ctx (prefill_batch prompt n_past seq start
      (min (n_chunk M prompt n_past) (n_feed prompt n_past - start))) = (true, c)) :
    c.tokens seq ++ prompt.drop (n_past + (start + n_chunk M prompt n_past)) =
        ctx.tokens seq ++ prompt.drop (n_past + start) ∧
      (n_feed prompt n_past ≤ start + n_chunk M prompt n_past →
        c.logits = some (M.eval (ctx.tokens seq ++ prompt.drop (n_past + start)))) := by
  have hchunk := n_chunk_pos M prompt n_past
  have hfeed : n_feed prompt n_past - start = (prompt.drop (n_past + start)).length := by
    rw [List.length_drop]
    unfold n_feed
    omega
  generalize hlen : min (n_chunk M prompt n_past) (n_feed prompt n_past - start) = len at hc
  have hfits : n_past + start + len ≤ prompt.length := by unfold n_feed at hs hlen; omega
  have hfeeds := prefill_batch_feeds prompt n_past seq hfits
  constructor
  · have htokens := decode_tokens M ctx hfeeds
    rw [hc] at htokens
    rw [htokens, List.append_assoc, ← hlen, hfeed, ← List.take_eq_take_min, ← Nat.add_assoc]
    generalize n_past + start = fed
    rw [← List.drop_drop, List.take_append_drop]
  · -- the last token of the last chunk is the flagged one
    intro hend
    obtain ⟨b, hb, hflag⟩ := prefill_batch_last prompt n_past seq start (by omega : 0 < len)
    have hevals := decode_evals M ctx hfeeds ⟨b, hb, by rw [hflag, decide_eq_true_eq]; omega⟩
    rwa [hc, List.take_of_length_le (by omega)] at hevals

/-- On a mirrored sequence it is mirrored again. -/
theorem prefill_chunk {start : Nat} (hs : start < n_feed prompt n_past) {ctx c : LlamaContext L}
    (hkv : ctx.kv seq = mirror (prompt.take (n_past + start)))
    (hc : llama_decode M true ctx (prefill_batch prompt n_past seq start
      (min (n_chunk M prompt n_past) (n_feed prompt n_past - start))) = (true, c)) :
    c.kv seq = mirror (prompt.take (n_past + (start + n_chunk M prompt n_past))) ∧
    (n_feed prompt n_past ≤ start + n_chunk M prompt n_past → c.logits = some (M.eval prompt)) := by
  obtain ⟨-, hlogits⟩ := prefill_chunk_tokens M prompt n_past seq hs hc
  have htokens : ctx.tokens seq = prompt.take (n_past + start) := by rw [LlamaContext.tokens, hkv, mirror_token]
  rw [htokens, List.take_append_drop] at hlogits
  refine ⟨?_, hlogits⟩
  set len := min (n_chunk M prompt n_past) (n_feed prompt n_past - start) with hlen
  have hlen' : n_past + start + len ≤ prompt.length := by unfold n_feed at hs hlen; omega
  have hfeeds := prefill_batch_feeds prompt n_past seq hlen'
  have hold : (prompt.take (n_past + start)).length = n_past + start := by simp; omega
  rw [← hold] at hfeeds
  obtain ⟨hkv', -⟩ := decode_mirror M ctx hfeeds hkv
  rw [hc, hold, ← List.take_add] at hkv'
  rw [hkv']
  by_cases hle : n_chunk M prompt n_past ≤ n_feed prompt n_past - start
  · rw [hlen, Nat.min_eq_left hle, Nat.add_assoc]
  · rw [List.take_of_length_le, List.take_of_length_le] <;> unfold n_feed at hle hlen <;> omega

/-- Where prefill stops on a mirrored sequence: past the last chunk, or at the
first chunk whose decode fails. -/
theorem prefill_loop_spec (hp : n_past ≤ prompt.length) (rounds chunk start : Nat) (ctx : LlamaContext L)
    (hr : n_feed prompt n_past ≤ start + rounds) (hkv : ctx.kv seq = mirror (prompt.take (n_past + start))) :
    let r := prefill_loop M ok prompt n_past seq rounds chunk start ctx
    (r.1 = true ∧ r.2.kv seq = mirror prompt ∧
      (∀ k, start + k * n_chunk M prompt n_past < n_feed prompt n_past → ok (chunk + k) = true) ∧
      r.2.logits = if start < n_feed prompt n_past then some (M.eval prompt) else ctx.logits) ∨
    (r.1 = false ∧ ∃ k, ok (chunk + k) = false ∧ (∀ j < k, ok (chunk + j) = true) ∧
      start + k * n_chunk M prompt n_past < n_feed prompt n_past ∧
      r.2.kv seq = mirror (prompt.take (n_past + (start + k * n_chunk M prompt n_past)))) := by
  induction rounds generalizing chunk start ctx with
  | zero =>
    left
    have hs : ¬ start < n_feed prompt n_past := by omega
    refine ⟨rfl, ?_, fun k hk => by omega, by simp [prefill_loop, hs]⟩
    rw [prefill_loop, hkv, List.take_of_length_le]
    unfold n_feed at hs
    omega
  | succ rounds ih =>
    simp only [prefill_loop]
    have hchunk := n_chunk_pos M prompt n_past
    by_cases hs : start < n_feed prompt n_past
    · rw [if_pos hs]
      cases hok : ok chunk
      · right
        refine ⟨rfl, 0, by simpa using hok, by simp, by simpa using hs, ?_⟩
        simpa [llama_decode] using hkv
      · obtain ⟨c, hc⟩ : ∃ c, llama_decode M true ctx (prefill_batch prompt n_past seq start
            (min (n_chunk M prompt n_past) (n_feed prompt n_past - start))) = (true, c) := ⟨_, rfl⟩
        obtain ⟨hkv', hlast⟩ := prefill_chunk M prompt n_past seq hs hkv hc
        simp only [hc]
        rcases ih (chunk + 1) (start + n_chunk M prompt n_past) c (by omega) hkv' with
          ⟨h1, h2, h3, h4⟩ | ⟨h1, k, h2, h3, h4, h5⟩
        · left
          refine ⟨h1, h2, ?_, ?_⟩
          · rintro (_ | k) hk
            · simpa using hok
            · have := h3 k (by rw [Nat.succ_mul] at hk; omega)
              rwa [Nat.add_assoc, Nat.add_comm 1] at this
          · rw [h4, if_pos hs]
            split
            · rfl
            · exact hlast (by omega)
        · -- a later chunk failed: it is one further from here
          right
          refine ⟨h1, k + 1, ?_, ?_, ?_, ?_⟩
          · rwa [Nat.add_assoc, Nat.add_comm 1] at h2
          · rintro (_ | j) hj
            · simpa using hok
            · have := h3 j (by omega)
              rwa [Nat.add_assoc, Nat.add_comm 1] at this
          · rw [Nat.succ_mul]; omega
          · have hsum : start + n_chunk M prompt n_past + k * n_chunk M prompt n_past =
                start + (k * n_chunk M prompt n_past + n_chunk M prompt n_past) := by omega
            rw [h5, Nat.succ_mul, hsum]
    · left
      rw [if_neg hs]
      refine ⟨rfl, ?_, fun k hk => by omega, by simp [hs]⟩
      rw [hkv, List.take_of_length_le]
      unfold n_feed at hs
      omega

end Prefill

/-! ## The three ways through `complete_stream` -/

section Complete
variable (M : LlamaModel L) (s : Server L) (w : World) (req : Request) (hooks : StreamHooks σ) (captured : σ)

theorem complete_stream_no_prompt (h : M.tokenizer req.prompt = []) :
    complete_stream M s w req hooks captured = ⟨s, .no_prompt, ⟨0, 0⟩, [], false, [], captured⟩ := by
  rw [complete_stream, tokenize_prompt_eq, if_pos h]

theorem complete_stream_exhausted (h : M.tokenizer req.prompt ≠ [])
    (hg : context_guard M (M.tokenizer req.prompt).length req.max_tokens = none) :
    complete_stream M s w req hooks captured =
      ⟨drop_cache (open_session w req (M.tokenizer req.prompt) s), .context_exhausted,
        ⟨(M.tokenizer req.prompt).length, 0⟩, [], false, [], captured⟩ := by
  rw [complete_stream, tokenize_prompt_eq, if_neg h]
  dsimp only
  rw [hg]

theorem complete_stream_run (h : M.tokenizer req.prompt ≠ []) {max_tokens : Int}
    (hg : context_guard M (M.tokenizer req.prompt).length req.max_tokens = some max_tokens) :
    complete_stream M s w req hooks captured =
      run_prompt M w req hooks captured (M.tokenizer req.prompt) max_tokens
        (open_session w req (M.tokenizer req.prompt) s) := by
  rw [complete_stream, tokenize_prompt_eq, if_neg h]
  dsimp only
  rw [hg]

/-- A call returns early without looking at its hooks, or comes to generate. -/
theorem complete_stream_split (M : LlamaModel L) (s : Server L) (w : World) (req : Request) :
    (∃ server exit stats, exit.text = some [] ∧ stats.completion_tokens = 0 ∧
      ∀ {σ : Type} (hooks : StreamHooks σ) (captured : σ),
        complete_stream M s w req hooks captured = ⟨server, exit, stats, [], false, [], captured⟩) ∨
    (∃ max_tokens sess seq server, M.tokenizer req.prompt ≠ [] ∧
      ∀ {σ : Type} (hooks : StreamHooks σ) (captured : σ),
        complete_stream M s w req hooks captured =
          generate_and_persist M w req hooks captured (M.tokenizer req.prompt) max_tokens sess seq server) := by
  by_cases hp : M.tokenizer req.prompt = []
  · exact .inl ⟨_, _, _, rfl, rfl, fun hooks captured => complete_stream_no_prompt M s w req hooks captured hp⟩
  cases hg : context_guard M (M.tokenizer req.prompt).length req.max_tokens with
  | none =>
    exact .inl ⟨_, _, _, rfl, rfl, fun hooks captured => complete_stream_exhausted M s w req hooks captured hp hg⟩
  | some max_tokens =>
    generalize ho : open_session w req (M.tokenizer req.prompt) s = o
    cases hpre : prefill M w.prefill_ok (M.tokenizer req.prompt) o.n_past o.seq o.server.ctx with
    | mk ok ctx =>
      have hrun : ∀ {σ : Type} (hooks : StreamHooks σ) (captured : σ), complete_stream M s w req hooks captured =
          run_prompt M w req hooks captured (M.tokenizer req.prompt) max_tokens o :=
        fun hooks captured => ho ▸ complete_stream_run M s w req hooks captured hp hg
      cases ok with
      | false =>
        refine .inl ⟨{ o.server with ctx }, .prefill_failed, ⟨(M.tokenizer req.prompt).length, 0⟩, rfl, rfl, ?_⟩
        intro σ hooks captured
        rw [hrun]
        simp [run_prompt, hpre]
      | true =>
        refine .inr ⟨max_tokens, o.sess, o.seq, { o.server with ctx }, hp, ?_⟩
        intro σ hooks captured
        rw [hrun]
        simp [run_prompt, hpre]

end Complete

/-- Where `run_prompt` gets on a mirrored sequence: the prefill stops at the
first chunk that fails, or feeds the whole prompt and generation starts. -/
theorem run_prompt_cases (M : LlamaModel L) (w : World) (req : Request) (hooks : StreamHooks σ) (captured : σ)
    {prompt : List LlamaToken} (max_tokens : Int) {o : Opened L} (hle : o.n_past ≤ prompt.length)
    (hkv : o.server.ctx.kv o.seq = mirror (prompt.take o.n_past)) :
    (∃ k ctx, w.prefill_ok k = false ∧ (∀ j < k, w.prefill_ok j = true) ∧
      k * n_chunk M prompt o.n_past < n_feed prompt o.n_past ∧
      (∀ id, id ≠ o.seq → ctx.kv id = o.server.ctx.kv id) ∧
      ctx.kv o.seq = mirror (prompt.take (o.n_past + k * n_chunk M prompt o.n_past)) ∧
      run_prompt M w req hooks captured prompt max_tokens o =
        ⟨{ o.server with ctx }, .prefill_failed, ⟨prompt.length, 0⟩, [], false, [], captured⟩) ∨
    (∃ ctx, (∀ k, k * n_chunk M prompt o.n_past < n_feed prompt o.n_past → w.prefill_ok k = true) ∧
      (∀ id, id ≠ o.seq → ctx.kv id = o.server.ctx.kv id) ∧ ctx.kv o.seq = mirror prompt ∧
      ctx.logits = (if 0 < n_feed prompt o.n_past then some (M.eval prompt) else o.server.ctx.logits) ∧
      run_prompt M w req hooks captured prompt max_tokens o =
        generate_and_persist M w req hooks captured prompt max_tokens o.sess o.seq { o.server with ctx }) := by
  have hother := fun id (hid : id ≠ o.seq) =>
    prefill_loop_other M w.prefill_ok prompt o.n_past o.seq (n_feed prompt o.n_past) 0 0 o.server.ctx hid
  have hspec := prefill_loop_spec M w.prefill_ok prompt o.n_past o.seq hle (n_feed prompt o.n_past) 0 0
    o.server.ctx (by omega) hkv
  unfold run_prompt prefill
  cases hp : prefill_loop M w.prefill_ok prompt o.n_past o.seq (n_feed prompt o.n_past) 0 0 o.server.ctx with
  | mk ok ctx =>
    rw [hp] at hother hspec
    simp only [Nat.zero_add] at hspec
    rcases hspec with ⟨hok, hcells, hall, hlogits⟩ | ⟨hok, k, hfail, hbefore, hk, hcells⟩
    · subst hok
      exact .inr ⟨ctx, hall, hother, hcells, hlogits, rfl⟩
    · subst hok
      exact .inl ⟨k, ctx, hfail, hbefore, hk, hother, hcells, rfl⟩

theorem drop_cache_none {o : Opened L} (h : o.sess = none) : drop_cache o = o.server := by
  rw [drop_cache, h]

theorem drop_cache_some {o : Opened L} {x : Session} (h : o.sess = some x) :
    drop_cache o =
      { o.server with
        ctx := llama_memory_seq_rm o.server.ctx o.seq (-1) (-1)
        sessions := o.server.sessions.set { x with tokens := [] } } := by
  rw [drop_cache, h]

end Hostely.Inference
