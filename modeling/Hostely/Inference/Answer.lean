import Hostely.Inference.Reuse
/-!
# What a model answers

`answer` is the generation loop without a cache: each token is sampled from
the logits of all the tokens before it. A call without failing decodes
generates the answer on any server, whatever its sequence holds.
-/

open Hostely.Lib

namespace Hostely.Inference

variable {L : Type}

section Answer
variable (M : LlamaModel L) (stops : Option (List Bytes))

/-- What becomes of `generated` in at most `rounds` more tokens, the first one
sampled from `logits`, on a sequence that holds `context` and them. -/
def answer : Nat → Option L → List LlamaToken → List LlamaToken → List LlamaToken
  | 0, _, _, generated => generated
  | rounds + 1, logits, context, generated =>
    let id := M.greedy logits
    if id = M.eos then generated
    else
      let generated := generated ++ [id]
      if stop_hit stops (detokenize M generated) then generated
      else answer rounds (some (M.eval (context ++ generated))) context generated

variable {M stops}

theorem answer_extends (rounds : Nat) (logits : Option L) (context generated : List LlamaToken) :
    generated <+: answer M stops rounds logits context generated := by
  induction rounds generalizing logits generated with
  | zero => exact List.prefix_refl _
  | succ rounds ih =>
    rw [answer]
    dsimp only
    split_ifs
    · exact List.prefix_refl _
    · exact List.prefix_append _ _
    · exact (List.prefix_append _ _).trans (ih _ _)

/-- The answer is empty when the first token ends the sequence. -/
theorem answer_eq_nil {rounds : Nat} (hrounds : 0 < rounds) (logits : Option L) (context : List LlamaToken) :
    answer M stops rounds logits context [] = [] ↔ M.greedy logits = M.eos := by
  obtain ⟨rounds, rfl⟩ := Nat.exists_eq_succ_of_ne_zero hrounds.ne'
  rw [answer]
  by_cases he : M.greedy logits = M.eos
  · simp [he]
  · dsimp only
    rw [if_neg he]
    split_ifs
    · simp [he]
    · refine iff_of_false (fun hnil => ?_) he
      have hext := @answer_extends L M stops rounds (some (M.eval (context ++ ([] ++ [M.greedy logits])))) context
        ([] ++ [M.greedy logits])
      rw [hnil] at hext
      simp at hext

/-! ## The loop -/

theorem feed_tokens {seq : Nat} {context : List LlamaToken} {g : Gen L Unit}
    (hg : g.ctx.tokens seq = context ++ g.generated) :
    (feed M seq g).ctx.tokens seq = context ++ (feed M seq g).generated ∧
      (feed M seq g).ctx.logits = some (M.eval (context ++ (feed M seq g).generated)) := by
  have hfeeds : feeds seq g.n_total [llama_sampler_sample M g.ctx]
      (step_batch seq (llama_sampler_sample M g.ctx) g.n_total) := by
    simp [feeds, step_batch, cellsFrom]
  have htokens := decode_tokens M g.ctx hfeeds
  have hlogits := decode_evals M g.ctx hfeeds ⟨_, rfl, rfl⟩
  rw [hg, List.append_assoc] at htokens hlogits
  exact ⟨htokens, hlogits⟩

/-- Without hooks and failing decodes the loop generates the answer. -/
theorem generate_answer {ok : Nat → Bool} (hok : ∀ i, ok i = true) {seq : Nat} {context : List LlamaToken}
    (rounds i : Nat) {g : Gen L Unit} (hg : g.ctx.tokens seq = context ++ g.generated) :
    (leftBy (generate M ok seq none stops rounds i g)).generated =
      answer M stops rounds g.ctx.logits context g.generated := by
  induction rounds generalizing i g with
  | zero => rfl
  | succ rounds ih =>
    obtain ⟨htokens, hlogits⟩ := @feed_tokens L M seq context g hg
    have hstop : stop_hit stops (roundText M (none : Option (Bytes → Hook Unit)) stops (feed M seq g)) =
        stop_hit stops (detokenize M (feed M seq g).generated) := by
      cases stops with
      | none => rfl
      | some l => rfl
    rw [generate_succ, hstop, hok, answer]
    by_cases he : M.greedy g.ctx.logits = M.eos
    · rw [if_pos (.inl he)]
      dsimp only
      rw [if_pos he, leftBy_ok]
    have hgen : g.generated ++ [M.greedy g.ctx.logits] = (feed M seq g).generated := rfl
    rw [if_neg (by simpa [llama_sampler_sample] using he)]
    dsimp only
    rw [if_neg he, hgen]
    by_cases hhit : stop_hit stops (detokenize M (feed M seq g).generated) = true
    · rw [if_pos hhit, if_pos hhit]
      rfl
    · rw [if_neg hhit, if_neg hhit]
      have := ih (i + 1) htokens
      rw [hlogits] at this
      exact this

end Answer

/-! ## The prefill -/

section Prefill
variable (M : LlamaModel L) (ok : Nat → Bool) (prompt : List LlamaToken) (n_past seq : Nat)

/-- The prefill fails exactly when one of its chunks does. -/
theorem prefill_loop_ok (rounds chunk start : Nat) (ctx : LlamaContext L)
    (hr : n_feed prompt n_past ≤ start + rounds) :
    (prefill_loop M ok prompt n_past seq rounds chunk start ctx).1 = true ↔
      ∀ k, start + k * n_chunk M prompt n_past < n_feed prompt n_past → ok (chunk + k) = true := by
  induction rounds generalizing chunk start ctx with
  | zero =>
    refine iff_of_true rfl fun k hk => ?_
    omega
  | succ rounds ih =>
    have hchunk := n_chunk_pos M prompt n_past
    rw [prefill_loop]
    by_cases hs : start < n_feed prompt n_past
    · rw [if_pos hs]
      dsimp only
      cases hok : ok chunk with
      | false =>
        refine iff_of_false (by simp [llama_decode]) fun hall => ?_
        have := hall 0 (by simpa using hs)
        rw [Nat.add_zero, hok] at this
        cases this
      | true =>
        refine (ih (chunk + 1) (start + n_chunk M prompt n_past) _ (by omega)).trans ⟨fun hall k hk => ?_, fun hall k hk => ?_⟩
        · cases k with
          | zero => exact hok
          | succ k =>
            have := hall k (by rw [Nat.succ_mul] at hk; omega)
            rwa [Nat.add_assoc, Nat.add_comm 1] at this
        · have := hall (k + 1) (by rw [Nat.succ_mul]; omega)
          rwa [Nat.add_comm k, ← Nat.add_assoc] at this
    · rw [if_neg hs]
      refine iff_of_true rfl fun k hk => ?_
      omega

/-- A prefill that goes through appends the rest of the prompt to whatever the
sequence holds. -/
theorem prefill_loop_tokens (hp : n_past ≤ prompt.length) (rounds chunk start : Nat) (ctx : LlamaContext L)
    (hr : n_feed prompt n_past ≤ start + rounds)
    (hok : (prefill_loop M ok prompt n_past seq rounds chunk start ctx).1 = true) :
    (prefill_loop M ok prompt n_past seq rounds chunk start ctx).2.tokens seq =
        ctx.tokens seq ++ prompt.drop (n_past + start) ∧
      (prefill_loop M ok prompt n_past seq rounds chunk start ctx).2.logits =
        if start < n_feed prompt n_past then some (M.eval (ctx.tokens seq ++ prompt.drop (n_past + start)))
        else ctx.logits := by
  induction rounds generalizing chunk start ctx with
  | zero =>
    have hs : ¬ start < n_feed prompt n_past := by omega
    have hnil : prompt.drop (n_past + start) = [] := List.drop_of_length_le (by unfold n_feed at hs; omega)
    rw [if_neg hs, hnil, List.append_nil]
    exact ⟨rfl, rfl⟩
  | succ rounds ih =>
    rw [prefill_loop] at hok ⊢
    by_cases hs : start < n_feed prompt n_past
    · rw [if_pos hs] at hok ⊢
      rw [if_pos hs]
      dsimp only at hok ⊢
      have hchunk := n_chunk_pos M prompt n_past
      cases hchunkok : ok chunk with
      | false =>
        rw [hchunkok] at hok
        cases hok
      | true =>
        obtain ⟨c, hc⟩ : ∃ c, llama_decode M true ctx (prefill_batch prompt n_past seq start
            (min (n_chunk M prompt n_past) (n_feed prompt n_past - start))) = (true, c) := ⟨_, rfl⟩
        obtain ⟨htokens, hlast⟩ := prefill_chunk_tokens M prompt n_past seq hs hc
        rw [hchunkok, hc] at hok
        rw [hc]
        obtain ⟨hall, hlogits⟩ := ih (chunk + 1) (start + n_chunk M prompt n_past) c (by omega) hok
        rw [htokens] at hall hlogits
        refine ⟨hall, hlogits.trans ?_⟩
        split_ifs with hmore
        · rfl
        · exact hlast (by omega)
    · have hnil : prompt.drop (n_past + start) = [] := List.drop_of_length_le (by unfold n_feed at hs; omega)
      rw [if_neg hs] at hok ⊢
      rw [if_neg hs, hnil, List.append_nil]
      exact ⟨rfl, rfl⟩

end Prefill

/-! ## A request -/

theorem open_session_le (w : World) (req : Request) (prompt : List LlamaToken) (s : Server L) :
    (open_session w req prompt s).n_past ≤ prompt.length := by
  unfold open_session
  split
  · rename_i sess _ _
    have hleft := common_len_le_left sess.tokens prompt
    have hright := common_len_le_right sess.tokens prompt
    dsimp only
    split
    · exact hright
    · dsimp only
      omega
  · exact Nat.zero_le _

section Request
variable (M : LlamaModel L) (w : World) (req : Request) (prompt : List LlamaToken) (max_tokens : Int) (o : Opened L)

/-- What an opened request has on its sequence once its prompt is fed. -/
def opened_context : List LlamaToken := o.server.ctx.tokens o.seq ++ prompt.drop o.n_past

/-- The logits its first token is sampled from: when there is nothing to feed,
those that the last decode left. -/
def first_logits : Option L :=
  if o.n_past < prompt.length then some (M.eval (opened_context prompt o)) else o.server.ctx.logits

def answer_to : List LlamaToken :=
  answer M req.stops max_tokens.toNat (first_logits M prompt o) (opened_context prompt o) []

/-- Some chunk of the prompt fails to decode. -/
def PrefillFails : Prop := ∃ k, k * n_chunk M prompt o.n_past < n_feed prompt o.n_past ∧ w.prefill_ok k = false

end Request

/-- A prefill that goes through leaves the sequence ready to sample from. -/
theorem prefill_opened (M : LlamaModel L) {ok : Nat → Bool} (hok : ∀ k, ok k = true) {prompt : List LlamaToken}
    {o : Opened L} (hle : o.n_past ≤ prompt.length) :
    ∃ ctx, prefill M ok prompt o.n_past o.seq o.server.ctx = (true, ctx) ∧
      ctx.tokens o.seq = opened_context prompt o ∧ ctx.logits = first_logits M prompt o := by
  have hrounds : n_feed prompt o.n_past ≤ 0 + n_feed prompt o.n_past := Nat.le_add_left _ _
  have htrue := (prefill_loop_ok M ok prompt o.n_past o.seq _ 0 0 o.server.ctx hrounds).2 fun k _ => hok _
  obtain ⟨htokens, hlogits⟩ := prefill_loop_tokens M ok prompt o.n_past o.seq hle _ 0 0 o.server.ctx hrounds htrue
  refine ⟨_, Prod.ext htrue rfl, htokens, hlogits.trans ?_⟩
  simp only [first_logits, opened_context, n_feed, Nat.sub_pos_iff_lt, Nat.add_zero]

section Call
variable {M : LlamaModel L} {s : Server L} {w : World} {req : Request} (hp : M.tokenizer req.prompt ≠ [])
  {max_tokens : Int} (hg : context_guard M (M.tokenizer req.prompt).length req.max_tokens = some max_tokens)
include hp hg

/-- Without failing decodes a request gets the answer. -/
theorem complete_stream_answer (hw : NoDecodeFails w) :
    let C := complete_stream M s w req StreamHooks.none ()
    let tokens := answer_to M req (M.tokenizer req.prompt) max_tokens (open_session w req (M.tokenizer req.prompt) s)
    C.exit = .finished (detokenize M tokens) ∧ C.stats = ⟨(M.tokenizer req.prompt).length, tokens.length⟩ ∧
      C.generated = tokens := by
  intro C tokens
  have hC : C = run_prompt M w req StreamHooks.none () (M.tokenizer req.prompt) max_tokens
      (open_session w req (M.tokenizer req.prompt) s) := complete_stream_run M s w req StreamHooks.none () hp hg
  have htokens : tokens = answer_to M req (M.tokenizer req.prompt) max_tokens
      (open_session w req (M.tokenizer req.prompt) s) := rfl
  have hle := open_session_le w req (M.tokenizer req.prompt) s
  generalize open_session w req (M.tokenizer req.prompt) s = o at hC hle htokens
  generalize M.tokenizer req.prompt = prompt at hC hle htokens
  obtain ⟨ctx, hprefill, hctx, hlogits⟩ := prefill_opened M hw.1 hle
  obtain ⟨g, hgen, hr⟩ := generate_and_persist_hookless M w req prompt max_tokens o.sess o.seq { o.server with ctx }
  have hstart : ctx.tokens o.seq = opened_context prompt o ++ [] := by rw [List.append_nil, hctx]
  have hanswer : g.generated = tokens := by
    have := @generate_answer L M req.stops w.step_ok hw.2 o.seq (opened_context prompt o) max_tokens.toNat 0
      ⟨ctx, [], prompt.length, [], (), []⟩ hstart
    rw [hgen, leftBy_ok] at this
    rw [this, htokens, answer_to, hlogits]
  rw [hC, run_prompt, hprefill]
  dsimp only
  rw [if_pos rfl, hr, ← hanswer]
  exact ⟨rfl, rfl, rfl⟩

/-- A hook that throws when the prompt is fed ends the call there. -/
theorem complete_stream_prefill_threw (hw : NoDecodeFails w) {σ : Type} (hooks : StreamHooks σ) (captured : σ) {x : σ}
    (hx : call_on_prefill hooks (M.tokenizer req.prompt).length captured = .error x) :
    (complete_stream M s w req hooks captured).exit = .hook_threw := by
  rw [complete_stream_run M s w req hooks captured hp hg]
  obtain ⟨ctx, hprefill, _⟩ := prefill_opened M hw.1 (open_session_le w req (M.tokenizer req.prompt) s)
  rw [run_prompt, hprefill]
  dsimp only
  rw [if_pos rfl, generate_and_persist]
  dsimp only
  rw [hx]

/-- A chunk that fails to decode ends it before it generates. -/
theorem complete_stream_prefill_fails {σ : Type} (hooks : StreamHooks σ) (captured : σ)
    (hfails : PrefillFails M w (M.tokenizer req.prompt) (open_session w req (M.tokenizer req.prompt) s)) :
    (complete_stream M s w req hooks captured).exit = .prefill_failed ∧
      (complete_stream M s w req hooks captured).stats = ⟨(M.tokenizer req.prompt).length, 0⟩ := by
  rw [complete_stream_run M s w req hooks captured hp hg]
  generalize open_session w req (M.tokenizer req.prompt) s = o at hfails
  obtain ⟨k, hk, hfail⟩ := hfails
  have hfalse : (prefill M w.prefill_ok (M.tokenizer req.prompt) o.n_past o.seq o.server.ctx).1 = false := by
    rw [Bool.eq_false_iff]
    intro htrue
    have := (prefill_loop_ok M w.prefill_ok (M.tokenizer req.prompt) o.n_past o.seq _ 0 0 o.server.ctx
      (Nat.le_add_left _ _)).1 htrue k (by rwa [Nat.zero_add])
    rw [Nat.zero_add, hfail] at this
    cases this
  rw [run_prompt]
  dsimp only
  rw [hfalse]
  exact ⟨rfl, rfl⟩

end Call

/-! ## A model with a given answer -/

/-- Answers `ts` to every prompt. -/
def spelling (V : LlamaToken → Bytes) (ts : List LlamaToken) (eos : LlamaToken) : LlamaModel (List LlamaToken) where
  tokenizer := fun _ => [0]
  detokenizer := fun ts => ts.flatMap V
  eos := eos
  eval := id
  greedy := fun logits => match logits with
    | some context => ts.getD (context.length - 1) eos
    | none => eos
  n_ctx := ts.length + 3
  n_batch := 1
  n_seq_max := 2
  n_batch_pos := by decide
  two_le_n_seq_max := by decide

section Spelling
variable {V : LlamaToken → Bytes} {ts : List LlamaToken} {eos : LlamaToken}

theorem spelling_answer (heos : eos ∉ ts) (back front : List LlamaToken) (h : ts = front ++ back) :
    answer (spelling V ts eos) none back.length (some ([0] ++ front)) [0] front = ts := by
  induction back generalizing front with
  | nil => rw [h, List.append_nil]; rfl
  | cons t back ih =>
    have hnext : (spelling V ts eos).greedy (some ([0] ++ front)) = t := by
      simp [spelling, h]
    have hne : t ≠ (spelling V ts eos).eos := by
      rintro rfl
      exact heos (by simp [h])
    rw [List.length_cons, answer, hnext]
    dsimp only
    rw [if_neg hne]
    exact ih (front ++ [t]) (by rw [h, List.append_assoc]; rfl)

theorem spelling_guard (ts : List LlamaToken) (eos : LlamaToken) :
    context_guard (spelling V ts eos) 1 ts.length = some (ts.length : Int) := by
  unfold context_guard
  rw [if_neg]
  simp only [spelling, u32]
  omega

end Spelling

end Hostely.Inference
