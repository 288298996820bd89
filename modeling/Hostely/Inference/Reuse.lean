import Hostely.Inference.Mirror
/-!
# Answering from the cache

A session's request feeds only what its sequence does not hold yet. On a
mirrored server that ends in the same cache as feeding the whole prompt to an
empty sequence. It ends with the same logits only if something was fed: with
the whole prompt cached no decode happens, and the sampler reads what the
previous decode of any request left.
-/

open Hostely.Lib

namespace Hostely.Inference

variable {L : Type}

/-! ## Logits -/

theorem resolve_session_logits {n : Nat} {s : Server L} (h : Owned n s) (w : World) (req : Request)
    (prompt : List LlamaToken) : (resolve_session w req prompt s).2.ctx.logits = s.ctx.logits := by
  have hspec := resolve_session_spec h w req prompt
  generalize resolve_session w req prompt s = r at hspec
  cases hspec <;> rfl

/-- Opening a request decodes nothing. -/
theorem open_session_logits {n : Nat} {s : Server L} (h : Owned n s) (w : World) (req : Request)
    (prompt : List LlamaToken) : (open_session w req prompt s).server.ctx.logits = s.ctx.logits := by
  have hres := resolve_session_logits h w req prompt
  unfold open_session
  cases hr : resolve_session w req prompt s with
  | mk sess t =>
    rw [hr] at hres
    cases sess with
    | none => exact hres
    | some x =>
      dsimp only
      split <;> exact hres

/-! ## The stateless answer -/

/-- The same request without a session, on a server just loaded. -/
def Call.stateless (c : Call) : Call :=
  { c with req := { c.req with session_id := "", allow_session_fallback := false } }

def NoDecodeFails (w : World) : Prop := (∀ k, w.prefill_ok k = true) ∧ ∀ i, w.step_ok i = true

theorem calm_decodes (now : Nat) : NoDecodeFails (.calm now) := ⟨fun _ => rfl, fun _ => rfl⟩

section Reuse
variable (M : LlamaModel L) (s : Server L) (c : Call)

/-- The request samples before it decoded anything: its whole prompt is cached,
and there is something to generate. -/
def SamplesStale : Prop :=
  M.tokenizer c.req.prompt ≠ [] ∧ (c.opened M s).n_past = (M.tokenizer c.req.prompt).length ∧
  (∃ max_tokens, context_guard M (M.tokenizer c.req.prompt).length c.req.max_tokens = some max_tokens ∧
    0 < max_tokens) ∧
  ∃ x, call_on_prefill c.hooks (M.tokenizer c.req.prompt).length c.captured = .ok x

end Reuse

theorem stateless_opened (M : LlamaModel L) (s : Server L) (c : Call) :
    c.stateless.opened M s =
      ⟨none, 0, 0, { s with ctx := llama_memory_seq_rm s.ctx 0 (-1) (-1) }⟩ := by
  simp [Call.opened, Call.stateless, open_session, resolve_session]

section Start
variable {M : LlamaModel L} {σ : Type} {w : World} {req : Request} {hooks : StreamHooks σ} {captured : σ}
  {prompt : List LlamaToken} {max_tokens : Int} {sess : Option Session} {seq : Nat} {server : Server L}

theorem generated_of_prefill_threw {x : σ} (hp : call_on_prefill hooks prompt.length captured = .error x) :
    (generate_and_persist M w req hooks captured prompt max_tokens sess seq server).generated = [] := by
  unfold generate_and_persist
  simp only [hp]

theorem generated_of_prefill {x : σ} (hp : call_on_prefill hooks prompt.length captured = .ok x) :
    (generate_and_persist M w req hooks captured prompt max_tokens sess seq server).generated =
      (leftBy (generate M w.step_ok seq hooks.on_token req.stops max_tokens.toNat 0
        ⟨server.ctx, [], prompt.length, [], x, []⟩)).generated := by
  unfold generate_and_persist
  simp only [hp]
  split <;> simp_all

end Start

/-- Two calls that start generating on the same prompt generate the same
exactly when they sample the same first token (or generate nothing). -/
theorem generated_eq_iff {M : LlamaModel L} {σ : Type} {w : World} (hw : NoDecodeFails w) {r₁ r₂ : Request}
    (hstops : r₁.stops = r₂.stops) {hooks : StreamHooks σ} {captured : σ} {prompt : List LlamaToken}
    {max_tokens : Int} {sess₁ sess₂ : Option Session} {seq₁ seq₂ : Nat} (server₁ server₂ : Server L)
    (h₁ : server₁.ctx.kv seq₁ = mirror prompt) (h₂ : server₂.ctx.kv seq₂ = mirror prompt) :
    (generate_and_persist M w r₁ hooks captured prompt max_tokens sess₁ seq₁ server₁).generated =
      (generate_and_persist M w r₂ hooks captured prompt max_tokens sess₂ seq₂ server₂).generated ↔
    ((∃ x, call_on_prefill hooks prompt.length captured = .ok x) → 0 < max_tokens →
      llama_sampler_sample M server₁.ctx = llama_sampler_sample M server₂.ctx) := by
  cases hp : call_on_prefill hooks prompt.length captured with
  | error x => simp [generated_of_prefill_threw hp]
  | ok x =>
    rw [generated_of_prefill hp, generated_of_prefill hp, hstops]
    by_cases hm : 0 < max_tokens
    · obtain ⟨rounds, hrounds⟩ : ∃ rounds, max_tokens.toNat = rounds + 1 := ⟨max_tokens.toNat - 1, by omega⟩
      rw [hrounds]
      constructor
      · -- the same tokens begin with the same token
        intro heq _ _
        have hh₁ := @generate_head L σ M w.step_ok seq₁ hooks.on_token r₂.stops rounds 0
          ⟨server₁.ctx, [], prompt.length, [], x, []⟩ _ rfl (hw.2 0) rfl
        have hh₂ := @generate_head L σ M w.step_ok seq₂ hooks.on_token r₂.stops rounds 0
          ⟨server₂.ctx, [], prompt.length, [], x, []⟩ _ rfl (hw.2 0) rfl
        rw [heq, hh₂] at hh₁
        dsimp only at hh₁
        split_ifs at hh₁ with e₂ e₁ e₁
        · exact e₁.trans e₂.symm
        · exact (Option.some.inj hh₁).symm
      · -- with the first token the same the two loops stay together
        intro hsame
        have hstart : Agree M prompt seq₁ seq₂ (⟨server₁.ctx, [], prompt.length, [], x, []⟩ : Gen L σ)
            ⟨server₂.ctx, [], prompt.length, [], x, []⟩ :=
          ⟨⟨by rw [List.append_nil]; exact h₁, rfl⟩, ⟨by rw [List.append_nil]; exact h₂, rfl⟩, rfl, rfl, rfl, rfl,
            hsame ⟨x, rfl⟩ hm⟩
        exact (hstart.generate hw.2 hw.2 (rounds + 1) 0).generated
    · have hzero : max_tokens.toNat = 0 := by omega
      rw [hzero]
      simp [generate, hm]

/-- On a mirrored server a call without a failing decode generates what its
stateless twin generates, exactly when the stale logits, if it samples them,
give the first token of the fresh ones. -/
theorem reuse_iff {M : LlamaModel L} {n : Nat} {s : Server L} (h : Owned n s) (hm : Mirrors s) {c : Call}
    (hw : NoDecodeFails c.world) :
    (c.run M s).generated = (c.stateless.run M (load_model M)).generated ↔
      (SamplesStale M s c → M.greedy s.ctx.logits = M.greedy (some (M.eval (M.tokenizer c.req.prompt)))) := by
  have hlogits := open_session_logits h c.world c.req (M.tokenizer c.req.prompt)
  have hopens : Opens n (M.tokenizer c.req.prompt) (c.opened M s) := Call.opened_opens h hm
  rw [← Call.opened] at hlogits
  unfold SamplesStale
  by_cases hp : M.tokenizer c.req.prompt = []
  · rw [Call.run, complete_stream_no_prompt M s c.world c.req c.hooks c.captured hp, Call.run,
      complete_stream_no_prompt M (load_model M) c.stateless.world c.stateless.req c.stateless.hooks
        c.stateless.captured hp]
    simp [hp]
  cases hg : context_guard M (M.tokenizer c.req.prompt).length c.req.max_tokens with
  | none =>
    rw [Call.run, complete_stream_exhausted M s c.world c.req c.hooks c.captured hp hg, Call.run,
      complete_stream_exhausted M (load_model M) c.stateless.world c.stateless.req c.stateless.hooks
        c.stateless.captured hp hg]
    simp
  | some max_tokens =>
    have hrun := Call.run_opened (s := s) hp hg
    have hrun' : c.stateless.run M (load_model M) = run_prompt M c.world c.stateless.req c.hooks c.captured
        (M.tokenizer c.req.prompt) max_tokens (c.stateless.opened M (load_model M)) := Call.run_opened hp hg
    have hopens' : Opens _ (M.tokenizer c.req.prompt) (c.stateless.opened M (load_model M)) :=
      Call.opened_opens (c := c.stateless) (load_model_owned M) (load_model_mirrors M)
    have hzero : (c.stateless.opened M (load_model M)).n_past = 0 := by rw [stateless_opened]
    rw [hrun, hrun']
    generalize c.stateless.opened M (load_model M) = o' at hopens' hzero
    generalize c.opened M s = o at hopens hlogits
    generalize M.tokenizer c.req.prompt = prompt at hopens hopens' hp hlogits
    have hlen := List.length_pos_iff.2 hp
    rcases run_prompt_cases M c.world c.req c.hooks c.captured max_tokens hopens.le hopens.kv with
      ⟨k, _, hfail, _⟩ | ⟨ctx, _, _, hkv, hl, hr⟩
    · rw [hw.1 k] at hfail
      cases hfail
    rcases run_prompt_cases M c.world c.stateless.req c.hooks c.captured max_tokens hopens'.le hopens'.kv with
      ⟨k, _, hfail, _⟩ | ⟨ctx', _, _, hkv', hl', hr'⟩
    · rw [hw.1 k] at hfail
      cases hfail
    have hstops : c.req.stops = c.stateless.req.stops := rfl
    rw [hr, hr', generated_eq_iff hw hstops { o.server with ctx } { o'.server with ctx := ctx' } hkv hkv']
    simp only [llama_sampler_sample, hl, hl', n_feed, hzero, Nat.sub_zero, hlen, if_true, ne_eq, hp, not_false_eq_true,
      true_and, Option.some.injEq, exists_eq_left']
    by_cases hcached : o.n_past = prompt.length
    · -- nothing is fed
      simp only [hcached, Nat.sub_self, Nat.lt_irrefl, if_false, true_and]
      rw [hlogits]
      tauto
    · have hpos : 0 < prompt.length - o.n_past := by
        have := hopens.le
        omega
      simp [hcached, hpos]

end Hostely.Inference
