import Hostely.Inference.Loops
/-!
# What the generation loop does

One round either ends the loop, hands the text to `on_token` or dies in the
hook. `generate_succ` says so once; the invariant rule, the mirror of the
sequence and the agreement of two runs are inductions over it.
-/

open Hostely.Lib

namespace Hostely.Inference

variable {L σ : Type}

/-- The state a loop leaves, whether or not a hook threw. -/
def leftBy {α : Type} : Except α α → α
  | .ok a => a
  | .error a => a

@[simp] theorem leftBy_ok {α : Type} (a : α) : leftBy (.ok a) = a := rfl

@[simp] theorem leftBy_error {α : Type} (a : α) : leftBy (.error a) = a := rfl

section Generate
variable (M : LlamaModel L) (ok : Nat → Bool) (seq : Nat) (on_token : Option (Bytes → Hook σ))
  (stops : Option (List Bytes))

/-- The loop's variables once the sampled token is decoded. -/
def feed (g : Gen L σ) : Gen L σ :=
  let id := llama_sampler_sample M g.ctx
  { g with
    ctx := (llama_decode M true g.ctx (step_batch seq id g.n_total)).2
    generated := g.generated ++ [id]
    n_total := g.n_total + 1 }

/-- The text the round looks at. -/
def roundText (g : Gen L σ) : Bytes :=
  if on_token.isSome || stops.isSome then detokenize M g.generated else []

/-- The stop path drops what lies past the last token. -/
def trimStop (g : Gen L σ) : Gen L σ := { g with ctx := llama_memory_seq_rm g.ctx seq g.n_total (-1) }

/-- One round of the loop. -/
theorem generate_succ (rounds i : Nat) (g : Gen L σ) :
    generate M ok seq on_token stops (rounds + 1) i g =
      if llama_sampler_sample M g.ctx = M.eos ∨ ok i = false then .ok g
      else if stop_hit stops (roundText M on_token stops (feed M seq g)) then .ok (trimStop seq (feed M seq g))
      else (emit on_token (roundText M on_token stops (feed M seq g)) (feed M seq g)) >>=
        generate M ok seq on_token stops rounds (i + 1) := by
  rw [generate]
  by_cases he : llama_sampler_sample M g.ctx = M.eos
  · rw [if_pos he, if_pos (.inl he)]
  · rw [if_neg he]
    cases hok : ok i with
    | false =>
      rw [if_pos (.inr rfl)]
      rfl
    | true =>
      have hdecode : llama_decode M true g.ctx (step_batch seq (llama_sampler_sample M g.ctx) g.n_total) =
          (true, (feed M seq g).ctx) := rfl
      rw [if_neg (by simp [he]), hdecode]
      dsimp only [roundText, feed, trimStop]
      apply if_congr Iff.rfl rfl
      generalize emit on_token _ _ = sent
      cases sent with
      | error g => rfl
      | ok g => rfl

variable {M ok seq on_token stops}

/-- `emit` changes what it sent and what the hook captured, nothing else. -/
theorem emit_frame (on_token : Option (Bytes → Hook σ)) (full : Bytes) (g : Gen L σ) :
    ∃ captured emitted sent, leftBy (emit on_token full g) = { g with captured, emitted, sent } := by
  unfold emit call_on_token
  split
  · exact ⟨_, _, _, rfl⟩
  · split_ifs
    · split <;> exact ⟨_, _, _, rfl⟩
    · split <;> exact ⟨_, _, _, rfl⟩
    · exact ⟨_, _, _, rfl⟩

/-- A property that feeding a token, trimming at a stop and emitting keep holds
of what the loop leaves. -/
theorem generate_inv {P : Gen L σ → Prop} (hfeed : ∀ g, P g → P (feed M seq g))
    (hstop : ∀ g, P g → P (trimStop seq g))
    (hemit : ∀ g captured emitted sent, P g → P { g with captured, emitted, sent })
    (rounds i : Nat) (g : Gen L σ) (h : P g) : P (leftBy (generate M ok seq on_token stops rounds i g)) := by
  induction rounds generalizing i g with
  | zero => exact h
  | succ rounds ih =>
    rw [generate_succ]
    split_ifs
    · exact h
    · exact hstop _ (hfeed _ h)
    · obtain ⟨captured, emitted, sent, hframe⟩ :=
        emit_frame on_token (roundText M on_token stops (feed M seq g)) (feed M seq g)
      have hnext := hemit _ captured emitted sent (hfeed _ h)
      rw [← hframe] at hnext
      cases he : emit on_token (roundText M on_token stops (feed M seq g)) (feed M seq g) with
      | error g' =>
        rw [he] at hnext
        exact hnext
      | ok g' =>
        rw [he] at hnext
        exact ih _ _ hnext

/-! ## The sequence and the others -/

/-- The sequence holds the prompt and the tokens generated so far. -/
structure Tracks (prompt : List LlamaToken) (seq : Nat) (g : Gen L σ) : Prop where
  kv : g.ctx.kv seq = mirror (prompt ++ g.generated)
  total : g.n_total = prompt.length + g.generated.length

variable {prompt : List LlamaToken}

theorem feed_tracks {g : Gen L σ} (h : Tracks prompt seq g) : Tracks prompt seq (feed M seq g) := by
  have hfeeds : feeds seq (prompt ++ g.generated).length [llama_sampler_sample M g.ctx]
      (step_batch seq (llama_sampler_sample M g.ctx) g.n_total) := by
    simp [feeds, step_batch, cellsFrom, h.total]
  refine ⟨?_, ?_⟩
  · have := (decode_mirror M g.ctx hfeeds h.kv).1
    rwa [List.append_assoc] at this
  · simp only [feed, h.total, List.length_append, List.length_singleton]
    omega

/-- The logits left by feeding are those of the prompt and all generated tokens. -/
theorem feed_logits {g : Gen L σ} (h : Tracks prompt seq g) :
    (feed M seq g).ctx.logits = some (M.eval (prompt ++ (feed M seq g).generated)) := by
  have hfeeds : feeds seq (prompt ++ g.generated).length [llama_sampler_sample M g.ctx]
      (step_batch seq (llama_sampler_sample M g.ctx) g.n_total) := by
    simp [feeds, step_batch, cellsFrom, h.total]
  have := decode_logits M g.ctx hfeeds h.kv ⟨_, rfl, rfl⟩
  rw [List.append_assoc] at this
  exact this

theorem trimStop_tracks {g : Gen L σ} (h : Tracks prompt seq g) : Tracks prompt seq (trimStop seq g) := by
  refine ⟨seq_rm_past g.ctx _ h.kv ?_, h.total⟩
  rw [h.total, List.length_append]
  exact le_rfl

theorem generate_tracks {rounds i : Nat} {g : Gen L σ} {r : Except (Gen L σ) (Gen L σ)}
    (hr : generate M ok seq on_token stops rounds i g = r) (h : Tracks prompt seq g) :
    Tracks prompt seq (leftBy r) :=
  hr ▸ generate_inv (fun _ h => feed_tracks h) (fun _ h => trimStop_tracks h) (fun _ _ _ _ h => ⟨h.kv, h.total⟩)
    rounds i g h

/-- Generation touches its own sequence only. -/
theorem generate_other {rounds i : Nat} {g : Gen L σ} {r : Except (Gen L σ) (Gen L σ)}
    (hr : generate M ok seq on_token stops rounds i g = r) {s : Nat} (hs : s ≠ seq) :
    (leftBy r).ctx.kv s = g.ctx.kv s := by
  subst hr
  refine @generate_inv L σ M ok seq on_token stops (fun g' => g'.ctx.kv s = g.ctx.kv s) ?_ ?_ ?_ rounds i g rfl
  · intro g' h
    rw [← h]
    exact decode_other M true g'.ctx (by simp [step_batch]) hs
  · intro g' h
    rw [← h]
    exact seq_rm_other g'.ctx _ _ hs
  · intro g' _ _ _ h
    exact h

/-- What is generated is never taken back. -/
theorem generate_extends {rounds i : Nat} {g : Gen L σ} {r : Except (Gen L σ) (Gen L σ)}
    (hr : generate M ok seq on_token stops rounds i g = r) : g.generated <+: (leftBy r).generated := by
  subst hr
  refine @generate_inv L σ M ok seq on_token stops (fun g' => g.generated <+: g'.generated) ?_ ?_ ?_ rounds i g
    (List.prefix_refl _)
  · intro g' h
    exact h.trans (List.prefix_append _ _)
  · intro g' h
    exact h
  · intro g' _ _ _ h
    exact h

/-- The first token generated is the one first sampled. -/
theorem generate_head {rounds i : Nat} {g : Gen L σ} {r : Except (Gen L σ) (Gen L σ)}
    (hr : generate M ok seq on_token stops (rounds + 1) i g = r) (hok : ok i = true) (hg : g.generated = []) :
    (leftBy r).generated.head? =
      if llama_sampler_sample M g.ctx = M.eos then none else some (llama_sampler_sample M g.ctx) := by
  rw [generate_succ] at hr
  by_cases he : llama_sampler_sample M g.ctx = M.eos
  · rw [if_pos (.inl he)] at hr
    rw [← hr, if_pos he, leftBy_ok, hg]
    rfl
  · have hfed : (feed M seq g).generated = [llama_sampler_sample M g.ctx] := by simp [feed, hg]
    rw [if_neg (by simp [he, hok])] at hr
    rw [if_neg he]
    have hpre : (feed M seq g).generated <+: (leftBy r).generated := by
      split_ifs at hr
      · rw [← hr]
        exact List.prefix_refl _
      · obtain ⟨captured, emitted, sent, hframe⟩ :=
          emit_frame on_token (roundText M on_token stops (feed M seq g)) (feed M seq g)
        cases hem : emit on_token (roundText M on_token stops (feed M seq g)) (feed M seq g) with
        | error e =>
          rw [hem] at hr hframe
          rw [← hr]
          exact hframe ▸ List.prefix_refl _
        | ok e =>
          rw [hem] at hr hframe
          have hext := generate_extends hr
          rw [leftBy_ok] at hframe
          rwa [hframe] at hext
    rw [hfed] at hpre
    obtain ⟨rest, hrest⟩ := hpre
    rw [← hrest]
    rfl

/-- A hook throws only after a token was generated. -/
theorem generate_error {rounds i : Nat} {g g' : Gen L σ}
    (h : generate M ok seq on_token stops rounds i g = .error g') : g'.generated ≠ [] := by
  induction rounds generalizing i g with
  | zero => cases h
  | succ rounds ih =>
    rw [generate_succ] at h
    split_ifs at h
    obtain ⟨captured, emitted, sent, hframe⟩ :=
      emit_frame on_token (roundText M on_token stops (feed M seq g)) (feed M seq g)
    cases he : emit on_token (roundText M on_token stops (feed M seq g)) (feed M seq g) with
    | error e =>
      rw [he] at h hframe
      obtain rfl : e = g' := Except.error.inj h
      rw [leftBy_error] at hframe
      rw [hframe]
      simp [feed]
    | ok e =>
      rw [he] at h
      exact ih h

/-- A hook that never throws lets the loop return. -/
theorem generate_returns (hooks : ∀ f, on_token = some f → ∀ piece c, ∃ c', f piece c = .ok c')
    {rounds i : Nat} {g g' : Gen L σ} : generate M ok seq on_token stops rounds i g ≠ .error g' := by
  have hcall : ∀ full (g : Gen L σ), ∃ g', emit on_token full g = .ok g' := by
    intro full g
    unfold emit call_on_token
    split
    · exact ⟨_, rfl⟩
    · rename_i f
      split_ifs
      · obtain ⟨c, hc⟩ := hooks f rfl (full.drop g.emitted.length) g.captured
        rw [hc]
        exact ⟨_, rfl⟩
      · obtain ⟨c, hc⟩ := hooks f rfl full g.captured
        rw [hc]
        exact ⟨_, rfl⟩
      · exact ⟨_, rfl⟩
  induction rounds generalizing i g with
  | zero =>
    intro h
    cases h
  | succ rounds ih =>
    rw [generate_succ]
    split_ifs
    · intro h
      cases h
    · intro h
      cases h
    · obtain ⟨e, he⟩ := hcall (roundText M on_token stops (feed M seq g)) (feed M seq g)
      rw [he]
      exact ih

end Generate

section Outcome
variable (M : LlamaModel L) (w : World) (req : Request) (hooks : StreamHooks σ) (captured : σ)
  (prompt : List LlamaToken) (max_tokens : Int) (sess : Option Session) (seq : Nat) (server : Server L)

/-- How a call ends once its prompt is in the cache: `on_prefill` throws,
`on_token` throws, or it finishes. -/
theorem generate_and_persist_outcome :
    let r := generate_and_persist M w req hooks captured prompt max_tokens sess seq server
    let start := fun x => generate M w.step_ok seq hooks.on_token req.stops max_tokens.toNat 0
      ⟨server.ctx, [], prompt.length, [], x, []⟩
    (∃ x, call_on_prefill hooks prompt.length captured = .error x ∧
      r = ⟨server, .hook_threw, ⟨prompt.length, 0⟩, [], true, [], x⟩) ∨
    (∃ x g, call_on_prefill hooks prompt.length captured = .ok x ∧ start x = .error g ∧
      r = ⟨{ server with ctx := g.ctx }, .hook_threw, ⟨prompt.length, 0⟩, g.generated, true, g.sent, g.captured⟩) ∨
    (∃ x g, call_on_prefill hooks prompt.length captured = .ok x ∧ start x = .ok g ∧
      r = ⟨persist sess (prompt ++ g.generated) { server with ctx := g.ctx }, .finished (detokenize M g.generated),
        ⟨prompt.length, g.generated.length⟩, g.generated, true, g.sent, g.captured⟩) := by
  intro r start
  have hr : r = generate_and_persist M w req hooks captured prompt max_tokens sess seq server := rfl
  unfold generate_and_persist at hr
  cases hp : call_on_prefill hooks prompt.length captured with
  | error x =>
    simp only [hp] at hr
    exact .inl ⟨x, rfl, hr⟩
  | ok x =>
    simp only [hp] at hr
    cases hg : start x with
    | error g =>
      rw [show generate M w.step_ok seq hooks.on_token req.stops max_tokens.toNat 0
        ⟨server.ctx, [], prompt.length, [], x, []⟩ = .error g from hg] at hr
      exact .inr (.inl ⟨x, g, rfl, hg, hr⟩)
    | ok g =>
      rw [show generate M w.step_ok seq hooks.on_token req.stops max_tokens.toNat 0
        ⟨server.ctx, [], prompt.length, [], x, []⟩ = .ok g from hg] at hr
      exact .inr (.inr ⟨x, g, rfl, hg, hr⟩)

/-- Without hooks it always finishes. -/
theorem generate_and_persist_hookless :
    ∃ g : Gen L Unit,
      generate M w.step_ok seq none req.stops max_tokens.toNat 0 ⟨server.ctx, [], prompt.length, [], (), []⟩ = .ok g ∧
      generate_and_persist M w req StreamHooks.none () prompt max_tokens sess seq server =
        ⟨persist sess (prompt ++ g.generated) { server with ctx := g.ctx }, .finished (detokenize M g.generated),
          ⟨prompt.length, g.generated.length⟩, g.generated, true, g.sent, g.captured⟩ := by
  rcases generate_and_persist_outcome M w req StreamHooks.none () prompt max_tokens sess seq server with
    ⟨x, hp, _⟩ | ⟨x, g, _, hg, _⟩ | ⟨x, g, _, hg, hr⟩
  · cases hp
  · exact absurd hg (generate_returns fun f hf => by cases hf)
  · exact ⟨g, hg, hr⟩

variable {prompt seq}

/-- The same, with what generation then left in the cache. -/
theorem generate_and_persist_cases (hkv : server.ctx.kv seq = mirror prompt) :
    let r := generate_and_persist M w req hooks captured prompt max_tokens sess seq server
    let start := fun x => generate M w.step_ok seq hooks.on_token req.stops max_tokens.toNat 0
      ⟨server.ctx, [], prompt.length, [], x, []⟩
    (∃ x, call_on_prefill hooks prompt.length captured = .error x ∧
      r = ⟨server, .hook_threw, ⟨prompt.length, 0⟩, [], true, [], x⟩) ∨
    (∃ x g, call_on_prefill hooks prompt.length captured = .ok x ∧ start x = .error g ∧ g.generated ≠ [] ∧
      Tracks prompt seq g ∧ (∀ id, id ≠ seq → g.ctx.kv id = server.ctx.kv id) ∧
      r = ⟨{ server with ctx := g.ctx }, .hook_threw, ⟨prompt.length, 0⟩, g.generated, true, g.sent, g.captured⟩) ∨
    (∃ x g, call_on_prefill hooks prompt.length captured = .ok x ∧ start x = .ok g ∧
      Tracks prompt seq g ∧ (∀ id, id ≠ seq → g.ctx.kv id = server.ctx.kv id) ∧
      r = ⟨persist sess (prompt ++ g.generated) { server with ctx := g.ctx }, .finished (detokenize M g.generated),
        ⟨prompt.length, g.generated.length⟩, g.generated, true, g.sent, g.captured⟩) := by
  intro r start
  have htracks : ∀ x : σ, Tracks prompt seq ⟨server.ctx, [], prompt.length, [], x, []⟩ := by
    intro x
    refine ⟨?_, rfl⟩
    rw [List.append_nil]
    exact hkv
  rcases generate_and_persist_outcome M w req hooks captured prompt max_tokens sess seq server with
    ⟨x, hp, hr⟩ | ⟨x, g, hp, hg, hr⟩ | ⟨x, g, hp, hg, hr⟩
  · exact .inl ⟨x, hp, hr⟩
  · exact .inr (.inl ⟨x, g, hp, hg, generate_error hg, generate_tracks hg (htracks x),
      fun id hid => generate_other hg hid, hr⟩)
  · exact .inr (.inr ⟨x, g, hp, hg, generate_tracks hg (htracks x), fun id hid => generate_other hg hid, hr⟩)

end Outcome

/-! ## Two loops that agree -/

section Agree
variable (M : LlamaModel L) (prompt : List LlamaToken) (seq₁ seq₂ : Nat)

/-- Two loops, on two sequences, that went the same way so far and sample the
same token next. -/
structure Agree (g₁ g₂ : Gen L σ) : Prop where
  left : Tracks prompt seq₁ g₁
  right : Tracks prompt seq₂ g₂
  generated : g₁.generated = g₂.generated
  emitted : g₁.emitted = g₂.emitted
  captured : g₁.captured = g₂.captured
  sent : g₁.sent = g₂.sent
  next : llama_sampler_sample M g₁.ctx = llama_sampler_sample M g₂.ctx

variable {M prompt seq₁ seq₂} {on_token : Option (Bytes → Hook σ)} {stops : Option (List Bytes)}

/-- Both feed the same token, and then the logits are the same too. -/
theorem Agree.feed {g₁ g₂ : Gen L σ} (h : Agree M prompt seq₁ seq₂ g₁ g₂) :
    Agree M prompt seq₁ seq₂ (feed M seq₁ g₁) (feed M seq₂ g₂) := by
  have hgen : (Inference.feed M seq₁ g₁).generated = (Inference.feed M seq₂ g₂).generated := by
    simp only [Inference.feed, h.generated, h.next]
  refine ⟨feed_tracks h.left, feed_tracks h.right, hgen, h.emitted, h.captured, h.sent, ?_⟩
  simp only [llama_sampler_sample]
  rw [feed_logits h.left, feed_logits h.right, hgen]

theorem Agree.trimStop {g₁ g₂ : Gen L σ} (h : Agree M prompt seq₁ seq₂ g₁ g₂) :
    Agree M prompt seq₁ seq₂ (trimStop seq₁ g₁) (trimStop seq₂ g₂) :=
  ⟨trimStop_tracks h.left, trimStop_tracks h.right, h.generated, h.emitted, h.captured, h.sent, h.next⟩

/-- The hook answers both alike. -/
theorem Agree.emit {g₁ g₂ : Gen L σ} (h : Agree M prompt seq₁ seq₂ g₁ g₂)
    (on_token : Option (Bytes → Hook σ)) (full : Bytes) :
    (∃ e₁ e₂, emit on_token full g₁ = .ok e₁ ∧ emit on_token full g₂ = .ok e₂ ∧
      Agree M prompt seq₁ seq₂ e₁ e₂) ∨
    (∃ e₁ e₂, emit on_token full g₁ = .error e₁ ∧ emit on_token full g₂ = .error e₂ ∧
      Agree M prompt seq₁ seq₂ e₁ e₂) := by
  have hsame : ∀ (c : σ) e s, Agree M prompt seq₁ seq₂ { g₁ with captured := c, emitted := e, sent := s }
      { g₂ with captured := c, emitted := e, sent := s } :=
    fun c e s => ⟨⟨h.left.kv, h.left.total⟩, ⟨h.right.kv, h.right.total⟩, h.generated, rfl, rfl, rfl, h.next⟩
  have hcall : ∀ f piece,
      (∃ e₁ e₂, call_on_token f piece full g₁ = .ok e₁ ∧ call_on_token f piece full g₂ = .ok e₂ ∧
        Agree M prompt seq₁ seq₂ e₁ e₂) ∨
      (∃ e₁ e₂, call_on_token f piece full g₁ = .error e₁ ∧ call_on_token f piece full g₂ = .error e₂ ∧
        Agree M prompt seq₁ seq₂ e₁ e₂) := by
    intro f piece
    unfold call_on_token
    rw [h.captured]
    cases f piece g₂.captured with
    | ok c =>
      refine .inl ⟨_, _, rfl, rfl, ?_⟩
      rw [h.sent]
      exact hsame _ _ _
    | error c =>
      refine .inr ⟨_, _, rfl, rfl, ?_⟩
      rw [h.sent, h.emitted]
      exact hsame _ _ _
  unfold Inference.emit
  cases on_token with
  | none => exact .inl ⟨_, _, rfl, rfl, h⟩
  | some f =>
    dsimp only
    rw [h.emitted]
    split_ifs
    · exact hcall f _
    · exact hcall f _
    · exact .inl ⟨_, _, rfl, rfl, h⟩

/-- Loops that agree keep agreeing as long as no decode fails. -/
theorem Agree.generate {ok₁ ok₂ : Nat → Bool} (h₁ : ∀ i, ok₁ i = true) (h₂ : ∀ i, ok₂ i = true) (rounds i : Nat)
    {g₁ g₂ : Gen L σ} (h : Agree M prompt seq₁ seq₂ g₁ g₂) :
    Agree M prompt seq₁ seq₂ (leftBy (generate M ok₁ seq₁ on_token stops rounds i g₁))
      (leftBy (generate M ok₂ seq₂ on_token stops rounds i g₂)) := by
  induction rounds generalizing i g₁ g₂ with
  | zero => exact h
  | succ rounds ih =>
    have hfeed := h.feed
    have htext : roundText M on_token stops (Inference.feed M seq₁ g₁) =
        roundText M on_token stops (Inference.feed M seq₂ g₂) := by
      unfold roundText
      rw [hfeed.generated]
    rw [generate_succ, generate_succ, h.next, htext, h₁ i, h₂ i]
    by_cases hend : llama_sampler_sample M g₂.ctx = M.eos ∨ true = false
    · rw [if_pos hend, if_pos hend]
      exact h
    rw [if_neg hend, if_neg hend]
    by_cases hstop : stop_hit stops (roundText M on_token stops (Inference.feed M seq₂ g₂)) = true
    · rw [if_pos hstop, if_pos hstop]
      exact hfeed.trimStop
    rw [if_neg hstop, if_neg hstop]
    rcases hfeed.emit on_token (roundText M on_token stops (Inference.feed M seq₂ g₂)) with
      ⟨e₁, e₂, he₁, he₂, he⟩ | ⟨e₁, e₂, he₁, he₂, he⟩
    · rw [he₁, he₂]
      exact ih (i + 1) he
    · rw [he₁, he₂]
      exact he

end Agree

/-! ## The hook seen from outside -/

section Hooks
variable {M : LlamaModel L} {ok : Nat → Bool} {seq : Nat} {f : Bytes → Hook σ} {stops : Option (List Bytes)}

/-- What a loop leaves in the captured variables, `.error` when the hook threw. -/
def capturedOf : Except (Gen L σ) (Gen L σ) → Except σ σ
  | .ok g => .ok g.captured
  | .error g => .error g.captured

/-- The calls of the hook one after the other. -/
def replay (f : Bytes → Hook σ) (c : σ) (pieces : List Bytes) : Except σ σ := pieces.foldlM (fun c p => f p c) c

@[simp] theorem replay_nil (f : Bytes → Hook σ) (c : σ) : replay f c [] = .ok c := rfl

theorem emit_replay (full : Bytes) {g : Gen L σ} {c₀ : σ} (h : replay f c₀ g.sent = .ok g.captured) :
    replay f c₀ (leftBy (emit (some f) full g)).sent = capturedOf (emit (some f) full g) := by
  have hcall : ∀ piece, replay f c₀ (leftBy (call_on_token f piece full g)).sent =
      capturedOf (call_on_token f piece full g) := by
    intro piece
    unfold call_on_token
    unfold replay at h
    cases hf : f piece g.captured with
    | ok c => simp [replay, capturedOf, h, hf, bind, Except.bind, pure, Except.pure]
    | error c => simp [replay, capturedOf, h, hf, bind, Except.bind]
  unfold emit
  dsimp only
  split_ifs
  · exact hcall _
  · exact hcall _
  · exact h

/-- The loop's hook calls, replayed, leave what the loop leaves. -/
theorem generate_replay {rounds i : Nat} {g : Gen L σ} {r : Except (Gen L σ) (Gen L σ)} {c₀ : σ}
    (hr : generate M ok seq (some f) stops rounds i g = r) (h : replay f c₀ g.sent = .ok g.captured) :
    replay f c₀ (leftBy r).sent = capturedOf r := by
  subst hr
  induction rounds generalizing i g with
  | zero => exact h
  | succ rounds ih =>
    rw [generate_succ]
    split_ifs
    · exact h
    · exact h
    · have hfed : replay f c₀ (feed M seq g).sent = .ok (feed M seq g).captured := h
      have hemit := emit_replay (roundText M (some f) stops (feed M seq g)) hfed
      cases he : emit (some f) (roundText M (some f) stops (feed M seq g)) (feed M seq g) with
      | error e =>
        rw [he] at hemit
        exact hemit
      | ok e =>
        rw [he] at hemit
        exact ih hemit

/-- A loop without a hook generates the same, and goes on where the hook threw. -/
theorem generate_hookless {rounds i : Nat} {g : Gen L σ} {g₀ : Gen L Unit}
    {r : Except (Gen L σ) (Gen L σ)} {r₀ : Except (Gen L Unit) (Gen L Unit)}
    (hr : generate M ok seq (some f) stops rounds i g = r) (hr₀ : generate M ok seq none stops rounds i g₀ = r₀)
    (hctx : g.ctx = g₀.ctx) (hgen : g.generated = g₀.generated) (htot : g.n_total = g₀.n_total) :
    (leftBy r).generated <+: (leftBy r₀).generated ∧ (∀ g', r = .ok g' → g'.generated = (leftBy r₀).generated) := by
  induction rounds generalizing i g g₀ with
  | zero =>
    subst hr hr₀
    refine ⟨hgen ▸ List.prefix_refl _, ?_⟩
    rintro g' ⟨⟩
    exact hgen
  | succ rounds ih =>
    have hfctx : (feed M seq g).ctx = (feed M seq g₀).ctx := by simp only [feed, hctx, htot]
    have hfgen : (feed M seq g).generated = (feed M seq g₀).generated := by simp only [feed, hctx, hgen]
    have hftot : (feed M seq g).n_total = (feed M seq g₀).n_total := by simp only [feed, htot]
    have hstops : stop_hit stops (roundText M (some f) stops (feed M seq g)) =
        stop_hit stops (roundText M none stops (feed M seq g₀)) := by
      cases stops with
      | none => rfl
      | some l => simp only [roundText, hfgen, Option.isSome_some, Bool.or_true]
    rw [generate_succ] at hr hr₀
    rw [hstops, hctx] at hr
    by_cases hend : llama_sampler_sample M g₀.ctx = M.eos ∨ ok i = false
    · rw [if_pos hend] at hr hr₀
      subst hr hr₀
      refine ⟨hgen ▸ List.prefix_refl _, ?_⟩
      rintro g' ⟨⟩
      exact hgen
    rw [if_neg hend] at hr hr₀
    by_cases hstop : stop_hit stops (roundText M none stops (feed M seq g₀)) = true
    · rw [if_pos hstop] at hr hr₀
      subst hr hr₀
      refine ⟨hfgen ▸ List.prefix_rfl, ?_⟩
      rintro g' ⟨⟩
      exact hfgen
    rw [if_neg hstop] at hr hr₀
    obtain ⟨captured, emitted, sent, hframe⟩ :=
      emit_frame (some f) (roundText M (some f) stops (feed M seq g)) (feed M seq g)
    have hnone : emit none (roundText M none stops (feed M seq g₀)) (feed M seq g₀) = .ok (feed M seq g₀) := rfl
    rw [hnone] at hr₀
    cases he : emit (some f) (roundText M (some f) stops (feed M seq g)) (feed M seq g) with
    | error e =>
      -- the other loop goes on from the same tokens
      rw [he] at hr hframe
      rw [leftBy_error] at hframe
      obtain rfl : .error e = r := hr
      refine ⟨?_, fun g' h => by cases h⟩
      rw [leftBy_error, hframe]
      exact hfgen ▸ generate_extends hr₀
    | ok e =>
      rw [he] at hr hframe
      rw [leftBy_ok] at hframe
      exact ih hr hr₀ (hframe ▸ hfctx) (hframe ▸ hfgen) (hframe ▸ hftot)

end Hooks

end Hostely.Inference
