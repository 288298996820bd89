import Hostely.Inference.Generation
/-!
# The positions passed to llama_decode

The batches of a request in the order of their calls. Prefill covers the prompt
chunk by chunk and generation goes on right after it, so all positions are in the
context unless the guard lets a prompt through that is longer.
-/

open Hostely.Lib

namespace Hostely.Inference

variable {L σ : Type}

/-! ## The calls -/

section Prefill
variable (M : LlamaModel L) (ok : Nat → Bool) (prompt_tokens : List LlamaToken) (n_past seq : Nat)

/-- The batches that `prefill_loop` decodes. -/
def prefill_calls : Nat → Nat → Nat → List LlamaBatch
  | 0, _, _ => []
  | rounds + 1, chunk, start =>
    if start < n_feed prompt_tokens n_past then
      let len := min (n_chunk M prompt_tokens n_past) (n_feed prompt_tokens n_past - start)
      prefill_batch prompt_tokens n_past seq start len ::
        if ok chunk then prefill_calls rounds (chunk + 1) (start + n_chunk M prompt_tokens n_past) else []
    else []

end Prefill

section Generate
variable (M : LlamaModel L) (ok : Nat → Bool) (seq : Nat) (on_token : Option (Bytes → Hook σ))
  (stops : Option (List Bytes))

/-- The batches that `generate` decodes. -/
def generate_calls : Nat → Nat → Gen L σ → List LlamaBatch
  | 0, _, _ => []
  | rounds + 1, i, g =>
    let id := llama_sampler_sample M g.ctx
    if id = M.eos then []
    else
      step_batch seq id g.n_total ::
        if ok i = false then []
        else
          let full := roundText M on_token stops (feed M seq g)
          if stop_hit stops full then []
          else
            match emit on_token full (feed M seq g) with
            | .error _ => []
            | .ok g => generate_calls rounds (i + 1) g

end Generate

/-- The batches that `complete_stream` decodes. -/
def complete_calls (M : LlamaModel L) (s : Server L) (w : World) (req : Request) (hooks : StreamHooks σ) (captured : σ) :
    List LlamaBatch :=
  match tokenize_prompt M req.prompt with
  | none => []
  | some prompt_tokens =>
    let o := open_session w req prompt_tokens s
    match context_guard M prompt_tokens.length req.max_tokens with
    | none => []
    | some max_tokens =>
      let (prefill_ok, ctx) := prefill M w.prefill_ok prompt_tokens o.n_past o.seq o.server.ctx
      prefill_calls M w.prefill_ok prompt_tokens o.n_past o.seq (n_feed prompt_tokens o.n_past) 0 0 ++
        if prefill_ok then
          match call_on_prefill hooks prompt_tokens.length captured with
          | .error _ => []
          | .ok captured =>
            generate_calls M w.step_ok o.seq hooks.on_token req.stops max_tokens.toNat 0
              ⟨ctx, [], prompt_tokens.length, [], captured, []⟩
        else []

/-! ## They are the calls of the loops -/

/-- What decoding the batches from call `k` on makes of a context. -/
def decode_all (M : LlamaModel L) (ok : Nat → Bool) : Nat → List LlamaBatch → LlamaContext L → LlamaContext L
  | _, [], ctx => ctx
  | k, batch :: rest, ctx => decode_all M ok (k + 1) rest (llama_decode M (ok k) ctx batch).2

theorem prefill_loop_calls (M : LlamaModel L) (ok : Nat → Bool) (prompt_tokens : List LlamaToken) (n_past seq : Nat)
    (rounds chunk start : Nat) (ctx : LlamaContext L) :
    (prefill_loop M ok prompt_tokens n_past seq rounds chunk start ctx).2 =
      decode_all M ok chunk (prefill_calls M ok prompt_tokens n_past seq rounds chunk start) ctx := by
  induction rounds generalizing chunk start ctx with
  | zero => rfl
  | succ rounds ih =>
    unfold prefill_loop prefill_calls
    split
    · cases hok : ok chunk with
      | false => simp [llama_decode, decode_all, hok]
      | true =>
        simp only [llama_decode, decode_all, hok, if_true]
        exact ih _ _ _
    · rfl

/-- The stop path drops cells after its last decode. -/
theorem generate_eq_calls (M : LlamaModel L) (ok : Nat → Bool) (seq : Nat) (on_token : Option (Bytes → Hook σ))
    (stops : Option (List Bytes)) (rounds i : Nat) (g : Gen L σ) :
    ∃ ctx, ctx = decode_all M ok i (generate_calls M ok seq on_token stops rounds i g) g.ctx ∧
      ((leftBy (generate M ok seq on_token stops rounds i g)).ctx = ctx ∨
        ∃ p, (leftBy (generate M ok seq on_token stops rounds i g)).ctx = llama_memory_seq_rm ctx seq p (-1)) := by
  refine ⟨_, rfl, ?_⟩
  induction rounds generalizing i g with
  | zero => exact .inl rfl
  | succ rounds ih =>
    rw [generate_succ]
    unfold generate_calls
    by_cases he : llama_sampler_sample M g.ctx = M.eos
    · simp [he, decode_all]
    · cases hok : ok i with
      | false => simp [he, decode_all, hok, llama_decode]
      | true =>
        have hfeed : (llama_decode M true g.ctx (step_batch seq (llama_sampler_sample M g.ctx) g.n_total)).2 =
            (feed M seq g).ctx := rfl
        simp only [he, hok, if_false, decode_all, hfeed, or_self, Bool.true_eq_false]
        split
        · exact .inr ⟨_, rfl⟩
        · obtain ⟨captured, emitted, sent, hframe⟩ :=
            emit_frame on_token (roundText M on_token stops (feed M seq g)) (feed M seq g)
          have hctx := congrArg Gen.ctx hframe
          cases hemit : emit on_token (roundText M on_token stops (feed M seq g)) (feed M seq g) with
          | error g' =>
            rw [hemit] at hctx
            exact .inl hctx
          | ok g' =>
            rw [hemit] at hctx
            have hrest := ih (i + 1) g'
            rwa [show g'.ctx = _ from hctx] at hrest

/-! ## The chunks together -/

section
variable (M : LlamaModel L) (ok : Nat → Bool) (prompt_tokens : List LlamaToken) (n_past seq : Nat)

theorem prefill_batch_append (start a b : Nat) :
    prefill_batch prompt_tokens n_past seq start (a + b) =
      prefill_batch prompt_tokens n_past seq start a ++ prefill_batch prompt_tokens n_past seq (start + a) b := by
  simp [prefill_batch, List.range_add, Nat.add_assoc]

theorem length_prefill_batch (start len : Nat) : (prefill_batch prompt_tokens n_past seq start len).length = len := by
  simp [prefill_batch]

/-- The batches are one batch cut into chunks, which ends with the prompt when no
decode fails. -/
theorem prefill_calls_flatten (rounds chunk start : Nat) :
    ∃ len ≤ n_feed prompt_tokens n_past - start,
      (prefill_calls M ok prompt_tokens n_past seq rounds chunk start).flatten =
        prefill_batch prompt_tokens n_past seq start len ∧
      ((∀ k, start + k * n_chunk M prompt_tokens n_past < n_feed prompt_tokens n_past → ok (chunk + k) = true) →
        n_feed prompt_tokens n_past ≤ start + rounds → len = n_feed prompt_tokens n_past - start) := by
  induction rounds generalizing chunk start with
  | zero => exact ⟨0, by omega, rfl, fun _ _ => by omega⟩
  | succ rounds ih =>
    have hchunk := n_chunk_pos M prompt_tokens n_past
    unfold prefill_calls
    by_cases hstart : start < n_feed prompt_tokens n_past
    · rw [if_pos hstart]
      dsimp only
      rw [List.flatten_cons]
      cases hok : ok chunk with
      | false =>
        refine ⟨_, Nat.min_le_right _ _, by rw [if_neg Bool.false_ne_true, List.flatten_nil, List.append_nil], fun hall _ => ?_⟩
        have := hall 0 (by omega)
        rw [Nat.add_zero, hok] at this
        cases this
      | true =>
        obtain ⟨len, hlen, hflatten, hlast⟩ := ih (chunk + 1) (start + n_chunk M prompt_tokens n_past)
        rw [if_pos rfl, hflatten]
        have hrest : (∀ k, start + k * n_chunk M prompt_tokens n_past < n_feed prompt_tokens n_past → ok (chunk + k) = true) →
            ∀ k, start + n_chunk M prompt_tokens n_past + k * n_chunk M prompt_tokens n_past < n_feed prompt_tokens n_past →
              ok (chunk + 1 + k) = true := by
          intro hall k hk
          rw [show chunk + 1 + k = chunk + (k + 1) by omega]
          exact hall (k + 1) (by rw [Nat.succ_mul]; omega)
        by_cases hle : n_chunk M prompt_tokens n_past ≤ n_feed prompt_tokens n_past - start
        · rw [Nat.min_eq_left hle, ← prefill_batch_append]
          refine ⟨_, by omega, rfl, fun hall hrounds => ?_⟩
          have := hlast (hrest hall) (by omega)
          omega
        · -- the last chunk is shorter, and nothing comes after it
          obtain rfl : len = 0 := by omega
          rw [Nat.min_eq_right (by omega)]
          exact ⟨_, Nat.le_refl _, by simp [prefill_batch], fun _ _ => rfl⟩
    · rw [if_neg hstart]
      exact ⟨0, Nat.zero_le _, rfl, fun _ _ => by omega⟩

theorem prefill_calls_sized (rounds chunk start : Nat) :
    ∀ batch ∈ prefill_calls M ok prompt_tokens n_past seq rounds chunk start, 1 ≤ batch.length ∧ batch.length ≤ M.n_batch := by
  induction rounds generalizing chunk start with
  | zero => exact fun _ h => absurd h List.not_mem_nil
  | succ rounds ih =>
    unfold prefill_calls
    split
    · refine List.forall_mem_cons.2 ⟨?_, ?_⟩
      · have hchunk := n_chunk_pos M prompt_tokens n_past
        have hbatch : n_chunk M prompt_tokens n_past ≤ M.n_batch := Nat.min_le_right _ _
        rw [length_prefill_batch]
        omega
      · split
        · exact ih _ _
        · exact fun _ h => absurd h List.not_mem_nil
    · exact fun _ h => absurd h List.not_mem_nil

end

/-- Each round feeds one token, at the position after the last. -/
theorem generate_calls_ids (M : LlamaModel L) (ok : Nat → Bool) (seq : Nat) (on_token : Option (Bytes → Hook σ))
    (stops : Option (List Bytes)) (rounds i : Nat) (g : Gen L σ) :
    ∃ ids : List LlamaToken, ids.length ≤ rounds ∧
      generate_calls M ok seq on_token stops rounds i g = ids.mapIdx fun k id => step_batch seq id (g.n_total + k) := by
  induction rounds generalizing i g with
  | zero => exact ⟨[], Nat.le_refl _, rfl⟩
  | succ rounds ih =>
    unfold generate_calls
    dsimp only
    by_cases he : llama_sampler_sample M g.ctx = M.eos
    · exact ⟨[], Nat.zero_le _, by rw [if_pos he]; rfl⟩
    · rw [if_neg he]
      have hlast : ∃ ids : List LlamaToken, ids.length ≤ rounds + 1 ∧
          [step_batch seq (llama_sampler_sample M g.ctx) g.n_total] =
            ids.mapIdx fun k id => step_batch seq id (g.n_total + k) := ⟨[_], by simp, rfl⟩
      split
      · exact hlast
      · split
        · exact hlast
        · obtain ⟨captured, emitted, sent, hframe⟩ :=
            emit_frame on_token (roundText M on_token stops (feed M seq g)) (feed M seq g)
          have htotal := congrArg Gen.n_total hframe
          split
          · exact hlast
          · rename_i g' hemit
            rw [hemit] at htotal
            obtain ⟨ids, hlen, hrest⟩ := ih (i + 1) g'
            rw [show g'.n_total = g.n_total + 1 from htotal] at hrest
            refine ⟨llama_sampler_sample M g.ctx :: ids, Nat.succ_le_succ hlen, ?_⟩
            rw [hrest, List.mapIdx_cons]
            simp only [Nat.add_zero, Nat.add_assoc, Nat.add_comm 1]

/-! ## Their positions -/

/-- All positions of the batches are below `n`. -/
def Below (n : Nat) (calls : List LlamaBatch) : Prop := ∀ batch ∈ calls, ∀ b ∈ batch, b.pos < n

theorem Below.mono {n n' : Nat} {calls : List LlamaBatch} (h : Below n calls) (hn : n ≤ n') : Below n' calls :=
  fun batch hbatch b hb => lt_of_lt_of_le (h batch hbatch b hb) hn

theorem prefill_calls_below (M : LlamaModel L) (ok : Nat → Bool) (prompt_tokens : List LlamaToken) (n_past seq : Nat)
    (rounds chunk start : Nat) :
    Below prompt_tokens.length (prefill_calls M ok prompt_tokens n_past seq rounds chunk start) := by
  intro batch hbatch b hb
  obtain ⟨len, hlen, hflatten, -⟩ := prefill_calls_flatten M ok prompt_tokens n_past seq rounds chunk start
  have hmem := List.mem_flatten_of_mem hbatch hb
  rw [hflatten] at hmem
  obtain ⟨i, hi, rfl⟩ := List.mem_map.1 hmem
  rw [List.mem_range] at hi
  unfold n_feed at hlen
  show n_past + start + i < prompt_tokens.length
  omega

theorem steps_below (seq n : Nat) {ids : List LlamaToken} {rounds : Nat} (hlen : ids.length ≤ rounds) :
    Below (n + rounds) (ids.mapIdx fun k id => step_batch seq id (n + k)) := by
  intro batch hbatch b hb
  obtain ⟨k, hk, rfl⟩ := List.mem_mapIdx.1 hbatch
  obtain rfl := List.mem_singleton.1 hb
  show n + k < n + rounds
  omega

/-- When no decode fails, prefill passes the last position of the prompt. -/
theorem prefill_calls_last (M : LlamaModel L) {ok : Nat → Bool} (hok : ∀ k, ok k = true) (prompt_tokens : List LlamaToken)
    (n_past seq : Nat) {rounds chunk start : Nat} (hstart : start < n_feed prompt_tokens n_past)
    (hrounds : n_feed prompt_tokens n_past ≤ start + rounds) :
    ∃ batch ∈ prefill_calls M ok prompt_tokens n_past seq rounds chunk start, ∃ b ∈ batch,
      b.pos + 1 = prompt_tokens.length := by
  obtain ⟨len, -, hflatten, hlast⟩ := prefill_calls_flatten M ok prompt_tokens n_past seq rounds chunk start
  obtain rfl := hlast (fun k _ => hok (chunk + k)) hrounds
  have hmem : _ ∈ prefill_batch prompt_tokens n_past seq start (n_feed prompt_tokens n_past - start) :=
    List.mem_map_of_mem (List.mem_range.2 (show n_feed prompt_tokens n_past - start - 1 < _ by omega))
  rw [← hflatten, List.mem_flatten] at hmem
  obtain ⟨batch, hbatch, hb⟩ := hmem
  refine ⟨batch, hbatch, _, hb, ?_⟩
  unfold n_feed at hstart ⊢
  show n_past + start + (prompt_tokens.length - n_past - start - 1) + 1 = prompt_tokens.length
  omega

/-! ## The guard -/

/-- Where the guard is right: a negative `max_tokens` may wrap the sum below
`n_ctx`, which lets through a prompt that is too long. -/
def GuardHolds (n_ctx n_prompt : Nat) (max_tokens : Int) : Prop :=
  0 ≤ max_tokens ∨ n_prompt ≤ n_ctx ∨ n_prompt + max_tokens < 0 ∨ (n_ctx : Int) ≤ n_prompt + max_tokens

theorem u32_nat {n : Nat} (h : n < 4294967296) : u32 n = n := by
  unfold u32
  omega

theorem i32_nat {n : Nat} (h : n < 2147483648) : i32 n = n :=
  Int.bmod_eq_of_le (by omega) (by omega)

theorem i32_le (n : Nat) : i32 n ≤ n := by
  rw [i32, Int.bmod_eq_emod]
  split <;> omega

section
variable {M : LlamaModel L} (hctx : M.n_ctx < 4294967296) {n_prompt : Nat} (hprompt : n_prompt < 2147483648)
  {max_tokens : Int} (hmin : -2147483648 ≤ max_tokens) (hmax : max_tokens < 2147483648)
include hctx hprompt hmin hmax

/-- What the guard lets through stays in the context. -/
theorem context_guard_some (hguard : GuardHolds M.n_ctx n_prompt max_tokens) {m : Int}
    (h : context_guard M n_prompt max_tokens = some m) : n_prompt + m.toNat ≤ M.n_ctx := by
  unfold GuardHolds at hguard
  unfold context_guard at h
  have hle := i32_le M.n_ctx
  rw [u32_nat (by omega), i32_nat hprompt] at h
  dsimp only at h
  split at h
  · split at h
    · cases h
    · obtain rfl := Option.some.inj h
      omega
  · obtain rfl := Option.some.inj h
    unfold u32 at *
    omega

/-- A prompt that is too long and passes the guard. -/
theorem context_guard_wraps (hguard : ¬ GuardHolds M.n_ctx n_prompt max_tokens) :
    context_guard M n_prompt max_tokens = some max_tokens := by
  unfold GuardHolds at hguard
  unfold context_guard
  rw [u32_nat (by omega), if_neg]
  unfold u32
  omega

end

/-! ## A request -/

theorem complete_calls_run {M : LlamaModel L} {s : Server L} {w : World} {req : Request} {hooks : StreamHooks σ} {captured : σ}
    {prompt_tokens : List LlamaToken} (htokens : tokenize_prompt M req.prompt = some prompt_tokens) {max_tokens : Int}
    (hguard : context_guard M prompt_tokens.length req.max_tokens = some max_tokens) :
    ∃ ids : List LlamaToken, ids.length ≤ max_tokens.toNat ∧ complete_calls M s w req hooks captured =
        prefill_calls M w.prefill_ok prompt_tokens (open_session w req prompt_tokens s).n_past
          (open_session w req prompt_tokens s).seq (n_feed prompt_tokens (open_session w req prompt_tokens s).n_past) 0 0 ++
        ids.mapIdx fun k id => step_batch (open_session w req prompt_tokens s).seq id (prompt_tokens.length + k) := by
  simp only [complete_calls, htokens, hguard]
  split
  · split
    · exact ⟨[], Nat.zero_le _, rfl⟩
    · obtain ⟨ids, hlen, hcalls⟩ := generate_calls_ids M w.step_ok _ _ _ _ _ _
      exact ⟨ids, hlen, by rw [hcalls]⟩
  · exact ⟨[], Nat.zero_le _, rfl⟩

/-- For a prompt of any length, every 32-bit `max_tokens` and every size of the
context, all positions are in the context exactly where the guard is right. -/
theorem positions_in_context_iff (M : LlamaModel L) (hctx : M.n_ctx < 4294967296) {prompt : Bytes}
    {prompt_tokens : List LlamaToken} (htokens : tokenize_prompt M prompt = some prompt_tokens)
    (hprompt : prompt_tokens.length < 2147483648) {max_tokens : Int} (hmin : -2147483648 ≤ max_tokens)
    (hmax : max_tokens < 2147483648) :
    (∀ (s : Server L) (w : World) (req : Request) (σ : Type) (hooks : StreamHooks σ) (captured : σ), req.prompt = prompt →
      req.max_tokens = max_tokens → Below M.n_ctx (complete_calls M s w req hooks captured)) ↔
    GuardHolds M.n_ctx prompt_tokens.length max_tokens := by
  constructor
  · intro hall
    by_contra hguard
    have hlet := context_guard_wraps hctx hprompt hmin hmax hguard
    -- the first request of a fresh server, without a session, decodes the whole prompt
    let req : Request := ⟨prompt, max_tokens, "", false, none⟩
    have hbelow := hall (load_model M) (.calm 0) req Unit .none () rfl rfl
    obtain ⟨ids, -, hcalls⟩ :=
      @complete_calls_run _ _ M (load_model M) (.calm 0) req .none () prompt_tokens htokens max_tokens hlet
    have hopen : (open_session (.calm 0) req prompt_tokens (load_model M)).n_past = 0 := by
      simp [open_session, resolve_session, req]
    unfold GuardHolds at hguard
    have hlast := @prefill_calls_last _ M (fun _ => true) (fun _ => rfl) prompt_tokens 0
      (open_session (.calm 0) req prompt_tokens (load_model M)).seq (n_feed prompt_tokens 0) 0 0
    obtain ⟨batch, hbatch, b, hb, hpos⟩ := hlast (by unfold n_feed; omega) (by omega)
    rw [hcalls, hopen] at hbelow
    have hlt := hbelow batch (List.mem_append_left _ hbatch) b hb
    omega
  · rintro hguard s w req σ hooks captured rfl rfl
    cases hlet : context_guard M prompt_tokens.length req.max_tokens with
    | none =>
      simp only [complete_calls, htokens, hlet]
      exact fun _ h => absurd h List.not_mem_nil
    | some m =>
      have hfits := context_guard_some hctx hprompt hmin hmax hguard hlet
      obtain ⟨ids, hlen, hcalls⟩ := @complete_calls_run _ _ M s w req hooks captured prompt_tokens htokens m hlet
      rw [hcalls]
      refine List.forall_mem_append.2 ⟨?_, (steps_below _ _ hlen).mono hfits⟩
      exact (prefill_calls_below M w.prefill_ok prompt_tokens _ _ _ 0 0).mono (by omega)

/-- A context of four tokens. -/
def tinyModel : LlamaModel (List LlamaToken) := { toyModel with n_ctx := 4 }

theorem positions_in_context_iff_tiny :
    GuardHolds 4 3 (-1) ∧
    ∀ (s : Server (List LlamaToken)) (w : World) (req : Request) (σ : Type) (hooks : StreamHooks σ) (captured : σ),
      req.prompt = [1, 2, 3] → req.max_tokens = -1 → Below 4 (complete_calls tinyModel s w req hooks captured) := by
  have htokens : tokenize_prompt tinyModel [1, 2, 3] = some [1, 2, 3] := by decide
  have hguard : GuardHolds 4 3 (-1) := .inr (.inl (by decide))
  exact ⟨hguard, (positions_in_context_iff tinyModel (by decide) htokens (by decide) (by decide) (by decide)).2 hguard⟩

/-- Five tokens and `max_tokens` of -2 sum to 3. -/
theorem long_prompt_passes_guard :
    ¬ ∀ (s : Server (List LlamaToken)) (w : World) (req : Request) (σ : Type) (hooks : StreamHooks σ) (captured : σ),
      req.prompt = [1, 2, 3, 4, 5] → req.max_tokens = -2 → Below 4 (complete_calls tinyModel s w req hooks captured) := by
  intro hall
  have hbelow := hall (load_model tinyModel) (.calm 0) ⟨[1, 2, 3, 4, 5], -2, "", false, none⟩ Unit .none () rfl rfl
  exact absurd (hbelow _ (List.getLast_mem (by decide)) ⟨5, 4, 0, true⟩ (by decide)) (by decide)

/-! ## The prompt is covered -/

/-- The batches feed the prompt from `n_past` on to one sequence, and ask for the
logits of its last token only. -/
structure Covers (M : LlamaModel L) (prompt_tokens : List LlamaToken) (n_past seq : Nat) (calls : List LlamaBatch) : Prop where
  sized : ∀ batch ∈ calls, 1 ≤ batch.length ∧ batch.length ≤ M.n_batch
  tokens : calls.flatten.map (·.token) = prompt_tokens.drop n_past
  positions : calls.flatten.map (·.pos) = List.range' n_past (prompt_tokens.length - n_past)
  sequence : ∀ b ∈ calls.flatten, b.seq_id = seq
  flagged : calls.flatten.map (·.logits) = List.replicate (prompt_tokens.length - n_past - 1) false ++ [true]

section
variable (prompt_tokens : List LlamaToken) (n_past seq : Nat)

theorem prefill_batch_tokens :
    (prefill_batch prompt_tokens n_past seq 0 (n_feed prompt_tokens n_past)).map (·.token) = prompt_tokens.drop n_past := by
  refine List.ext_getElem (by simp [prefill_batch, n_feed]) fun i hi _ => ?_
  simp only [prefill_batch, List.map_map, List.length_map, List.length_range, n_feed] at hi
  simp [prefill_batch, List.getD_eq_getElem?_getD, List.getElem?_eq_getElem (show n_past + i < prompt_tokens.length by omega)]

theorem prefill_batch_positions :
    (prefill_batch prompt_tokens n_past seq 0 (n_feed prompt_tokens n_past)).map (·.pos) =
      List.range' n_past (prompt_tokens.length - n_past) := by
  simp [prefill_batch, n_feed, List.range'_eq_map_range, Function.comp_def]

theorem prefill_batch_flagged (hpast : n_past < prompt_tokens.length) :
    (prefill_batch prompt_tokens n_past seq 0 (n_feed prompt_tokens n_past)).map (·.logits) =
      List.replicate (prompt_tokens.length - n_past - 1) false ++ [true] := by
  obtain ⟨n, hn⟩ : ∃ n, n_feed prompt_tokens n_past = n + 1 := ⟨_, (Nat.succ_pred_eq_of_pos (Nat.sub_pos_of_lt hpast)).symm⟩
  have hlen : prompt_tokens.length - n_past - 1 = n := by
    unfold n_feed at hn
    omega
  rw [hlen, prefill_batch, hn, List.range_succ, List.map_append, List.map_append, List.map_map]
  congr 1
  · refine List.eq_replicate_iff.2 ⟨by simp, fun flag hflag => ?_⟩
    obtain ⟨i, hi, rfl⟩ := List.mem_map.1 hflag
    have := List.mem_range.1 hi
    simp only [Function.comp_apply, decide_eq_false_iff_not]
    omega
  · simp

end

/-- Prefill covers the prompt, whatever its length and the size of the chunks, and
generation goes on at the positions after it, on the sequence of the session. -/
theorem prefill_covers (M : LlamaModel L) {prompt_tokens : List LlamaToken} {n_past : Nat}
    (hpast : n_past < prompt_tokens.length) (seq : Nat) {ok : Nat → Bool}
    (hok : ∀ k, k * n_chunk M prompt_tokens n_past < n_feed prompt_tokens n_past → ok k = true) :
    Covers M prompt_tokens n_past seq
      (prefill_calls M ok prompt_tokens n_past seq (n_feed prompt_tokens n_past) 0 0) ∧
    ∀ (s : Server L) (w : World) (req : Request) (σ : Type) (hooks : StreamHooks σ) (captured : σ) (max_tokens : Int),
      tokenize_prompt M req.prompt = some prompt_tokens →
      context_guard M prompt_tokens.length req.max_tokens = some max_tokens →
      (open_session w req prompt_tokens s).n_past = n_past → (open_session w req prompt_tokens s).seq = seq →
      w.prefill_ok = ok →
      (∀ sess ∈ (open_session w req prompt_tokens s).sess, sess.seq_id = seq) ∧
      ∃ ids : List LlamaToken, complete_calls M s w req hooks captured =
        prefill_calls M ok prompt_tokens n_past seq (n_feed prompt_tokens n_past) 0 0 ++
        ids.mapIdx fun k id => [⟨id, prompt_tokens.length + k, seq, true⟩] := by
  refine ⟨?_, ?_⟩
  · obtain ⟨len, -, hflatten, hlast⟩ := prefill_calls_flatten M ok prompt_tokens n_past seq (n_feed prompt_tokens n_past) 0 0
    obtain rfl := hlast (fun k hk => by
      rw [Nat.zero_add] at hk ⊢
      exact hok k hk) (Nat.le_add_left _ _)
    rw [Nat.sub_zero] at hflatten
    constructor
    · exact prefill_calls_sized M ok prompt_tokens n_past seq _ _ _
    · rw [hflatten, prefill_batch_tokens]
    · rw [hflatten, prefill_batch_positions]
    · rw [hflatten]
      exact prefill_batch_seq prompt_tokens n_past seq _ _
    · rw [hflatten, prefill_batch_flagged prompt_tokens n_past seq hpast]
  · rintro s w req σ hooks captured max_tokens htokens hguard rfl rfl rfl
    obtain ⟨ids, -, hcalls⟩ := @complete_calls_run _ _ M s w req hooks captured prompt_tokens htokens max_tokens hguard
    refine ⟨fun sess hsess => ?_, ids, hcalls⟩
    unfold open_session at hsess ⊢
    split at hsess
    · dsimp only at hsess ⊢
      split at hsess <;> rename_i hkeep
      · obtain rfl := Option.some.inj hsess
        rw [if_pos hkeep]
      · obtain rfl := Option.some.inj hsess
        rw [if_neg hkeep]
    · cases hsess

/-- The second request of a session. Four of its tokens are in the cache. -/
theorem prefill_covers_second_request :
    let s := ((plainCall 0 "a" [1, 2, 3] 1).run toyModel (load_model toyModel)).server
    let req : Request := ⟨[1, 2, 3, 3, 9, 8, 7, 6], 2, "a", false, none⟩
    let chunks : List LlamaBatch := [[⟨9, 4, 1, false⟩, ⟨8, 5, 1, false⟩], [⟨7, 6, 1, false⟩, ⟨6, 7, 1, true⟩]]
    Covers toyModel [1, 2, 3, 3, 9, 8, 7, 6] 4 1 chunks ∧
    ∃ ids : List LlamaToken, complete_calls toyModel s (.calm 1) req (.none : StreamHooks Unit) () =
      chunks ++ ids.mapIdx fun k id => [⟨id, 8 + k, 1, true⟩] := by
  intro s req chunks
  obtain ⟨hcovers, hall⟩ := @prefill_covers _ toyModel [1, 2, 3, 3, 9, 8, 7, 6] 4 (by decide) 1 (fun _ => true) (fun _ _ => rfl)
  exact ⟨hcovers, (hall s (.calm 1) req Unit .none () 2 (by decide) (by decide) (by decide) (by decide) rfl).2⟩

end Hostely.Inference
