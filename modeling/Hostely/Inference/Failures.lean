import Hostely.Inference.Answer
import Hostely.Inference.Completions
import Hostely.Inference.Positions
/-!
# What a 503 says

`complete_stream` reports a failure by returning no text, and a model that ends
the sequence at once returns none either. The plain handlers tell the two apart
by the counters, which are the same too.
-/

open Hostely.Lib

namespace Hostely.Inference

variable {L : Type}

/-! ## The answer of a model -/

section Answer
variable (M : LlamaModel L) (s : Server L) (w : World) (req : Request)

/-- What the model answers to a request on this server. -/
def model_answer : List LlamaToken :=
  let prompt := M.tokenizer req.prompt
  match context_guard M prompt.length req.max_tokens with
  | some max_tokens => if prompt = [] then [] else answer_to M req prompt max_tokens (open_session w req prompt s)
  | none => []

def answer_text : Bytes := detokenize M (model_answer M s w req)

def answer_stats : CompletionStats := ⟨(M.tokenizer req.prompt).length, (model_answer M s w req).length⟩

/-- Some chunk of its prompt, if it comes to that, fails to decode. -/
def PrefillDecodeFails : Prop :=
  (context_guard M (M.tokenizer req.prompt).length req.max_tokens).isSome = true ∧
    PrefillFails M w (M.tokenizer req.prompt) (open_session w req (M.tokenizer req.prompt) s)

/-- The prompt is let through, and the first token sampled does not end the sequence. -/
def Speaks : Prop :=
  (context_guard M (M.tokenizer req.prompt).length req.max_tokens).isSome = true ∧
    M.greedy (first_logits M (M.tokenizer req.prompt) (open_session w req (M.tokenizer req.prompt) s)) ≠ M.eos

/-- With its prompt the request leaves room for a token. -/
def Fits : Prop := (M.tokenizer req.prompt).length + 1 < M.n_ctx

instance : Decidable (Fits M req) := inferInstanceAs (Decidable (_ < _))

end Answer

section Answer
variable {M : LlamaModel L} {s : Server L} {w : World} {req : Request}

theorem model_answer_no_prompt (hp : M.tokenizer req.prompt = []) : model_answer M s w req = [] := by
  simp only [model_answer, hp]
  split <;> rfl

theorem model_answer_exhausted (hg : context_guard M (M.tokenizer req.prompt).length req.max_tokens = none) :
    model_answer M s w req = [] := by
  simp only [model_answer, hg]

theorem model_answer_run (hp : M.tokenizer req.prompt ≠ []) {max_tokens : Int}
    (hg : context_guard M (M.tokenizer req.prompt).length req.max_tokens = some max_tokens) :
    model_answer M s w req =
      answer_to M req (M.tokenizer req.prompt) max_tokens (open_session w req (M.tokenizer req.prompt) s) := by
  simp only [model_answer, hg, if_neg hp]

/-- With no failing decode the call returns it, whichever way it ends. -/
theorem complete_stream_returns (hw : NoDecodeFails w) :
    (complete_stream M s w req StreamHooks.none ()).exit.text = some (answer_text M s w req) ∧
      (complete_stream M s w req StreamHooks.none ()).stats = answer_stats M s w req := by
  unfold answer_text answer_stats
  by_cases hp : M.tokenizer req.prompt = []
  · rw [complete_stream_no_prompt M s w req StreamHooks.none () hp, model_answer_no_prompt hp, hp]
    exact ⟨rfl, rfl⟩
  cases hg : context_guard M (M.tokenizer req.prompt).length req.max_tokens with
  | none =>
    rw [complete_stream_exhausted M s w req StreamHooks.none () hp hg, model_answer_exhausted hg]
    exact ⟨rfl, rfl⟩
  | some max_tokens =>
    obtain ⟨hexit, hstats, _⟩ := @complete_stream_answer L M s w req hp max_tokens hg hw
    rw [model_answer_run hp hg, hexit, hstats]
    exact ⟨rfl, rfl⟩

/-- A prefill that fails leaves a prompt without an answer. -/
theorem prefill_decode_fails (h : PrefillDecodeFails M s w req) :
    (complete_stream M s w req StreamHooks.none ()).exit.text = some [] ∧
      (complete_stream M s w req StreamHooks.none ()).stats.prompt_tokens > 0 ∧
      (complete_stream M s w req StreamHooks.none ()).stats.completion_tokens = 0 := by
  obtain ⟨hg, hfails⟩ := h
  obtain ⟨max_tokens, hg⟩ := Option.isSome_iff_exists.1 hg
  have hp : M.tokenizer req.prompt ≠ [] := by
    intro hnil
    obtain ⟨k, hk, _⟩ := hfails
    simp [hnil, n_feed] at hk
  obtain ⟨hexit, hstats⟩ := @complete_stream_prefill_fails L M s w req hp max_tokens hg Unit StreamHooks.none () hfails
  rw [hexit, hstats]
  exact ⟨rfl, List.length_pos_iff.2 hp, rfl⟩

/-- The guard lets through what it does not cut to nothing. -/
theorem context_guard_pos {n_prompt : Nat} {max_tokens m : Int} (hmax : 1 ≤ max_tokens)
    (h : context_guard M n_prompt max_tokens = some m) : 0 < m := by
  unfold context_guard at h
  dsimp only at h
  split_ifs at h with hcut hnone
  · obtain rfl := Option.some.inj h
    omega
  · obtain rfl := Option.some.inj h
    omega

theorem model_answer_eq_nil (hmax : 1 ≤ req.max_tokens) :
    model_answer M s w req = [] ↔ M.tokenizer req.prompt = [] ∨ ¬ Speaks M s w req := by
  by_cases hp : M.tokenizer req.prompt = []
  · exact iff_of_true (model_answer_no_prompt hp) (.inl hp)
  unfold Speaks
  cases hg : context_guard M (M.tokenizer req.prompt).length req.max_tokens with
  | none => exact iff_of_true (model_answer_exhausted hg) (.inr (by simp))
  | some max_tokens =>
    have hpos := context_guard_pos hmax hg
    rw [model_answer_run hp hg, answer_to, answer_eq_nil (by omega)]
    simp [hp]

end Answer

/-! ## The handlers -/

/-- What the plain handlers share: a 503 when there is no text, for two of them
also only if no token was generated. -/
def unless_failed {R : Type} (counts : Bool) (failed : Option R) (reply : Bytes → CompletionStats → Option R)
    (C : Completion L Unit) : Option R :=
  let text := C.exit.text.getD []
  if text = [] ∧ C.stats.prompt_tokens > 0 ∧ (counts = true → C.stats.completion_tokens = 0) then failed
  else reply text C.stats

/-- A 503 means that inference failed: without failing decodes the reply has
what the model answers, and with one in the prefill it is the 503. -/
structure TellsFailure {R : Type} (M : LlamaModel L) (s : Server L) (w : World) (req : Request) (failed : R)
    (reply : Bytes → CompletionStats → R) (handled : Option R) : Prop where
  served : NoDecodeFails w → Fits M req → handled = some (reply (answer_text M s w req) (answer_stats M s w req))
  failed : PrefillDecodeFails M s w req → handled = some failed

theorem unless_failed_iff {R : Type} {M : LlamaModel L} {s : Server L} {w : World} {req : Request} {failed : R}
    {reply : Bytes → CompletionStats → R} (hne : ∀ text stats, reply text stats ≠ failed) {dump : R → Option R}
    (hdump : ∀ r, dump r = some r ∨ dump r = none) (counts : Bool) :
    TellsFailure M s w req failed reply (unless_failed counts (some failed) (fun text stats => dump (reply text stats))
      (complete_stream M s w req StreamHooks.none ())) ↔
    (NoDecodeFails w → Fits M req →
      (M.tokenizer req.prompt = [] ∨ answer_text M s w req ≠ [] ∨ (counts = true ∧ model_answer M s w req ≠ [])) ∧
        (dump (reply (answer_text M s w req) (answer_stats M s w req))).isSome = true) := by
  have hcond : (answer_text M s w req = [] ∧ (answer_stats M s w req).prompt_tokens > 0 ∧
      (counts = true → (answer_stats M s w req).completion_tokens = 0)) ↔
      ¬ (M.tokenizer req.prompt = [] ∨ answer_text M s w req ≠ [] ∨ (counts = true ∧ model_answer M s w req ≠ [])) := by
    simp only [answer_stats, gt_iff_lt, List.length_pos_iff, List.length_eq_zero_iff]
    tauto
  have hhandled : NoDecodeFails w →
      unless_failed counts (some failed) (fun text stats => dump (reply text stats))
        (complete_stream M s w req StreamHooks.none ()) =
      if M.tokenizer req.prompt = [] ∨ answer_text M s w req ≠ [] ∨ (counts = true ∧ model_answer M s w req ≠ []) then
        dump (reply (answer_text M s w req) (answer_stats M s w req))
      else some failed := by
    intro hw
    obtain ⟨htext, hstats⟩ := @complete_stream_returns L M s w req hw
    rw [unless_failed, htext, hstats, Option.getD_some, if_congr hcond rfl rfl, ite_not]
  constructor
  · intro h hw hfits
    have hserved := h.served hw hfits
    rw [hhandled hw] at hserved
    split_ifs at hserved with hspeaks
    · exact ⟨hspeaks, by rw [hserved]; rfl⟩
    · exact absurd (Option.some.inj hserved).symm (hne _ _)
  · intro h
    refine ⟨fun hw hfits => ?_, fun hfails => ?_⟩
    · obtain ⟨hspeaks, hdumps⟩ := h hw hfits
      rw [hhandled hw, if_pos hspeaks]
      rcases hdump (reply (answer_text M s w req) (answer_stats M s w req)) with hd | hd
      · exact hd
      · rw [hd] at hdumps
        cases hdumps
    · obtain ⟨htext, hprompt, hnone⟩ := prefill_decode_fails hfails
      rw [unless_failed, htext]
      exact if_pos ⟨rfl, hprompt, fun _ => hnone⟩

/-- The message of a text. -/
def MessagesRequest.reply (r : MessagesRequest) (gen_id : Nat → Bytes) (text : Bytes) (stats : CompletionStats) : Reply :=
  let parsed := r.chat_params.final_parse (apply_stops r.chat_params.additional_stops text)
  .message r.id r.model_name (make_blocks r.chat_params gen_id parsed).1 (make_blocks r.chat_params gen_id parsed).2 stats

def Reply.dump : Reply → Option Reply
  | .overloaded => some .overloaded
  | .message id model content stop_reason usage =>
    if validUtf8 model ∧ ∀ b ∈ content, ∀ t ∈ b.strings, validUtf8 t then
      some (.message id model content stop_reason usage)
    else none

section Handlers
variable {M : LlamaModel L} {s : Server L} {w : World}

theorem handle_messages_plain_eq (r : MessagesRequest) (gen_id : Nat → Bytes) :
    handle_messages_plain M s w r gen_id =
      unless_failed true (some .overloaded) (fun text stats => (r.reply gen_id text stats).dump)
        (complete_stream M s w r.completion StreamHooks.none ()) := by
  unfold handle_messages_plain unless_failed
  dsimp only
  refine if_congr (by simp) rfl ?_
  rfl

theorem inference_failed_dumps : validUtf8 inference_failed = true := validUtf8_bytes _

theorem handle_chat_plain_eq (r : ChatRequest) (gen_id : Nat → Bytes) :
    handle_chat_plain M s w r gen_id =
      unless_failed true (some (.error 503 inference_failed)) (fun text stats => (r.reply gen_id text stats).dump)
        (complete_stream M s w r.completion StreamHooks.none ()) := by
  have hfailed : (ChatReply.error 503 inference_failed).dump = some (.error 503 inference_failed) :=
    if_pos (by simp [ChatReply.strings, inference_failed_dumps])
  unfold handle_chat_plain unless_failed
  dsimp only
  rw [hfailed]
  exact if_congr (by simp) rfl rfl

/-- A request in JSON with a prompt. -/
theorem handle_completions_eq (model_name : Bytes) {parse : Bytes → Except Bytes Json} {body : Bytes} {json : Json}
    (hbody : parse body = .ok json) {prompt : Bytes} (hprompt : json.value_string (bytes "prompt") [] = some prompt)
    (hne : prompt ≠ []) {max_tokens : Int32} (hmax : json.value_int (bytes "max_tokens") 256 = some max_tokens) :
    handle_completions M s w model_name parse body =
      unless_failed false (some (.error 503 inference_failed))
        (fun text stats => (CompletionReply.completion model_name text stats).dump)
        (complete_stream M s w ⟨prompt, max_tokens.toInt, "", false, none⟩ StreamHooks.none ()) := by
  have hfailed : (CompletionReply.error 503 inference_failed).dump = some (.error 503 inference_failed) :=
    if_pos (by simp [CompletionReply.strings, inference_failed_dumps])
  unfold handle_completions unless_failed complete
  rw [hbody]
  simp only [hprompt, hmax, hfailed, bind, Option.bind]
  rw [if_neg hne]
  exact if_congr (by simp) rfl rfl

end Handlers

/-- The guard lets through a prompt that fits, unless the context is longer
than an `int` counts. -/
theorem speaks_iff {M : LlamaModel L} {s : Server L} {w : World} {req : Request} (hctx : M.n_ctx < 2147483648)
    (hfits : Fits M req) :
    Speaks M s w req ↔
      M.greedy (first_logits M (M.tokenizer req.prompt) (open_session w req (M.tokenizer req.prompt) s)) ≠ M.eos := by
  have hsome : (context_guard M (M.tokenizer req.prompt).length req.max_tokens).isSome = true := by
    unfold Fits at hfits
    unfold context_guard
    rw [u32_nat (by omega), i32_nat hctx, i32_nat (by omega)]
    dsimp only
    split_ifs with hcut hnone
    · omega
    · rfl
    · rfl
  exact and_iff_right hsome

section Handlers
variable {M : LlamaModel L} {s : Server L} {w : World}

/-- With the tokens counted there is a 503 just if there are none. -/
theorem counted_iff {req : Request} (hmax : 1 ≤ req.max_tokens) :
    (M.tokenizer req.prompt = [] ∨ answer_text M s w req ≠ [] ∨ (true = true ∧ model_answer M s w req ≠ [])) ↔
      (M.tokenizer req.prompt = [] ∨ Speaks M s w req) := by
  have hnil := @model_answer_eq_nil L M s w req hmax
  have htext : model_answer M s w req = [] → answer_text M s w req = [] := fun h => by rw [answer_text, h]; rfl
  tauto

theorem messages_failure_iff (r : MessagesRequest) (gen_id : Nat → Bytes) (hmax : 1 ≤ r.max_tokens) :
    TellsFailure M s w r.completion .overloaded (r.reply gen_id) (handle_messages_plain M s w r gen_id) ↔
      (NoDecodeFails w → Fits M r.completion → (M.tokenizer r.completion.prompt = [] ∨ Speaks M s w r.completion) ∧
        (r.reply gen_id (answer_text M s w r.completion) (answer_stats M s w r.completion)).dump.isSome = true) := by
  have hne : ∀ text stats, r.reply gen_id text stats ≠ .overloaded := fun _ _ h => by cases h
  have hdump : ∀ x : Reply, x.dump = some x ∨ x.dump = none := by
    intro x
    cases x with
    | overloaded => exact .inl rfl
    | message => exact ite_eq_or_eq _ _ _
  rw [handle_messages_plain_eq, unless_failed_iff hne hdump, counted_iff hmax]

theorem chat_failure_iff (r : ChatRequest) (gen_id : Nat → Bytes) (hmax : 1 ≤ r.max_tokens) :
    TellsFailure M s w r.completion (.error 503 inference_failed) (r.reply gen_id) (handle_chat_plain M s w r gen_id) ↔
      (NoDecodeFails w → Fits M r.completion → (M.tokenizer r.completion.prompt = [] ∨ Speaks M s w r.completion) ∧
        (r.reply gen_id (answer_text M s w r.completion) (answer_stats M s w r.completion)).dump.isSome = true) := by
  have hne : ∀ text stats, r.reply gen_id text stats ≠ .error 503 inference_failed := by
    intro text stats h
    unfold ChatRequest.reply at h
    dsimp only at h
    split_ifs at h
  have hdump : ∀ x : ChatReply, x.dump = some x ∨ x.dump = none := fun _ => ite_eq_or_eq _ _ _
  rw [handle_chat_plain_eq, unless_failed_iff hne hdump, counted_iff hmax]

theorem completions_failure_iff (model_name : Bytes) {parse : Bytes → Except Bytes Json} {body : Bytes} {json : Json}
    (hbody : parse body = .ok json) {prompt : Bytes} (hprompt : json.value_string (bytes "prompt") [] = some prompt)
    (hne : prompt ≠ []) {max_tokens : Int32} (hmax : json.value_int (bytes "max_tokens") 256 = some max_tokens)
    {req : Request} (hreq : req = ⟨prompt, max_tokens.toInt, "", false, none⟩) :
    TellsFailure M s w req (.error 503 inference_failed) (.completion model_name)
        (handle_completions M s w model_name parse body) ↔
      (NoDecodeFails w → Fits M req → (M.tokenizer req.prompt = [] ∨ answer_text M s w req ≠ []) ∧
        (CompletionReply.completion model_name (answer_text M s w req) (answer_stats M s w req)).dump.isSome =
          true) := by
  have hfailed : ∀ text stats, CompletionReply.completion model_name text stats ≠ .error 503 inference_failed :=
    fun _ _ h => by cases h
  have hdump : ∀ x : CompletionReply, x.dump = some x ∨ x.dump = none := fun _ => ite_eq_or_eq _ _ _
  rw [handle_completions_eq model_name hbody hprompt hne hmax, ← hreq, unless_failed_iff hfailed hdump]
  simp

end Handlers

/-- A 503 means that inference failed, for the two handlers that count tokens,
exactly when a prompt's first token does not end the sequence, and for
`/v1/completions` when its answer has text; and the reply can be serialized. -/
theorem failure_told_iff (M : LlamaModel L) (s : Server L) (w : World) :
    (∀ (r : MessagesRequest) (gen_id : Nat → Bytes), 1 ≤ r.max_tokens →
      (TellsFailure M s w r.completion .overloaded (r.reply gen_id) (handle_messages_plain M s w r gen_id) ↔
        (NoDecodeFails w → Fits M r.completion →
          (M.tokenizer r.completion.prompt = [] ∨ Speaks M s w r.completion) ∧
            (r.reply gen_id (answer_text M s w r.completion) (answer_stats M s w r.completion)).dump.isSome = true))) ∧
    (∀ (r : ChatRequest) (gen_id : Nat → Bytes), 1 ≤ r.max_tokens →
      (TellsFailure M s w r.completion (.error 503 inference_failed) (r.reply gen_id)
          (handle_chat_plain M s w r gen_id) ↔
        (NoDecodeFails w → Fits M r.completion →
          (M.tokenizer r.completion.prompt = [] ∨ Speaks M s w r.completion) ∧
            (r.reply gen_id (answer_text M s w r.completion) (answer_stats M s w r.completion)).dump.isSome = true))) ∧
    (∀ (model_name : Bytes) (parse : Bytes → Except Bytes Json) (body : Bytes) (json : Json) (prompt : Bytes)
      (max_tokens : Int32) (req : Request), parse body = .ok json →
      json.value_string (bytes "prompt") [] = some prompt → prompt ≠ [] →
      json.value_int (bytes "max_tokens") 256 = some max_tokens →
      req = ⟨prompt, max_tokens.toInt, "", false, none⟩ →
      (TellsFailure M s w req (.error 503 inference_failed) (.completion model_name)
          (handle_completions M s w model_name parse body) ↔
        (NoDecodeFails w → Fits M req →
          (M.tokenizer req.prompt = [] ∨ answer_text M s w req ≠ []) ∧
            (CompletionReply.completion model_name (answer_text M s w req) (answer_stats M s w req)).dump.isSome =
              true))) :=
  ⟨messages_failure_iff, chat_failure_iff,
    fun model_name _ _ _ _ _ _ hbody hprompt hne hmax hreq =>
      completions_failure_iff model_name hbody hprompt hne hmax hreq⟩

/-- The conversation `7 8`, as text. -/
def textMessages : MessagesRequest := ⟨0, bytes "m", 2, "", textParams [7, 8]⟩

def textChat : ChatRequest := ⟨bytes "m", 2, "", textParams [7, 8]⟩

/-- The same prompt in JSON, read by a parser that knows nothing else. -/
def text_body (_ : Bytes) : Except Bytes Json := .ok (.obj [(bytes "prompt", .str [7, 8])])

theorem failure_told_iff_text :
    TellsFailure toyModel (load_model toyModel) (.calm 0) textMessages.completion .overloaded
      (textMessages.reply fun _ => [])
      (handle_messages_plain toyModel (load_model toyModel) (.calm 0) textMessages fun _ => []) ∧
    TellsFailure toyModel (load_model toyModel) (.calm 0) textChat.completion (.error 503 inference_failed)
      (textChat.reply fun _ => [])
      (handle_chat_plain toyModel (load_model toyModel) (.calm 0) textChat fun _ => []) ∧
    TellsFailure toyModel (load_model toyModel) (.calm 0) ⟨[7, 8], 256, "", false, none⟩
      (.error 503 inference_failed) (.completion (bytes "m"))
      (handle_completions toyModel (load_model toyModel) (.calm 0) (bytes "m") text_body []) := by
  obtain ⟨hmessages, hchat, hcompletions⟩ := failure_told_iff toyModel (load_model toyModel) (.calm 0)
  refine ⟨?_, ?_, ?_⟩
  · exact (hmessages textMessages (fun _ => []) (by decide)).2 fun _ _ => ⟨.inr ⟨rfl, by decide⟩, by decide +kernel⟩
  · exact (hchat textChat (fun _ => []) (by decide)).2 fun _ _ => ⟨.inr ⟨rfl, by decide⟩, by decide +kernel⟩
  · have hiff := hcompletions (bytes "m") text_body [] (.obj [(bytes "prompt", .str [7, 8])]) [7, 8] 256
      ⟨[7, 8], 256, "", false, none⟩ rfl (by decide) (by decide) (by decide) (by decide)
    exact hiff.2 fun _ _ => ⟨.inr (by decide +kernel), by decide +kernel⟩

/-- Ends the sequence at once. -/
def silentModel : LlamaModel (List LlamaToken) := spelling (fun _ => []) [] 0

/-- The prompt is decoded, the first token ends the sequence, and all three
handlers say that inference failed. -/
theorem silence_is_503 :
    ¬ TellsFailure silentModel (load_model silentModel) (.calm 0) textMessages.completion .overloaded
      (textMessages.reply fun _ => [])
      (handle_messages_plain silentModel (load_model silentModel) (.calm 0) textMessages fun _ => []) ∧
    ¬ TellsFailure silentModel (load_model silentModel) (.calm 0) textChat.completion (.error 503 inference_failed)
      (textChat.reply fun _ => [])
      (handle_chat_plain silentModel (load_model silentModel) (.calm 0) textChat fun _ => []) ∧
    ¬ TellsFailure silentModel (load_model silentModel) (.calm 0) ⟨[7, 8], 256, "", false, none⟩
      (.error 503 inference_failed) (.completion (bytes "m"))
      (handle_completions silentModel (load_model silentModel) (.calm 0) (bytes "m") text_body []) := by
  refine ⟨fun h => ?_, fun h => ?_, fun h => ?_⟩
  · exact absurd (h.served (calm_decodes 0) (by decide)) (by decide +kernel)
  · exact absurd (h.served (calm_decodes 0) (by decide)) (by decide +kernel)
  · exact absurd (h.served (calm_decodes 0) (by decide)) (by decide +kernel)

end Hostely.Inference
