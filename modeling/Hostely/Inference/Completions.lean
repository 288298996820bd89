import Hostely.Lib.Json
import Hostely.Inference.Messages
/-!
# /v1/completions and /v1/chat/completions

The handlers of the OpenAI protocol. The first reads its request from JSON and
never has a session; the second answers a conversation once it is rendered,
plain or as a stream of chunks. A reply that `json::dump` cannot serialize is
an exception, here `none`.
-/

open Hostely.Lib

namespace Hostely.Inference

/-- The error of a 503. -/
def inference_failed : Bytes :=
  bytes "inference failed; the KV pool may be exhausted — restart the server or retry with a shorter prompt"

/-! ## /v1/completions -/

inductive CompletionReply where
  | error (status : Nat) (what : Bytes)
  | completion (model text : Bytes) (usage : CompletionStats)
deriving DecidableEq, Repr

def CompletionReply.strings : CompletionReply → List Bytes
  | .error _ what => [what]
  | .completion model text _ => [model, text]

def CompletionReply.dump (r : CompletionReply) : Option CompletionReply :=
  if ∀ t ∈ r.strings, validUtf8 t then some r else none

section Completions
variable {L : Type} (M : LlamaModel L) (s : Server L) (w : World) (model_name : Bytes)

/-- `complete()`, which has neither hooks nor stop strings. -/
def complete (prompt : Bytes) (max_tokens : Int) (session_id : String) (allow_session_fallback : Bool) :
    Completion L Unit :=
  complete_stream M s w ⟨prompt, max_tokens, session_id, allow_session_fallback, none⟩ StreamHooks.none ()

/-- `parse` is `json::parse`, `.error` when it throws. -/
def handle_completions (parse : Bytes → Except Bytes Json) (body : Bytes) : Option CompletionReply :=
  match parse body with
  | .error what => (CompletionReply.error 400 what).dump
  | .ok body => do
    let prompt ← body.value_string (bytes "prompt") []
    let max_tokens ← body.value_int (bytes "max_tokens") 256
    if prompt = [] then (CompletionReply.error 400 (bytes "prompt is required")).dump
    else
      let C := complete M s w prompt max_tokens.toInt "" false
      let text := C.exit.text.getD []
      if text = [] ∧ C.stats.prompt_tokens > 0 then (CompletionReply.error 503 inference_failed).dump
      else (CompletionReply.completion model_name text C.stats).dump

end Completions

/-! ## /v1/chat/completions -/

/-- A request as it is once its prompt is rendered. -/
structure ChatRequest where
  model_name : Bytes
  max_tokens : Int
  session_id : String
  chat_params : ChatParams

/-- What both branches hand to `complete_stream`. -/
def ChatRequest.completion (r : ChatRequest) : Request :=
  ⟨r.chat_params.prompt, r.max_tokens, r.session_id, true, some r.chat_params.additional_stops⟩

inductive FinishReason where
  | stop | tool_calls
deriving DecidableEq, Repr

inductive ChatReply where
  | error (status : Nat) (what : Bytes)
  /-- `content` is null next to tool calls when it is empty. -/
  | completion (model : Bytes) (content : Option Bytes) (tool_calls : List ChatToolCall)
      (finish_reason : FinishReason) (usage : CompletionStats)
deriving DecidableEq, Repr

def ChatToolCall.strings (tc : ChatToolCall) : List Bytes := [tc.name, tc.id, tc.arguments]

def ChatReply.strings : ChatReply → List Bytes
  | .error _ what => [what]
  | .completion model content tool_calls _ _ => model :: content.toList ++ tool_calls.flatMap ChatToolCall.strings

def ChatReply.dump (r : ChatReply) : Option ChatReply := if ∀ t ∈ r.strings, validUtf8 t then some r else none

/-- `gen_id k` is the `k`th id made up for a call that has none. -/
def ChatRequest.reply (r : ChatRequest) (gen_id : Nat → Bytes) (text : Bytes) (stats : CompletionStats) : ChatReply :=
  let parsed := r.chat_params.final_parse (apply_stops r.chat_params.additional_stops text)
  if parsed.tool_calls ≠ [] then
    let tool_calls := parsed.tool_calls.zipIdx.map fun (tc, k) => { tc with id := if tc.id = [] then gen_id k else tc.id }
    .completion r.model_name (if parsed.content ≠ [] then some parsed.content else none) tool_calls .tool_calls stats
  else .completion r.model_name (some parsed.content) [] .stop stats

/-- The branch without `stream`. -/
def handle_chat_plain {L : Type} (M : LlamaModel L) (s : Server L) (w : World) (r : ChatRequest)
    (gen_id : Nat → Bytes) : Option ChatReply :=
  let C := complete_stream M s w r.completion StreamHooks.none ()
  let text := C.exit.text.getD []
  if text = [] ∧ C.stats.prompt_tokens > 0 ∧ C.stats.completion_tokens = 0 then
    (ChatReply.error 503 inference_failed).dump
  else (r.reply gen_id text C.stats).dump

theorem empty_dumps : ∀ _ : Bytes, validUtf8 [] = true := fun _ => rfl

/-- A format that is text and nothing else. -/
def textParams (prompt : Bytes) : ChatParams :=
  ⟨prompt, true, [], fun text _ => some ⟨text, []⟩, fun _ => [], empty_dumps⟩

/-! ## The stream of chunks -/

/-- `common_chat_msg_diff` -/
structure ChatDiff where
  content_delta : Bytes
  /-- `none` for `npos` -/
  tool_call_index : Option Nat
  tool_call_delta : ChatToolCall
deriving DecidableEq, Repr

inductive ChunkDelta where
  | content (text : Bytes)
  /-- The first chunk of a call has its id and its name. -/
  | tool_call (index : Nat) (id_name : Option (Bytes × Bytes)) (arguments : Bytes)
deriving DecidableEq, Repr

def ChunkDelta.strings : ChunkDelta → List Bytes
  | .content text => [text]
  | .tool_call _ none arguments => [arguments]
  | .tool_call _ (some (id, name)) arguments => [id, name, arguments]

/-- The variables `on_token` captures, and the deltas sent so far. -/
structure ChatSse where
  acc : Bytes
  prev : ChatMsg
  sent : List ChunkDelta
deriving DecidableEq, Repr

section Stream
variable (r : ChatRequest) (compute_diffs : ChatMsg → ChatMsg → Option (List ChatDiff)) (gen_id : Nat → Bytes)

/-- `send(chunk_obj(delta, nullptr))`; every chunk names the model. -/
def send_chunk (delta : ChunkDelta) : Hook ChatSse := fun c =>
  if ∀ t ∈ r.model_name :: delta.strings, validUtf8 t then .ok { c with sent := c.sent ++ [delta] } else .error c

/-- The chunks of one diff. -/
def send_diff (d : ChatDiff) : Hook ChatSse := fun c => do
  let c ← if d.content_delta ≠ [] then send_chunk r (.content d.content_delta) c else .ok c
  match d.tool_call_index with
  | none => return c
  | some index =>
    let tc := d.tool_call_delta
    let id_name := if tc.name ≠ [] ∨ tc.id ≠ [] then some (if tc.id = [] then gen_id c.sent.length else tc.id, tc.name)
      else none
    send_chunk r (.tool_call index id_name tc.arguments) c

/-- The body of the `try`: the parser and the diff are llama.cpp's and may throw. -/
def chat_stream_parsed : Hook ChatSse := fun c =>
  match r.chat_params.parse_generation c.acc true with
  | none => .error c
  | some parsed =>
    match compute_diffs c.prev parsed with
    | none => .error c
    | some diffs => do
      let c ← diffs.foldlM (fun c d => send_diff r gen_id d c) c
      return { c with prev := parsed }

def chat_on_token (piece : Bytes) : Hook ChatSse := fun c =>
  if piece = [] then .ok c
  else
    let c := { c with acc := c.acc ++ piece }
    if !r.chat_params.with_tools then send_chunk r (.content piece) c
    else
      match chat_stream_parsed r compute_diffs gen_id c with
      | .ok c => .ok c
      | .error c => send_chunk r (.content piece) c

def chat_hooks : StreamHooks ChatSse := ⟨none, some (chat_on_token r compute_diffs gen_id)⟩

end Stream

end Hostely.Inference
