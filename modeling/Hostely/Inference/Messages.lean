import Hostely.Inference.Stops
/-!
# /v1/messages

The two branches of `handle_messages` after the request is rendered: the plain
reply and the SSE stream. The stream is an emitter with five closures over the
same variables, kept here as a record `Sse`; an event is sent only if
`json::dump` can serialize it, and throws otherwise.
-/

open Hostely.Lib

namespace Hostely.Inference

/-! ## The chat format -/

structure ChatToolCall where
  name : Bytes
  id : Bytes
  arguments : Bytes
deriving DecidableEq, Repr

/-- `common_chat_msg` -/
structure ChatMsg where
  content : Bytes
  tool_calls : List ChatToolCall
deriving DecidableEq, Repr

/-- `common_chat_params` with what the parser makes of a text. The parser is
llama.cpp's and the JSON library is not part of the repository either. -/
structure ChatParams where
  prompt : Bytes
  /-- `format == COMMON_CHAT_FORMAT_CONTENT_ONLY` -/
  content_only : Bool
  additional_stops : List Bytes
  /-- `none` when it throws; the flag is `partial`. -/
  parse_generation : Bytes → Bool → Option ChatMsg
  /-- The arguments parsed and dumped again, `{}` when they are malformed. -/
  tool_input : Bytes → Bytes
  tool_input_dumps : ∀ arguments, validUtf8 (tool_input arguments) = true

def ChatParams.with_tools (p : ChatParams) : Bool := !p.content_only || p.additional_stops ≠ []

/-- The final parse, which takes the text as it is when the parser throws. -/
def ChatParams.final_parse (p : ChatParams) (text : Bytes) : ChatMsg :=
  if p.with_tools then (p.parse_generation text false).getD ⟨text, []⟩ else ⟨text, []⟩

/-- A request as it is once its prompt is rendered. `id` is the count in `msg_...`. -/
structure MessagesRequest where
  id : Nat
  model_name : Bytes
  max_tokens : Int
  session_id : String
  chat_params : ChatParams

/-- What both branches hand to `complete_stream`. -/
def MessagesRequest.completion (r : MessagesRequest) : Request :=
  ⟨r.chat_params.prompt, r.max_tokens, r.session_id, true, some r.chat_params.additional_stops⟩

inductive StopReason where
  | end_turn | tool_use
deriving DecidableEq, Repr

/-! ## The plain reply -/

inductive Block where
  | text (text : Bytes)
  | tool_use (id name input : Bytes)
deriving DecidableEq, Repr

def Block.strings : Block → List Bytes
  | .text t => [t]
  | .tool_use id name input => [id, name, input]

/-- The text of a block, empty for a tool call. -/
def Block.textOf : Block → Bytes
  | .text t => t
  | .tool_use .. => []

inductive Reply where
  /-- 503 `overloaded_error` -/
  | overloaded
  | message (id : Nat) (model : Bytes) (content : List Block) (stop_reason : StopReason) (usage : CompletionStats)
deriving DecidableEq, Repr

def Reply.text : Reply → Bytes
  | .overloaded => []
  | .message _ _ content _ _ => (content.map Block.textOf).flatten

/-- `gen_id k` is the `k`th id made up for a call that has none. -/
def make_blocks (p : ChatParams) (gen_id : Nat → Bytes) (parsed : ChatMsg) : List Block × StopReason :=
  let text := if parsed.content ≠ [] then [Block.text parsed.content] else []
  let tools := parsed.tool_calls.zipIdx.map fun (tc, k) =>
    Block.tool_use (if tc.id = [] then gen_id k else tc.id) tc.name (p.tool_input tc.arguments)
  let blocks := text ++ tools
  (if blocks = [] then [.text []] else blocks, if parsed.tool_calls = [] then .end_turn else .tool_use)

section Handlers
variable {L : Type} (M : LlamaModel L) (s : Server L) (w : World) (r : MessagesRequest)

/-- The branch without `stream`; `none` when `dump` throws. -/
def handle_messages_plain (gen_id : Nat → Bytes) : Option Reply :=
  let C := complete_stream M s w r.completion StreamHooks.none ()
  let text := C.exit.text.getD []
  if text = [] ∧ C.stats.prompt_tokens > 0 ∧ C.stats.completion_tokens = 0 then some .overloaded
  else
    let parsed := r.chat_params.final_parse (apply_stops r.chat_params.additional_stops text)
    let (content, stop_reason) := make_blocks r.chat_params gen_id parsed
    if validUtf8 r.model_name ∧ ∀ b ∈ content, ∀ t ∈ b.strings, validUtf8 t then
      some (.message r.id r.model_name content stop_reason C.stats)
    else none

/-! ## The SSE stream -/

inductive BlockType where
  | text | tool_use
deriving DecidableEq, Repr

inductive Delta where
  | text_delta (text : Bytes)
  | input_json_delta (partial_json : Bytes)
deriving DecidableEq, Repr

inductive Event where
  | message_start (id : Nat) (model : Bytes) (input_tokens : Nat)
  | content_block_start (index : Int) (content_block : BlockType)
  | content_block_delta (index : Int) (delta : Delta)
  | content_block_stop (index : Int)
  | message_delta (stop_reason : StopReason) (output_tokens : Nat)
  | message_stop
deriving DecidableEq, Repr

def Event.dumps : Event → Bool
  | .message_start _ model _ => validUtf8 model
  | .content_block_delta _ (.text_delta text) => validUtf8 text
  | .content_block_delta _ (.input_json_delta json) => validUtf8 json
  | _ => true

/-- The variables the closures share, and the events sent so far. -/
structure Sse where
  next_block : Int
  block_open : Bool
  buffering : Bool
  acc : Bytes
  sent : List Event
deriving DecidableEq, Repr

def Sse.init : Sse := ⟨-1, false, false, [], []⟩

def send (e : Event) : Hook Sse := fun c =>
  if e.dumps then .ok { c with sent := c.sent ++ [e] } else .error c

/-- Does `h` if `b` holds. -/
def only_if (b : Bool) (h : Hook Sse) : Hook Sse := fun c => if b then h c else .ok c

def open_block (type : BlockType) : Hook Sse := fun c =>
  let c := { c with next_block := c.next_block + 1, block_open := true }
  send (.content_block_start c.next_block type) c

def close_block : Hook Sse := fun c =>
  if !c.block_open then .ok c
  else do
    let c ← send (.content_block_stop c.next_block) c
    return { c with block_open := false }

def send_delta (delta : Delta) : Hook Sse := fun c => send (.content_block_delta c.next_block delta) c

def message_start (r : MessagesRequest) (input_tokens : Nat) : Hook Sse :=
  send (.message_start r.id r.model_name input_tokens)

def ensure_started (r : MessagesRequest) (input_tokens : Nat) : Hook Sse := fun c =>
  if c.next_block ≥ 0 ∨ c.block_open then .ok c
  else do
    let c ← message_start r input_tokens c
    only_if (!r.chat_params.with_tools) (open_block .text) c

/-- Sends text and clears what was held back. -/
def confirm (text : Bytes) : Hook Sse := fun c => do
  let c ← send_delta (.text_delta text) c
  return { c with acc := [] }

/-- The body of the `try` in `on_token`. -/
def stream_parsed (r : MessagesRequest) : Hook Sse := fun c =>
  match r.chat_params.parse_generation c.acc true with
  | none => .error c
  | some parsed =>
    if parsed.tool_calls ≠ [] then .ok { c with buffering := true }
    else do
      let c ← only_if (parsed.content ≠ [] && !c.block_open) (open_block .text) c
      only_if c.block_open (confirm parsed.content) c

/-- The `catch` in `on_token`: emits the piece as it came. -/
def stream_raw (piece : Bytes) : Hook Sse := fun c => do
  let c ← only_if (!c.block_open) (open_block .text) c
  confirm piece c

def on_token (r : MessagesRequest) (piece : Bytes) : Hook Sse := fun c =>
  if piece = [] then .ok c
  else if !r.chat_params.with_tools then do
    let c ← ensure_started r 0 c
    send_delta (.text_delta piece) c
  else if c.buffering then .ok { c with acc := c.acc ++ piece }
  else do
    let c ← ensure_started r 0 { c with acc := c.acc ++ piece }
    match stream_parsed r c with
    | .ok c => return c
    | .error c => stream_raw piece c

def stream_hooks (r : MessagesRequest) : StreamHooks Sse :=
  ⟨some fun n_prompt => ensure_started r n_prompt, some (on_token r)⟩

/-- A block that is opened, filled and closed at once. -/
def write_block (type : BlockType) (delta : Delta) : Hook Sse := fun c => do
  let c ← open_block type c
  let c ← send_delta delta c
  close_block c

/-- Tool calls and the end of the message. -/
def end_message (r : MessagesRequest) (parsed : ChatMsg) (stats : CompletionStats) : Hook Sse := fun c => do
  let c ← parsed.tool_calls.foldlM (fun c tc =>
    write_block .tool_use (.input_json_delta (r.chat_params.tool_input tc.arguments)) c) c
  let c ← send (.message_delta (if parsed.tool_calls = [] then .end_turn else .tool_use) stats.completion_tokens) c
  send .message_stop c

/-- The blocks of the final parse and the end of the message. -/
def finish (r : MessagesRequest) (parsed : ChatMsg) (stats : CompletionStats) : Hook Sse := fun c => do
  let c ← only_if (parsed.content ≠ []) (write_block .text (.text_delta parsed.content)) c
  end_message r parsed stats c

/-- What follows `complete_stream`. -/
def epilogue (r : MessagesRequest) (text : Bytes) (stats : CompletionStats) : Hook Sse := fun c => do
  let c ← only_if (c.next_block < 0 && !c.block_open) (message_start r stats.prompt_tokens) c
  let c ← close_block c
  finish r (r.chat_params.final_parse (apply_stops r.chat_params.additional_stops text)) stats c

/-- The events the branch with `stream` sends, to the end or until `dump` throws. -/
def handle_messages_stream : List Event :=
  let C := complete_stream M s w r.completion (stream_hooks r) Sse.init
  match C.exit.text with
  | none => C.captured.sent
  | some text => (leftBy (epilogue r text C.stats C.captured)).sent

end Handlers

end Hostely.Inference
