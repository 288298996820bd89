import Hostely.Inference.Transcripts
/-!
# From a request to its prompt

How `handle_messages` and `handle_chat_completions` read a request up to the prompt:
the same conversation, tools and numbers give the same completion over either
protocol. What a plain reply says comes back unchanged when the client sends it as
part of the history.
-/

open Hostely.Lib

namespace Hostely.Inference

/-! ## The request -/

/-- What a handler answers instead of a completion. -/
inductive Refused where
  | parse (what : Bytes)
  | no_messages
  | chat_template (what : Bytes)
deriving DecidableEq, Repr

def Refused.status : Refused → Nat
  | .parse _ | .no_messages => 400
  | .chat_template _ => 500

def Refused.what : Refused → Bytes
  | .parse what => what
  | .no_messages => bytes "messages array is required"
  | .chat_template what => bytes "chat template failed: " ++ what

/-- The type in `api_error`; the chat handler has none. -/
def Refused.type : Refused → Bytes
  | .parse _ | .no_messages => bytes "invalid_request_error"
  | .chat_template _ => bytes "api_error"

/-- The error as text; `none` when `json::dump` throws. -/
def Refused.dump (r : Refused) : Option Refused := if validUtf8 r.what then some r else none

/-- `body.contains("tools") && body["tools"].is_array()` -/
def request_tools (body : Json) (anthropic : Bool) : Option (List CommonTool) :=
  match body.get? (bytes "tools") with
  | some (.arr tools) => to_common_tools (.arr tools) anthropic
  | _ => some []

def request_system (body : Json) : Option Bytes :=
  match body.get? (bytes "system") with
  | some system => flatten_anthropic_content system
  | none => some []

section Handlers
-- `common_chat_templates_apply` is llama.cpp's; `none` for the messages when reading them threw what `type_error` says.
variable (templates_apply : List Message → List CommonTool → Except Bytes ChatParams) (type_error : Json → Bytes)
  (parse : Bytes → Except Bytes Json) (stem : Bytes)

/-- `apply_chat_template` with the conversion before it, as both `try` blocks have them. -/
def apply_chat_template (messages : Json) (msgs : Option (List Message)) (tools : List CommonTool) : Except Bytes ChatParams :=
  match msgs with
  | none => .error (type_error messages)
  | some msgs => templates_apply msgs tools

/-- The request, and whether a stream is wanted; `none` for an exception that leaves the handler. -/
def messages_request (id : Nat) (session_id : String) (body : Bytes) : Option (Except Refused (MessagesRequest × Bool)) :=
  match parse body with
  | .error what => return .error (← (Refused.parse what).dump)
  | .ok body =>
    match body.get? (bytes "messages") with
    | some (.arr messages) => do
      let system ← request_system body
      let tools ← request_tools body true
      let msgs := (anthropic_to_common (.arr messages) system).map (List.map CommonMsg.message)
      match apply_chat_template templates_apply type_error (.arr messages) msgs tools with
      | .error what => return .error (← (Refused.chat_template what).dump)
      | .ok chat_params =>
        let max_tokens ← body.value_int (bytes "max_tokens") 256
        let want_stream ← body.value_bool (bytes "stream") false
        return .ok (⟨id, stem, max_tokens.toInt, session_id, chat_params⟩, want_stream)
    | _ => return .error (← Refused.no_messages.dump)

def chat_request (session_id : String) (body : Bytes) : Option (Except Refused (ChatRequest × Bool)) :=
  match parse body with
  | .error what => return .error (← (Refused.parse what).dump)
  | .ok body =>
    match body.get? (bytes "messages") with
    | some (.arr messages) => do
      let max_tokens ← body.value_int (bytes "max_tokens") 256
      let tools ← request_tools body false
      match apply_chat_template templates_apply type_error (.arr messages) (openai_to_common (.arr messages)) tools with
      | .error what => return .error (← (Refused.chat_template what).dump)
      | .ok chat_params =>
        let want_stream ← body.value_bool (bytes "stream") false
        return .ok (⟨stem, max_tokens.toInt, session_id, chat_params⟩, want_stream)
    | _ => return .error (← Refused.no_messages.dump)

/-! ## One request in two protocols -/

/-- The Anthropic request as an OpenAI one. -/
def MessagesRequest.chat (r : MessagesRequest) : ChatRequest := ⟨r.model_name, r.max_tokens, r.session_id, r.chat_params⟩

/-- Two bodies that ask for the same: one turn after the other, with the system prompt
in front, the tools and the numbers. -/
structure SameRequest (ts : List Turn) (system : Bytes) (tools : Option (List Tool)) (a o : Json) : Prop where
  messages : a.get? (bytes "messages") = some (.arr (ts.map Turn.anthropic))
  messages' : o.get? (bytes "messages") = some (.arr (openai_system system ++ ts.flatMap Turn.openai))
  prompt : request_system a = some system
  offered : a.get? (bytes "tools") = tools.map fun l => .arr (l.map Tool.anthropic)
  offered' : o.get? (bytes "tools") = tools.map fun l => .arr (l.map Tool.openai)
  max_tokens : o.get? (bytes "max_tokens") = a.get? (bytes "max_tokens")
  stream : o.get? (bytes "stream") = a.get? (bytes "stream")
  /-- `max_tokens` is a number if it is there. -/
  counted : (a.value_int (bytes "max_tokens") 256).isSome = true
  /-- The inputs of the tool calls can be written. -/
  dumps : ∀ t ∈ ts, t.Dumps

theorem request_tools_same {ts : List Turn} {system : Bytes} {tools : Option (List Tool)} {a o : Json}
    (h : SameRequest ts system tools a o) : request_tools o false = request_tools a true := by
  unfold request_tools
  rw [h.offered, h.offered']
  cases tools with
  | none => rfl
  | some tools => exact tools_read tools

/-- An object's field under `value`. -/
theorem value_get? {j v : Json} {key : Bytes} (h : j.get? key = some v) (dflt : Json) (k : Bytes) :
    j.value k dflt = some ((j.get? k).getD dflt) := by
  cases j with
  | obj fields => rfl
  | _ => cases h

theorem requests_agree {ts : List Turn} {system : Bytes} {tools : Option (List Tool)} {abody obody : Bytes} {a o : Json}
    (ha : parse abody = .ok a) (ho : parse obody = .ok o) (h : SameRequest ts system tools a o) (id : Nat) (session_id : String) :
    chat_request templates_apply type_error parse stem session_id obody =
      (messages_request templates_apply type_error parse stem id session_id abody).map
        (Except.map fun (r, want_stream) => (r.chat, want_stream)) := by
  obtain ⟨max_tokens, hmax⟩ := Option.isSome_iff_exists.1 h.counted
  have hmax' : o.value_int (bytes "max_tokens") 256 = some max_tokens := by
    rw [← hmax, Json.value_int, Json.value_int, value_get? h.messages', value_get? h.messages, h.max_tokens]
  have hstream : o.value_bool (bytes "stream") false = a.value_bool (bytes "stream") false := by
    rw [Json.value_bool, Json.value_bool, value_get? h.messages', value_get? h.messages, h.stream]
  have hmsgs := anthropic_transcript h.dumps system
  have hmsgs' : openai_to_common (.arr (openai_system system ++ ts.flatMap Turn.openai)) =
      some ((system_messages system ++ ts.flatMap Turn.means).map CommonMsg.message) := by
    rw [List.map_append]
    exact openai_transcript (openai_system_read system) ts
  unfold chat_request messages_request
  simp only [ha, ho, h.messages, h.messages', h.prompt, hmsgs, hmsgs', hmax, hmax', hstream, request_tools_same h,
    Option.bind_eq_bind, Option.bind_some, Option.map_some]
  cases request_tools a true with
  | none => rfl
  | some common =>
    simp only [Option.bind_some]
    simp only [apply_chat_template]
    cases templates_apply ((system_messages system ++ ts.flatMap Turn.means).map CommonMsg.message) common with
    | error what =>
      dsimp only
      cases (Refused.chat_template what).dump <;> rfl
    | ok chat_params =>
      dsimp only
      cases a.value_bool (bytes "stream") false <;> rfl

end Handlers

/-- A question, a tool call and its result. -/
def look_up : List Turn := [.user [.text (bytes "who?")], .assistant [.tool_use (bytes "t1") (bytes "look") (.obj [])],
  .user [.tool_result (bytes "t1") (bytes "nobody"), .text (bytes "sure?")]]

def look_tool : Tool := ⟨bytes "look", bytes "looks it up", .obj []⟩

def look_up_anthropic : Json :=
  .obj [(bytes "max_tokens", .num 7), (bytes "messages", .arr (look_up.map Turn.anthropic)),
    (bytes "system", .str (bytes "be brief")), (bytes "tools", .arr ([look_tool].map Tool.anthropic))]

def look_up_openai : Json :=
  .obj [(bytes "max_tokens", .num 7), (bytes "messages", .arr (openai_system (bytes "be brief") ++ look_up.flatMap Turn.openai)),
    (bytes "tools", .arr ([look_tool].map Tool.openai))]

/-- A parser that knows the two bodies. -/
def look_up_parse (body : Bytes) : Except Bytes Json :=
  if look_up_anthropic.dump = some body then .ok look_up_anthropic
  else if look_up_openai.dump = some body then .ok look_up_openai
  else .error (bytes "parse error")

theorem look_up_keys : bytes "max_tokens" ≠ bytes "messages" ∧ bytes "max_tokens" ≠ bytes "tools" ∧ bytes "messages" ≠ bytes "tools" ∧
    bytes "system" ≠ bytes "tools" ∧ bytes "max_tokens" ≠ bytes "stream" ∧ bytes "messages" ≠ bytes "stream" ∧
    bytes "system" ≠ bytes "stream" ∧ bytes "tools" ≠ bytes "stream" := by
  decide +kernel

theorem look_up_same : SameRequest look_up (bytes "be brief") (some [look_tool]) look_up_anthropic look_up_openai where
  messages := by simp [look_up_anthropic, Json.get?, look_up_keys]
  messages' := by simp [look_up_openai, Json.get?, look_up_keys]
  prompt := by decide +kernel
  offered := by simp [look_up_anthropic, Json.get?, look_up_keys]
  offered' := by simp [look_up_openai, Json.get?, look_up_keys]
  max_tokens := by simp [look_up_anthropic, look_up_openai, Json.get?]
  stream := by simp [look_up_anthropic, look_up_openai, Json.get?, look_up_keys]
  counted := by decide +kernel
  dumps := by
    intro t ht
    simp only [look_up, List.mem_cons, List.not_mem_nil, or_false] at ht
    obtain rfl | rfl | rfl := ht
    · trivial
    · intro p hp
      obtain rfl := List.mem_singleton.1 hp
      exact rfl
    · trivial

theorem requests_agree_look_up :
    chat_request (fun msgs _ => .ok (textParams ((msgs.map fun m => m.content).flatten))) (fun _ => bytes "type_error") look_up_parse
        (bytes "m") "" (look_up_openai.dump.getD []) =
      (messages_request (fun msgs _ => .ok (textParams ((msgs.map fun m => m.content).flatten))) (fun _ => bytes "type_error")
        look_up_parse (bytes "m") 0 "" (look_up_anthropic.dump.getD [])).map
          (Except.map fun (r, want_stream) => (r.chat, want_stream)) := by
  have ha : look_up_parse (look_up_anthropic.dump.getD []) = .ok look_up_anthropic := if_pos (by decide +kernel)
  have ho : look_up_parse (look_up_openai.dump.getD []) = .ok look_up_openai :=
    (if_neg (by decide +kernel)).trans (if_pos (by decide +kernel))
  exact requests_agree _ _ _ _ ha ho look_up_same 0 ""

/-! ## A reply in the history -/

/-- An entry of `tool_calls` in a reply. -/
def reply_call (index : Nat) (tc : ChatToolCall) : Json :=
  .obj [(bytes "function", .obj [(bytes "arguments", .str tc.arguments), (bytes "name", .str tc.name)]), (bytes "id", .str tc.id),
    (bytes "index", .num index), (bytes "type", .str (bytes "function"))]

/-- `choices[0].message` of a reply. -/
def ChatReply.message : ChatReply → Option Json
  | .error .. => none
  | .completion _ content tool_calls .. =>
    let content : Json := match content with
      | some t => .str t
      | none => .null
    some (.obj ([(bytes "content", content), (bytes "role", .str (bytes "assistant"))] ++
      if tool_calls ≠ [] then [(bytes "tool_calls", .arr (tool_calls.mapIdx reply_call))] else []))

/-- A block of a reply, its input the value that `tool_input` is the text of. -/
def Block.json (input : Bytes → Json) : Block → Json
  | .text t => text_block t
  | .tool_use id name arguments => use_block id name (input arguments)

/-- The calls with the ids a reply gives them. -/
def with_ids (gen_id : Nat → Bytes) (calls : List ChatToolCall) : List ChatToolCall :=
  calls.zipIdx.map fun (tc, k) => { tc with id := if tc.id = [] then gen_id k else tc.id }

theorem openai_reply_call (index : Nat) (tc : ChatToolCall) : openai_call (reply_call index tc) = some tc := by
  obtain ⟨-, -, -, -, -, -, -, -, -, -, hfi, han⟩ := block_keys
  have hid : (reply_call index tc).value_string (bytes "id") [] = some tc.id :=
    Json.value_string_of ((Json.value_tail hfi _ _ _).trans (Json.value_head _ _ _ _))
  have hfn : (reply_call index tc).value (bytes "function") (.obj []) =
      (call_json tc).value (bytes "function") (.obj []) := (Json.value_head _ _ _ _).trans (Json.value_head _ _ _ _).symm
  have hid' : (call_json tc).value_string (bytes "id") [] = some tc.id :=
    Json.value_string_of ((Json.value_tail hfi _ _ _).trans (Json.value_head _ _ _ _))
  rw [← openai_call_json tc, openai_call, openai_call, hfn, hid, hid']

theorem reply_calls_read (calls : List ChatToolCall) (k : Nat) :
    (calls.mapIdx fun i tc => reply_call (i + k) tc).mapM openai_call = some calls := by
  induction calls generalizing k with
  | nil => rfl
  | cons tc calls ih =>
    have hrest : (calls.mapIdx fun i tc => reply_call (i + 1 + k) tc).mapM openai_call = some calls := by
      have h := ih (1 + k)
      simpa only [Nat.add_assoc] using h
    rw [List.mapIdx_cons, List.mapM_cons, openai_reply_call, hrest]
    rfl

theorem openai_reply (model : Bytes) (content : Option Bytes) (calls : List ChatToolCall) (finish_reason : FinishReason)
    (usage : CompletionStats) :
    ∃ m, (ChatReply.completion model content calls finish_reason usage).message = some m ∧
      openai_message m = some ⟨⟨content.getD [], calls⟩, bytes "assistant", [], []⟩ := by
  obtain ⟨hcr, hct, hrt, -⟩ := key_names
  refine ⟨_, rfl, ?_⟩
  generalize hm : Json.obj _ = m
  have hr : m.value_string (bytes "role") (bytes "user") = some (bytes "assistant") := by
    rw [← hm]
    exact Json.value_string_of ((Json.value_tail hcr _ _ _).trans (Json.value_head _ _ _ _))
  have hcontent : content_str m = content.getD [] := by
    rw [← hm]
    cases content <;> simp [content_str, Json.get?]
  have hcalls : m.get? (bytes "tool_calls") = if calls ≠ [] then some (.arr (calls.mapIdx reply_call)) else none := by
    rw [← hm]
    by_cases h : calls = []
    · simp [h, Json.get?, hct, hrt]
    · simp [h, Json.get?, hct, hrt]
  unfold openai_message
  rw [hr, hcalls, hcontent]
  by_cases h : calls = []
  · simp [h, role_names.2.2.1]
  · have hread := reply_calls_read calls 0
    simp only [Nat.add_zero] at hread
    simp [h, role_names.2.2.1, hread]

/-- What a reply says, as parts of a turn. -/
def Block.part (input : Bytes → Json) : Block → AssistantPart
  | .text t => .text t
  | .tool_use id name arguments => .tool_use id name (input arguments)

theorem block_part (input : Bytes → Json) (b : Block) : (b.part input).block = b.json input := by cases b <;> rfl

/-- The arguments of a call as their canonical text. -/
def ChatToolCall.canonical (p : ChatParams) (tc : ChatToolCall) : ChatToolCall := { tc with arguments := p.tool_input tc.arguments }

theorem joined_one (t : Bytes) : joined [t] = t := rfl

/-- The blocks say the content and make the calls. -/
theorem make_blocks_means (p : ChatParams) (gen_id : Nat → Bytes) {input : Bytes → Json}
    (hinput : ∀ a, (input (p.tool_input a)).dump = some (p.tool_input a)) (parsed : ChatMsg) :
    let parts := (make_blocks p gen_id parsed).1.map (Block.part input)
    (∀ b ∈ parts, b.Dumps) ∧ joined (parts.filterMap AssistantPart.said) = parsed.content ∧
      parts.filterMap AssistantPart.call = (with_ids gen_id parsed.tool_calls).map (ChatToolCall.canonical p) := by
  let uses := parsed.tool_calls.zipIdx.map fun (tc, k) =>
    Block.tool_use (if tc.id = [] then gen_id k else tc.id) tc.name (p.tool_input tc.arguments)
  have huses : (∀ b ∈ uses, (b.part input).Dumps) ∧ (uses.map (Block.part input)).filterMap AssistantPart.said = [] ∧
      (uses.map (Block.part input)).filterMap AssistantPart.call =
        (with_ids gen_id parsed.tool_calls).map (ChatToolCall.canonical p) := by
    refine ⟨fun b hb => ?_, ?_, ?_⟩
    · obtain ⟨⟨tc, k⟩, -, rfl⟩ := List.mem_map.1 hb
      show (input (p.tool_input tc.arguments)).dump.isSome = true
      rw [hinput]
      rfl
    · rw [List.filterMap_map, List.filterMap_map]
      exact List.filterMap_eq_nil_iff.2 fun _ _ => rfl
    · rw [List.filterMap_map, List.filterMap_map, with_ids, List.map_map, ← List.filterMap_eq_map]
      refine congrArg (fun f => parsed.tool_calls.zipIdx.filterMap f) (funext fun (tc, k) => ?_)
      show some (⟨tc.name, if tc.id = [] then gen_id k else tc.id, (input (p.tool_input tc.arguments)).dump.getD []⟩ : ChatToolCall) = _
      rw [hinput]
      rfl
  obtain ⟨hdumps, hsaid, hcalls⟩ := huses
  -- A text block stands in front, except where an empty content has calls behind it.
  by_cases hlead : parsed.content = [] ∧ uses ≠ []
  · have hblocks : (make_blocks p gen_id parsed).1 = uses := by
      show (if (if parsed.content ≠ [] then [Block.text parsed.content] else []) ++ uses = [] then [Block.text []]
        else (if parsed.content ≠ [] then [Block.text parsed.content] else []) ++ uses) = uses
      simp [hlead.1, hlead.2]
    rw [hblocks]
    refine ⟨fun b hb => ?_, ?_, hcalls⟩
    · obtain ⟨c, hc, rfl⟩ := List.mem_map.1 hb
      exact hdumps c hc
    · rw [hsaid, hlead.1]
      rfl
  · have hblocks : (make_blocks p gen_id parsed).1 = Block.text parsed.content :: uses := by
      show (if (if parsed.content ≠ [] then [Block.text parsed.content] else []) ++ uses = [] then [Block.text []]
        else (if parsed.content ≠ [] then [Block.text parsed.content] else []) ++ uses) = _
      by_cases hcontent : parsed.content = []
      · have hnone : uses = [] := not_not.1 fun h => hlead ⟨hcontent, h⟩
        simp [hcontent, hnone]
      · simp [hcontent]
    rw [hblocks, List.map_cons]
    refine ⟨List.forall_mem_cons.2 ⟨trivial, fun b hb => ?_⟩, ?_, ?_⟩
    · obtain ⟨c, hc, rfl⟩ := List.mem_map.1 hb
      exact hdumps c hc
    · have hhead : (Block.part input (.text parsed.content)).said = some parsed.content := rfl
      rw [List.filterMap_cons_some hhead, hsaid, joined_one]
    · have hhead : (Block.part input (.text parsed.content)).call = none := rfl
      rw [List.filterMap_cons_none hhead, hcalls]

/-- A conversation goes on behind what it was. -/
theorem anthropic_to_common_append {history : List Json} {system : Bytes} {msgs : List CommonMsg}
    (h : anthropic_to_common (.arr history) system = some msgs) {m : Json} (hm : MessageTyped m) :
    anthropic_to_common (.arr (history ++ [m])) system = some (msgs ++ converted m) := by
  have hfold : history.foldlM convert_message (system_messages system) = some msgs := h
  show (history ++ [m]).foldlM convert_message (system_messages system) = _
  rw [List.foldlM_append, hfold]
  show [m].foldlM convert_message msgs = _
  rw [List.foldlM_cons, convert_message_eq hm]
  rfl

theorem replies_return (r : MessagesRequest) (gen_id : Nat → Bytes) (text : Bytes) (stats : CompletionStats) {input : Bytes → Json}
    (hinput : ∀ a, (input (r.chat_params.tool_input a)).dump = some (r.chat_params.tool_input a)) :
    let parsed := r.chat_params.final_parse (apply_stops r.chat_params.additional_stops text)
    let calls := with_ids gen_id parsed.tool_calls
    (∀ history msgs, openai_to_common (.arr history) = some msgs → ∃ m, (r.chat.reply gen_id text stats).message = some m ∧
      openai_to_common (.arr (history ++ [m])) = some (msgs ++ [⟨⟨parsed.content, calls⟩, bytes "assistant", [], []⟩])) ∧
    (∀ history system msgs, anthropic_to_common (.arr history) system = some msgs →
      anthropic_to_common (.arr (history ++ [blocks_message "assistant" ((make_blocks r.chat_params gen_id parsed).1.map (Block.json input))]))
          system =
        some (msgs ++ if parsed.content ≠ [] ∨ parsed.tool_calls ≠ [] then
          [⟨⟨parsed.content, calls.map (ChatToolCall.canonical r.chat_params)⟩, .assistant, []⟩] else [])) := by
  intro parsed calls
  constructor
  · intro history msgs h
    have hread : ∃ m, (r.chat.reply gen_id text stats).message = some m ∧
        openai_message m = some ⟨⟨parsed.content, calls⟩, bytes "assistant", [], []⟩ := by
      show ∃ m, (ChatReply.message (if parsed.tool_calls ≠ [] then .completion r.model_name
        (if parsed.content ≠ [] then some parsed.content else none) calls .tool_calls stats
          else .completion r.model_name (some parsed.content) [] .stop stats)) = some m ∧ _
      by_cases hcalls : parsed.tool_calls = []
      · rw [if_neg (by simp [hcalls]), show calls = [] by simp [calls, hcalls, with_ids]]
        exact openai_reply _ (some parsed.content) [] _ _
      · rw [if_pos hcalls]
        by_cases hcontent : parsed.content = []
        · rw [if_neg (by simp [hcontent]), hcontent]
          exact openai_reply _ none calls _ _
        · rw [if_pos hcontent]
          exact openai_reply _ (some parsed.content) calls _ _
    obtain ⟨m, hm, hmessage⟩ := hread
    refine ⟨m, hm, mapM_append_some h ?_⟩
    rw [List.mapM_cons, hmessage]
    rfl
  · intro history system msgs h
    obtain ⟨hdumps, hsaid, hcalls⟩ := make_blocks_means r.chat_params gen_id hinput parsed
    have hjson : (make_blocks r.chat_params gen_id parsed).1.map (Block.json input) =
        ((make_blocks r.chat_params gen_id parsed).1.map (Block.part input)).map AssistantPart.block := by
      rw [List.map_map]
      exact List.map_congr_left fun b _ => (block_part input b).symm
    obtain ⟨htyped, hconverted⟩ := assistant_converted hdumps
    have happend := anthropic_to_common_append h htyped
    rw [hconverted, Turn.means, hsaid, hcalls] at happend
    rw [hjson]
    refine happend.trans ?_
    have hempty : (with_ids gen_id parsed.tool_calls).map (ChatToolCall.canonical r.chat_params) ≠ [] ↔ parsed.tool_calls ≠ [] := by
      simp [with_ids]
    simp only [hempty]
    rfl

/-- A format whose every text is a call without arguments or id. -/
def callParams (prompt : Bytes) : ChatParams :=
  ⟨prompt, false, [], fun text _ => some ⟨text, [⟨bytes "look", [], bytes "\x7b \x7d"⟩]⟩, fun _ => bytes "\x7b\x7d",
    fun _ => validUtf8_bytes _⟩

theorem replies_return_call :
    (∀ history msgs, openai_to_common (.arr history) = some msgs →
      ∃ m, ((MessagesRequest.mk 0 (bytes "m") 7 "" (callParams [])).chat.reply (fun _ => bytes "t") (bytes "so") ⟨1, 1⟩).message = some m ∧
      openai_to_common (.arr (history ++ [m])) =
        some (msgs ++ [⟨⟨bytes "so", [⟨bytes "look", bytes "t", bytes "\x7b \x7d"⟩]⟩, bytes "assistant", [], []⟩])) ∧
    (∀ history system msgs, anthropic_to_common (.arr history) system = some msgs →
      anthropic_to_common (.arr (history ++ [blocks_message "assistant" ((make_blocks (callParams []) (fun _ => bytes "t")
        ⟨bytes "so", [⟨bytes "look", [], bytes "\x7b \x7d"⟩]⟩).1.map (Block.json fun _ => .obj []))])) system =
        some (msgs ++ [⟨⟨bytes "so", [⟨bytes "look", bytes "t", bytes "\x7b\x7d"⟩]⟩, .assistant, []⟩])) := by
  have hinput : ∀ a, (Json.obj []).dump = some ((callParams []).tool_input a) := fun _ => by
    show (Json.obj []).dump = some (bytes "\x7b\x7d")
    decide +kernel
  exact @replies_return ⟨0, bytes "m", 7, "", callParams []⟩ (fun _ => bytes "t") (bytes "so") ⟨1, 1⟩ (fun _ => .obj []) hinput

end Hostely.Inference
