import Hostely.Inference.Anthropic
import Hostely.Inference.Completions
/-!
# One conversation in two protocols

`openai_to_common` and `anthropic_to_common` read a conversation from JSON into the
messages that the chat template renders. What a client says over one of them means
the same over the other, and the server's own reply, put back into the history, is
what it was.
-/

open Hostely.Lib

namespace Hostely.Inference

/-- `common_chat_msg` with every field that is set. -/
structure Message extends ChatMsg where
  role : Bytes
  tool_call_id : Bytes
  tool_name : Bytes
deriving DecidableEq, Repr

def Role.name : Role → Bytes
  | .system => bytes "system"
  | .user => bytes "user"
  | .assistant => bytes "assistant"
  | .tool => bytes "tool"

/-- A message from `anthropic_to_common`, which never sets `tool_name`. -/
def CommonMsg.message (c : CommonMsg) : Message := ⟨c.toChatMsg, c.role.name, c.tool_call_id, []⟩

/-! ## openai_to_common -/

def content_str (m : Json) : Bytes :=
  match m.get? (bytes "content") with
  | some (.str s) => s
  | _ => []

def openai_call (tc : Json) : Option ChatToolCall := do
  let fn ← tc.value (bytes "function") (.obj [])
  let id ← tc.value_string (bytes "id") []
  let name ← fn.value_string (bytes "name") []
  let arguments ← fn.value_string (bytes "arguments") []
  return ⟨name, id, arguments⟩

def openai_message (m : Json) : Option Message := do
  let role ← m.value_string (bytes "role") (bytes "user")
  let tool_call_id ← if role = bytes "tool" then m.value_string (bytes "tool_call_id") [] else some []
  let tool_name ← if role = bytes "tool" then m.value_string (bytes "name") [] else some []
  let tool_calls ← match m.get? (bytes "tool_calls") with
    | some (.arr calls) => calls.mapM openai_call
    | _ => some []
  return ⟨⟨content_str m, tool_calls⟩, role, tool_call_id, tool_name⟩

def openai_to_common (messages : Json) : Option (List Message) := messages.elements.mapM openai_message

/-! ## to_common_tools -/

structure CommonTool where
  name : Bytes
  description : Bytes
  parameters : Bytes
deriving DecidableEq, Repr

/-- `contains(key)` and `dump()`; no text without the key. -/
def dump_field (j : Json) (key : String) : Option Bytes :=
  match j.get? (bytes key) with
  | some v => v.dump
  | none => some []

def to_common_tool (anthropic : Bool) (t : Json) : Option CommonTool :=
  if anthropic then do
    return ⟨← t.value_string (bytes "name") [], ← t.value_string (bytes "description") [], ← dump_field t "input_schema"⟩
  else do
    let fn := (t.get? (bytes "function")).getD t
    return ⟨← fn.value_string (bytes "name") [], ← fn.value_string (bytes "description") [], ← dump_field fn "parameters"⟩

/-- A tool without a name is left out. -/
def add_tool (anthropic : Bool) (out : List CommonTool) (t : Json) : Option (List CommonTool) :=
  if !t.is_object then some out
  else do
    let ct ← to_common_tool anthropic t
    return if ct.name ≠ [] then out ++ [ct] else out

def to_common_tools (tools : Json) (anthropic : Bool) : Option (List CommonTool) :=
  tools.elements.foldlM (add_tool anthropic) []

/-! ## A conversation -/

inductive UserPart where
  | text (t : Bytes)
  | tool_result (id content : Bytes)

inductive AssistantPart where
  | text (t : Bytes)
  | tool_use (id name : Bytes) (input : Json)

inductive Turn where
  | user (parts : List UserPart)
  | assistant (parts : List AssistantPart)

/-- The texts of a turn as one, the way `flatten_anthropic_content` joins them. -/
def joined (texts : List Bytes) : Bytes := texts.foldl (fun out t => (if out ≠ [] then out ++ bytes "\n" else out) ++ t) []

def UserPart.said : UserPart → Option Bytes
  | .text t => some t
  | .tool_result .. => none

def UserPart.result : UserPart → Option (Bytes × Bytes)
  | .text _ => none
  | .tool_result id content => some (id, content)

def AssistantPart.said : AssistantPart → Option Bytes
  | .text t => some t
  | .tool_use .. => none

/-- The arguments are the input as text. -/
def AssistantPart.call : AssistantPart → Option ChatToolCall
  | .text _ => none
  | .tool_use id name input => some ⟨name, id, (input.dump).getD []⟩

/-- The input of each tool call can be written. -/
def AssistantPart.Dumps : AssistantPart → Prop
  | .text _ => True
  | .tool_use _ _ input => input.dump.isSome = true

def Turn.Dumps : Turn → Prop
  | .user _ => True
  | .assistant parts => ∀ p ∈ parts, p.Dumps

/-! ### As Anthropic messages -/

def text_block (t : Bytes) : Json := .obj [(bytes "text", .str t), (bytes "type", .str (bytes "text"))]

def UserPart.block : UserPart → Json
  | .text t => text_block t
  | .tool_result id content =>
    .obj [(bytes "content", .str content), (bytes "tool_use_id", .str id), (bytes "type", .str (bytes "tool_result"))]

def use_block (id name : Bytes) (input : Json) : Json :=
  .obj [(bytes "id", .str id), (bytes "input", input), (bytes "name", .str name), (bytes "type", .str (bytes "tool_use"))]

def AssistantPart.block : AssistantPart → Json
  | .text t => text_block t
  | .tool_use id name input => use_block id name input

def blocks_message (role : String) (blocks : List Json) : Json :=
  .obj [(bytes "content", .arr blocks), (bytes "role", .str (bytes role))]

def Turn.anthropic : Turn → Json
  | .user parts => blocks_message "user" (parts.map UserPart.block)
  | .assistant parts => blocks_message "assistant" (parts.map AssistantPart.block)

/-! ### As OpenAI messages -/

def text_message (role : String) (t : Bytes) : Json := .obj [(bytes "content", .str t), (bytes "role", .str (bytes role))]

def tool_message (result : Bytes × Bytes) : Json :=
  .obj [(bytes "content", .str result.2), (bytes "role", .str (bytes "tool")), (bytes "tool_call_id", .str result.1)]

def call_json (tc : ChatToolCall) : Json :=
  .obj [(bytes "function", .obj [(bytes "arguments", .str tc.arguments), (bytes "name", .str tc.name)]), (bytes "id", .str tc.id),
    (bytes "type", .str (bytes "function"))]

/-- `content` is null next to tool calls when there is no text. -/
def assistant_message (t : Bytes) (calls : List Json) : Json :=
  .obj [(bytes "content", if t ≠ [] then .str t else .null), (bytes "role", .str (bytes "assistant")),
    (bytes "tool_calls", .arr calls)]

/-- The results come first, as messages of their own. -/
def Turn.openai : Turn → List Json
  | .user parts =>
    let t := joined (parts.filterMap UserPart.said)
    (parts.filterMap UserPart.result).map tool_message ++ if t ≠ [] then [text_message "user" t] else []
  | .assistant parts =>
    let t := joined (parts.filterMap AssistantPart.said)
    let calls := parts.filterMap AssistantPart.call
    if calls ≠ [] then [assistant_message t (calls.map call_json)]
    else if t ≠ [] then [text_message "assistant" t] else []

/-- The system prompt is the first message. -/
def openai_system (system : Bytes) : List Json := if system ≠ [] then [text_message "system" system] else []

/-! ## What a turn means -/

/-- The messages of a turn: its results, then what it says and calls. -/
def Turn.means : Turn → List CommonMsg
  | .user parts =>
    let t := joined (parts.filterMap UserPart.said)
    (parts.filterMap UserPart.result).map (fun (id, content) => ⟨⟨content, []⟩, .tool, id⟩) ++
      if t ≠ [] then [⟨⟨t, []⟩, .user, []⟩] else []
  | .assistant parts =>
    let t := joined (parts.filterMap AssistantPart.said)
    let calls := parts.filterMap AssistantPart.call
    if t ≠ [] ∨ calls ≠ [] then [⟨⟨t, calls⟩, .assistant, []⟩] else []

/-! ### The keys -/

theorem key_names : bytes "content" ≠ bytes "role" ∧ bytes "content" ≠ bytes "tool_calls" ∧ bytes "role" ≠ bytes "tool_calls" ∧
    bytes "content" ≠ bytes "tool_call_id" ∧ bytes "role" ≠ bytes "tool_call_id" ∧ bytes "content" ≠ bytes "name" ∧
    bytes "role" ≠ bytes "name" ∧ bytes "tool_call_id" ≠ bytes "name" ∧ bytes "tool_call_id" ≠ bytes "tool_calls" := by
  decide +kernel

theorem block_keys : bytes "text" ≠ bytes "type" ∧ bytes "content" ≠ bytes "type" ∧ bytes "tool_use_id" ≠ bytes "type" ∧
    bytes "id" ≠ bytes "type" ∧ bytes "input" ≠ bytes "type" ∧ bytes "name" ≠ bytes "type" ∧ bytes "content" ≠ bytes "tool_use_id" ∧
    bytes "id" ≠ bytes "name" ∧ bytes "input" ≠ bytes "name" ∧ bytes "id" ≠ bytes "input" ∧ bytes "function" ≠ bytes "id" ∧
    bytes "arguments" ≠ bytes "name" := by
  decide +kernel

theorem type_names : bytes "text" ≠ bytes "tool_use" ∧ bytes "text" ≠ bytes "tool_result" ∧ bytes "tool_result" ≠ bytes "tool_use" := by
  decide +kernel

theorem role_names : bytes "user" ≠ bytes "assistant" ∧ bytes "user" ≠ bytes "tool" ∧ bytes "assistant" ≠ bytes "tool" ∧
    bytes "system" ≠ bytes "tool" := by
  decide +kernel

/-! ### The blocks -/

theorem text_block_typed (t : Bytes) : BlockTyped (text_block t) ∧ field_text (text_block t) "type" = bytes "text" ∧
    field_text (text_block t) "text" = t := by
  obtain ⟨htype, -⟩ := block_keys
  obtain ⟨huse, hresult, -⟩ := type_names
  have hvalue : (text_block t).value_string (bytes "type") [] = some (bytes "text") :=
    Json.value_string_of ((Json.value_tail htype _ _ _).trans (Json.value_head _ _ _ _))
  have htext : (text_block t).value_string (bytes "text") [] = some t := Json.value_string_of (Json.value_head _ _ _ _)
  have hfield : field_text (text_block t) "type" = bytes "text" := by rw [field_text, hvalue, Option.getD_some]
  refine ⟨⟨by rw [IsText, hvalue]; rfl, fun _ => by rw [IsText, htext]; rfl, fun h => ?_, fun h => ?_⟩, hfield, ?_⟩
  · rw [has_type, hfield] at h
    exact absurd (of_decide_eq_true h) huse
  · rw [has_type, hfield] at h
    exact absurd (of_decide_eq_true h) hresult
  · rw [field_text, htext, Option.getD_some]

theorem result_block_typed (id content : Bytes) : BlockTyped (UserPart.tool_result id content).block ∧
    field_text (UserPart.tool_result id content).block "type" = bytes "tool_result" ∧
    result_of (UserPart.tool_result id content).block = ⟨⟨content, []⟩, .tool, id⟩ := by
  obtain ⟨-, hct, hit, -, -, -, hci, -⟩ := block_keys
  obtain ⟨-, hresult, huse⟩ := type_names
  have hvalue : (UserPart.tool_result id content).block.value_string (bytes "type") [] = some (bytes "tool_result") :=
    Json.value_string_of (((Json.value_tail hct _ _ _).trans (Json.value_tail hit _ _ _)).trans (Json.value_head _ _ _ _))
  have hid : (UserPart.tool_result id content).block.value_string (bytes "tool_use_id") [] = some id :=
    Json.value_string_of ((Json.value_tail hci _ _ _).trans (Json.value_head _ _ _ _))
  have hcontent : (UserPart.tool_result id content).block.get? (bytes "content") = some (.str content) := by
    simp [UserPart.block, Json.get?]
  have hfield : field_text (UserPart.tool_result id content).block "type" = bytes "tool_result" := by
    rw [field_text, hvalue, Option.getD_some]
  refine ⟨⟨by rw [IsText, hvalue]; rfl, fun h => ?_, fun h => ?_, fun _ => ⟨by rw [IsText, hid]; rfl, fun c hc blocks hblocks => ?_⟩⟩, hfield, ?_⟩
  · rw [has_type, hfield] at h
    exact absurd (of_decide_eq_true h) (Ne.symm hresult)
  · rw [has_type, hfield] at h
    exact absurd (of_decide_eq_true h) huse
  · rw [hcontent] at hc
    obtain rfl := Option.some.inj hc
    cases hblocks
  · rw [result_of, hcontent, field_text, hid]
    rfl

theorem use_block_typed (id name : Bytes) {input : Json} (hdump : input.dump.isSome = true) : BlockTyped (use_block id name input) ∧
    field_text (use_block id name input) "type" = bytes "tool_use" ∧
    call_of (use_block id name input) = ⟨name, id, input.dump.getD []⟩ := by
  obtain ⟨-, -, -, hit, hnt, hmt, -, him, hnm, hin, -, -⟩ := block_keys
  obtain ⟨huse, -, hresult⟩ := type_names
  have hvalue : (use_block id name input).value_string (bytes "type") [] = some (bytes "tool_use") :=
    Json.value_string_of ((((Json.value_tail hit _ _ _).trans (Json.value_tail hnt _ _ _)).trans (Json.value_tail hmt _ _ _)).trans
      (Json.value_head _ _ _ _))
  have hid : (use_block id name input).value_string (bytes "id") [] = some id := Json.value_string_of (Json.value_head _ _ _ _)
  have hname : (use_block id name input).value_string (bytes "name") [] = some name :=
    Json.value_string_of (((Json.value_tail him _ _ _).trans (Json.value_tail hnm _ _ _)).trans (Json.value_head _ _ _ _))
  have hinput : (use_block id name input).get? (bytes "input") = some input := by simp [use_block, Json.get?, hin]
  have hfield : field_text (use_block id name input) "type" = bytes "tool_use" := by rw [field_text, hvalue, Option.getD_some]
  refine ⟨⟨by rw [IsText, hvalue]; rfl, fun h => ?_, fun _ => ⟨by rw [IsText, hid]; rfl, by rw [IsText, hname]; rfl, fun j hj => ?_⟩,
    fun h => ?_⟩, hfield, ?_⟩
  · rw [has_type, hfield] at h
    exact absurd (of_decide_eq_true h) (Ne.symm huse)
  · rw [hinput] at hj
    exact Option.some.inj hj ▸ hdump
  · rw [has_type, hfield] at h
    exact absurd (of_decide_eq_true h) (Ne.symm hresult)
  · rw [call_of, hinput, field_text, field_text, hid, hname]
    rfl

/-! ### Over Anthropic's protocol -/

theorem flatten_text (out t : Bytes) :
    flatten_block out (text_block t) = some ((if out ≠ [] then out ++ bytes "\n" else out) ++ t) := by
  obtain ⟨htyped, htype, htext⟩ := text_block_typed t
  have hobject : (text_block t).is_object = true := rfl
  have hs : (text_block t).value_string (bytes "text") [] = some t := by
    rw [(htyped.text (by rw [has_type, htype]; exact decide_eq_true rfl)).eq, htext]
  unfold flatten_block
  rw [hobject, htyped.type.eq, htype, hs]
  simp

theorem flatten_other {b : Json} (hb : BlockTyped b) (hother : field_text b "type" ≠ bytes "text") (out : Bytes) :
    flatten_block out b = some out := by
  unfold flatten_block
  rw [hb.type.eq]
  simp [hother]

/-- The texts among blocks are joined, whatever stands between them. -/
theorem flattened_parts {α : Type} {block : α → Json} {said : α → Option Bytes} {parts : List α}
    (hsaid : ∀ a ∈ parts, ∀ t, said a = some t → block a = text_block t)
    (hother : ∀ a ∈ parts, said a = none → BlockTyped (block a) ∧ field_text (block a) "type" ≠ bytes "text") :
    flattened (.arr (parts.map block)) = joined (parts.filterMap said) := by
  have hfold (out : Bytes) : (parts.map block).foldlM flatten_block out =
      some ((parts.filterMap said).foldl (fun out t => (if out ≠ [] then out ++ bytes "\n" else out) ++ t) out) := by
    induction parts generalizing out with
    | nil => rfl
    | cons a parts ih =>
      have hrest := ih (fun b hb => hsaid b (List.mem_cons_of_mem _ hb)) (fun b hb => hother b (List.mem_cons_of_mem _ hb))
      rw [List.map_cons, List.foldlM_cons]
      cases hs : said a with
      | none =>
        obtain ⟨htyped, hne⟩ := hother a List.mem_cons_self hs
        rw [flatten_other htyped hne, List.filterMap_cons_none hs]
        exact hrest out
      | some t =>
        rw [hsaid a List.mem_cons_self t hs, flatten_text, List.filterMap_cons_some hs, List.foldl_cons]
        exact hrest _
  have hflat : flatten_anthropic_content (.arr (parts.map block)) = some (joined (parts.filterMap said)) := hfold []
  rw [flattened, hflat, Option.getD_some]

/-- The blocks of one type are read into what their parts are. -/
theorem filtered_parts {α β : Type} {type : String} {block : α → Json} {pick : α → Option β} {read : Json → β} {parts : List α}
    (hpick : ∀ a ∈ parts, ∀ b, pick a = some b → has_type type (block a) = true ∧ read (block a) = b)
    (hother : ∀ a ∈ parts, pick a = none → has_type type (block a) = false) :
    ((parts.map block).filter (has_type type)).map read = parts.filterMap pick := by
  induction parts with
  | nil => rfl
  | cons a parts ih =>
    have hrest := ih (fun b hb => hpick b (List.mem_cons_of_mem _ hb)) (fun b hb => hother b (List.mem_cons_of_mem _ hb))
    rw [List.map_cons]
    cases hp : pick a with
    | none =>
      rw [List.filter_cons_of_neg (by simp [hother a List.mem_cons_self hp]), List.filterMap_cons_none hp]
      exact hrest
    | some b =>
      obtain ⟨htype, hread⟩ := hpick a List.mem_cons_self b hp
      rw [List.filter_cons_of_pos htype, List.map_cons, List.filterMap_cons_some hp, hread, hrest]

theorem has_type_of {b : Json} {type : String} {t : Bytes} (h : field_text b "type" = t) : has_type type b = decide (t = bytes type) := by
  rw [has_type, h]

theorem blocks_message_typed {role : String} {blocks : List Json} (h : ∀ b ∈ blocks, BlockTyped b) :
    MessageTyped (blocks_message role blocks) ∧ content_of (blocks_message role blocks) = .arr blocks ∧
      is_assistant (blocks_message role blocks) = decide (bytes role = bytes "assistant") := by
  have hcontent : content_of (blocks_message role blocks) = .arr blocks := by
    rw [content_of, blocks_message, Json.value_head, Option.getD_some]
  have hrole (dflt : Bytes) : (blocks_message role blocks).value_string (bytes "role") dflt = some (bytes role) :=
    Json.value_string_of ((Json.value_tail key_names.1 _ _ _).trans (Json.value_head _ _ _ _))
  refine ⟨⟨rfl, by rw [IsText, hrole]; rfl, fun b hb => ?_⟩, hcontent, by simp [is_assistant, hrole]⟩
  rw [blocks_of, hcontent] at hb
  exact h b (List.mem_filter.1 hb).1

theorem user_part_typed (p : UserPart) : BlockTyped p.block ∧ p.block.is_object = true := by
  cases p with
  | text t => exact ⟨(text_block_typed t).1, rfl⟩
  | tool_result id content => exact ⟨(result_block_typed id content).1, rfl⟩

theorem assistant_part_typed {p : AssistantPart} (h : p.Dumps) : BlockTyped p.block ∧ p.block.is_object = true := by
  cases p with
  | text t => exact ⟨(text_block_typed t).1, rfl⟩
  | tool_use id name input => exact ⟨(use_block_typed id name h).1, rfl⟩

theorem user_parts_said (parts : List UserPart) :
    flattened (.arr (parts.map UserPart.block)) = joined (parts.filterMap UserPart.said) := by
  refine flattened_parts (fun p _ t hp => ?_) (fun p _ hp => ?_)
  · cases p with
    | text s => exact congrArg text_block (Option.some.inj hp)
    | tool_result => cases hp
  · cases p with
    | text s => cases hp
    | tool_result id content =>
      refine ⟨(result_block_typed id content).1, ?_⟩
      rw [(result_block_typed id content).2.1]
      exact Ne.symm type_names.2.1

theorem user_parts_results (parts : List UserPart) :
    ((parts.map UserPart.block).filter (has_type "tool_result")).map result_of =
      (parts.filterMap UserPart.result).map (fun (id, content) => ⟨⟨content, []⟩, .tool, id⟩) := by
  rw [List.map_filterMap]
  refine filtered_parts (fun p _ c hp => ?_) (fun p _ hp => ?_)
  · cases p with
    | text t => cases hp
    | tool_result id content =>
      obtain ⟨-, htype, hresult⟩ := result_block_typed id content
      exact ⟨(has_type_of htype).trans (decide_eq_true rfl), hresult.trans (Option.some.inj hp)⟩
  · cases p with
    | text t => exact (has_type_of (text_block_typed t).2.1).trans (decide_eq_false type_names.2.1)
    | tool_result => cases hp

theorem assistant_parts_said {parts : List AssistantPart} (h : ∀ p ∈ parts, p.Dumps) :
    flattened (.arr (parts.map AssistantPart.block)) = joined (parts.filterMap AssistantPart.said) := by
  refine flattened_parts (fun p _ t hp => ?_) (fun p hmem hp => ?_)
  · cases p with
    | text s => exact congrArg text_block (Option.some.inj hp)
    | tool_use => cases hp
  · cases p with
    | text s => cases hp
    | tool_use id name input =>
      obtain ⟨htyped, htype, -⟩ := use_block_typed id name (h _ hmem)
      refine ⟨htyped, fun heq => type_names.1 (heq.symm.trans htype)⟩

theorem assistant_parts_calls {parts : List AssistantPart} (h : ∀ p ∈ parts, p.Dumps) :
    ((parts.map AssistantPart.block).filter (has_type "tool_use")).map call_of = parts.filterMap AssistantPart.call := by
  refine filtered_parts (fun p hmem c hp => ?_) (fun p _ hp => ?_)
  · cases p with
    | text t => cases hp
    | tool_use id name input =>
      obtain ⟨-, htype, hcall⟩ := use_block_typed id name (h _ hmem)
      exact ⟨(has_type_of htype).trans (decide_eq_true rfl), hcall.trans (Option.some.inj hp)⟩
  · cases p with
    | text t => exact (has_type_of (text_block_typed t).2.1).trans (decide_eq_false type_names.1)
    | tool_use => cases hp

theorem user_converted (parts : List UserPart) :
    MessageTyped (Turn.user parts).anthropic ∧ converted (Turn.user parts).anthropic = (Turn.user parts).means := by
  have hmem : ∀ b ∈ parts.map UserPart.block, BlockTyped b ∧ b.is_object = true := by
    intro b hb
    obtain ⟨p, -, rfl⟩ := List.mem_map.1 hb
    exact user_part_typed p
  obtain ⟨htyped, hcontent, hrole⟩ := @blocks_message_typed "user" _ fun b hb => (hmem b hb).1
  refine ⟨htyped, ?_⟩
  have huser : is_assistant (Turn.user parts).anthropic = false := hrole.trans (decide_eq_false role_names.1)
  have hc : content_of (Turn.user parts).anthropic = .arr (parts.map UserPart.block) := hcontent
  have hblocks : blocks_of (Turn.user parts).anthropic = parts.map UserPart.block := by
    rw [blocks_of, hc]
    exact List.filter_eq_self.2 fun b hb => (hmem b hb).2
  have hresults : (tool_results (Turn.user parts).anthropic).map result_of =
      (parts.filterMap UserPart.result).map (fun (id, content) => ⟨⟨content, []⟩, .tool, id⟩) := by
    rw [tool_results, if_neg (by simp [huser]), hblocks]
    exact user_parts_results parts
  have htext : message_of (Turn.user parts).anthropic = ⟨⟨joined (parts.filterMap UserPart.said), []⟩, .user, []⟩ := by
    simp [message_of, tool_uses, huser, hc, user_parts_said]
  rw [converted, hresults, has_content, htext, Turn.means]
  simp

theorem assistant_converted {parts : List AssistantPart} (h : ∀ p ∈ parts, p.Dumps) :
    MessageTyped (Turn.assistant parts).anthropic ∧ converted (Turn.assistant parts).anthropic = (Turn.assistant parts).means := by
  have hmem : ∀ b ∈ parts.map AssistantPart.block, BlockTyped b ∧ b.is_object = true := by
    intro b hb
    obtain ⟨p, hp, rfl⟩ := List.mem_map.1 hb
    exact assistant_part_typed (h p hp)
  obtain ⟨htyped, hcontent, hrole⟩ := @blocks_message_typed "assistant" _ fun b hb => (hmem b hb).1
  refine ⟨htyped, ?_⟩
  have hassistant : is_assistant (Turn.assistant parts).anthropic = true := hrole.trans (decide_eq_true rfl)
  have hc : content_of (Turn.assistant parts).anthropic = .arr (parts.map AssistantPart.block) := hcontent
  have hblocks : blocks_of (Turn.assistant parts).anthropic = parts.map AssistantPart.block := by
    rw [blocks_of, hc]
    exact List.filter_eq_self.2 fun b hb => (hmem b hb).2
  have hcalls : (tool_uses (Turn.assistant parts).anthropic).map call_of = parts.filterMap AssistantPart.call := by
    rw [tool_uses, if_pos hassistant, hblocks]
    exact assistant_parts_calls h
  have hresults : tool_results (Turn.assistant parts).anthropic = [] := by rw [tool_results, if_pos hassistant]
  have htext : message_of (Turn.assistant parts).anthropic =
      ⟨⟨joined (parts.filterMap AssistantPart.said), parts.filterMap AssistantPart.call⟩, .assistant, []⟩ := by
    rw [message_of, hcalls, hc, assistant_parts_said h, if_pos hassistant]
  rw [converted, hresults, has_content, htext, Turn.means]
  simp

/-! ### Over OpenAI's protocol -/

theorem content_str_of {fields : List (Bytes × Json)} (t : Bytes) : content_str (.obj ((bytes "content", .str t) :: fields)) = t := by
  simp [content_str, Json.get?]

theorem openai_text_message (role : String) (t : Bytes) (hrole : bytes role ≠ bytes "tool") :
    openai_message (text_message role t) = some ⟨⟨t, []⟩, bytes role, [], []⟩ := by
  obtain ⟨hcr, hct, hrt, -⟩ := key_names
  have hr : (text_message role t).value_string (bytes "role") (bytes "user") = some (bytes role) :=
    Json.value_string_of ((Json.value_tail hcr _ _ _).trans (Json.value_head _ _ _ _))
  have hcalls : (text_message role t).get? (bytes "tool_calls") = none := by simp [text_message, Json.get?, hct, hrt]
  unfold openai_message
  rw [hr, hcalls]
  simp [hrole, text_message, content_str_of]

theorem openai_tool_message (result : Bytes × Bytes) :
    openai_message (tool_message result) = some ⟨⟨result.2, []⟩, bytes "tool", result.1, []⟩ := by
  obtain ⟨hcr, hct, hrt, hci, hri, hcn, hrn, hin, hit⟩ := key_names
  have hr : (tool_message result).value_string (bytes "role") (bytes "user") = some (bytes "tool") :=
    Json.value_string_of ((Json.value_tail hcr _ _ _).trans (Json.value_head _ _ _ _))
  have hid : (tool_message result).value_string (bytes "tool_call_id") [] = some result.1 :=
    Json.value_string_of (((Json.value_tail hci _ _ _).trans (Json.value_tail hri _ _ _)).trans (Json.value_head _ _ _ _))
  have hname : (tool_message result).value_string (bytes "name") [] = some [] :=
    Json.value_string_of (((Json.value_tail hcn _ _ _).trans (Json.value_tail hrn _ _ _)).trans (Json.value_tail hin _ _ _))
  have hcalls : (tool_message result).get? (bytes "tool_calls") = none := by
    simp [tool_message, Json.get?, hct, hrt, hit]
  unfold openai_message
  rw [hr, hcalls]
  simp [hid, hname]
  simp [tool_message, content_str_of]

theorem openai_call_json (tc : ChatToolCall) : openai_call (call_json tc) = some tc := by
  obtain ⟨-, -, -, -, -, -, -, -, -, -, hfi, han⟩ := block_keys
  have hfn : (call_json tc).value (bytes "function") (.obj []) =
      some (.obj [(bytes "arguments", .str tc.arguments), (bytes "name", .str tc.name)]) := Json.value_head _ _ _ _
  have hid : (call_json tc).value_string (bytes "id") [] = some tc.id :=
    Json.value_string_of ((Json.value_tail hfi _ _ _).trans (Json.value_head _ _ _ _))
  have hname : (Json.obj [(bytes "arguments", .str tc.arguments), (bytes "name", .str tc.name)]).value_string (bytes "name") [] =
      some tc.name := Json.value_string_of ((Json.value_tail han _ _ _).trans (Json.value_head _ _ _ _))
  have harguments : (Json.obj [(bytes "arguments", .str tc.arguments), (bytes "name", .str tc.name)]).value_string
      (bytes "arguments") [] = some tc.arguments := Json.value_string_of (Json.value_head _ _ _ _)
  unfold openai_call
  rw [hfn, hid]
  simp [hname, harguments]

theorem openai_assistant_message (t : Bytes) (calls : List ChatToolCall) :
    openai_message (assistant_message t (calls.map call_json)) = some ⟨⟨t, calls⟩, bytes "assistant", [], []⟩ := by
  obtain ⟨hcr, hct, hrt, -⟩ := key_names
  have hr : (assistant_message t (calls.map call_json)).value_string (bytes "role") (bytes "user") = some (bytes "assistant") :=
    Json.value_string_of ((Json.value_tail hcr _ _ _).trans (Json.value_head _ _ _ _))
  have hcalls : (assistant_message t (calls.map call_json)).get? (bytes "tool_calls") = some (.arr (calls.map call_json)) := by
    simp [assistant_message, Json.get?, hct, hrt]
  have hcontent : content_str (assistant_message t (calls.map call_json)) = t := by
    by_cases ht : t = []
    · simp [assistant_message, content_str, Json.get?, ht]
    · rw [assistant_message, if_pos ht, content_str_of]
  have hread : (calls.map call_json).mapM openai_call = some (calls.map id) := Json.mapM_map openai_call_json calls
  unfold openai_message
  rw [hr, hcalls]
  simp [role_names.2.2.1, hread, hcontent]

theorem mapM_append_some {α β : Type} {f : α → Option β} {l₁ l₂ : List α} {r₁ r₂ : List β} (h₁ : l₁.mapM f = some r₁)
    (h₂ : l₂.mapM f = some r₂) : (l₁ ++ l₂).mapM f = some (r₁ ++ r₂) := by
  rw [List.mapM_append, h₁, h₂]
  rfl

/-- A turn is read into what it means. -/
theorem openai_turn (t : Turn) : t.openai.mapM openai_message = some (t.means.map CommonMsg.message) := by
  cases t with
  | user parts =>
    have hresults : ((parts.filterMap UserPart.result).map tool_message).mapM openai_message =
        some (((parts.filterMap UserPart.result).map fun (id, content) => ⟨⟨content, []⟩, .tool, id⟩).map CommonMsg.message) := by
      rw [List.map_map]
      exact Json.mapM_map openai_tool_message _
    rw [Turn.openai, Turn.means, List.map_append]
    refine mapM_append_some hresults ?_
    by_cases ht : joined (parts.filterMap UserPart.said) = []
    · simp [ht]
    · rw [if_pos ht, if_pos ht, List.mapM_cons, openai_text_message "user" _ role_names.2.1]
      rfl
  | assistant parts =>
    rw [Turn.openai, Turn.means]
    by_cases hcalls : parts.filterMap AssistantPart.call = []
    · by_cases ht : joined (parts.filterMap AssistantPart.said) = []
      · simp [hcalls, ht]
      · rw [if_neg (by simp [hcalls]), if_pos ht, if_pos (Or.inl ht), List.mapM_cons,
          openai_text_message "assistant" _ role_names.2.2.1, hcalls]
        rfl
    · rw [if_pos hcalls, if_pos (Or.inr hcalls), List.mapM_cons, openai_assistant_message]
      rfl

theorem openai_transcript {messages : List Json} {msgs : List Message} (h : messages.mapM openai_message = some msgs)
    (ts : List Turn) :
    (messages ++ ts.flatMap Turn.openai).mapM openai_message = some (msgs ++ (ts.flatMap Turn.means).map CommonMsg.message) := by
  refine mapM_append_some h ?_
  induction ts with
  | nil => rfl
  | cons t ts ih =>
    rw [List.flatMap_cons, List.flatMap_cons, List.map_append]
    exact mapM_append_some (openai_turn t) ih

theorem openai_system_read (system : Bytes) :
    (openai_system system).mapM openai_message = some ((system_messages system).map CommonMsg.message) := by
  unfold openai_system system_messages
  by_cases hs : system = []
  · simp [hs]
  · rw [if_pos hs, if_pos hs, List.mapM_cons, openai_text_message "system" _ role_names.2.2.2]
    rfl

theorem turn_converted {t : Turn} (h : t.Dumps) : MessageTyped t.anthropic ∧ converted t.anthropic = t.means := by
  cases t with
  | user parts => exact user_converted parts
  | assistant parts => exact assistant_converted h

theorem anthropic_transcript {ts : List Turn} (h : ∀ t ∈ ts, t.Dumps) (system : Bytes) :
    anthropic_to_common (.arr (ts.map Turn.anthropic)) system = some (system_messages system ++ ts.flatMap Turn.means) := by
  have htyped : ∀ m ∈ ts.map Turn.anthropic, MessageTyped m := by
    intro m hm
    obtain ⟨t, ht, rfl⟩ := List.mem_map.1 hm
    exact (turn_converted (h t ht)).1
  rw [anthropic_to_common_eq htyped, List.flatMap_map]
  refine congrArg (fun l => some (system_messages system ++ l)) ?_
  induction ts with
  | nil => rfl
  | cons t ts ih =>
    rw [List.flatMap_cons, List.flatMap_cons, (turn_converted (h t List.mem_cons_self)).2,
      ih (fun u hu => h u (List.mem_cons_of_mem _ hu)) (fun m hm => htyped m (List.mem_cons_of_mem _ hm))]

/-! ### Tools -/

structure Tool where
  name : Bytes
  description : Bytes
  schema : Json

def Tool.anthropic (t : Tool) : Json :=
  .obj [(bytes "description", .str t.description), (bytes "input_schema", t.schema), (bytes "name", .str t.name)]

def Tool.openai (t : Tool) : Json :=
  .obj [(bytes "function", .obj [(bytes "description", .str t.description), (bytes "name", .str t.name),
    (bytes "parameters", t.schema)]), (bytes "type", .str (bytes "function"))]

theorem tool_keys : bytes "description" ≠ bytes "name" ∧ bytes "input_schema" ≠ bytes "name" ∧
    bytes "description" ≠ bytes "input_schema" ∧ bytes "description" ≠ bytes "parameters" ∧
    bytes "name" ≠ bytes "parameters" := by
  decide +kernel

/-- Both spellings of a tool are read alike, also when its schema has no text. -/
theorem tool_read (t : Tool) : to_common_tool false t.openai = to_common_tool true t.anthropic := by
  obtain ⟨hdn, hsn, hds, hdp, hnp⟩ := tool_keys
  have hname : t.anthropic.value_string (bytes "name") [] = some t.name :=
    Json.value_string_of (((Json.value_tail hdn _ _ _).trans (Json.value_tail hsn _ _ _)).trans (Json.value_head _ _ _ _))
  have hdescription : t.anthropic.value_string (bytes "description") [] = some t.description :=
    Json.value_string_of (Json.value_head _ _ _ _)
  have hschema : dump_field t.anthropic "input_schema" = t.schema.dump := by
    simp [dump_field, Tool.anthropic, Json.get?, hds]
  have hfn : t.openai.get? (bytes "function") = some (.obj [(bytes "description", .str t.description),
      (bytes "name", .str t.name), (bytes "parameters", t.schema)]) := by
    simp [Tool.openai, Json.get?]
  have hname' : (Json.obj [(bytes "description", .str t.description), (bytes "name", .str t.name),
      (bytes "parameters", t.schema)]).value_string (bytes "name") [] = some t.name :=
    Json.value_string_of ((Json.value_tail hdn _ _ _).trans (Json.value_head _ _ _ _))
  have hdescription' : (Json.obj [(bytes "description", .str t.description), (bytes "name", .str t.name),
      (bytes "parameters", t.schema)]).value_string (bytes "description") [] = some t.description :=
    Json.value_string_of (Json.value_head _ _ _ _)
  have hschema' : dump_field (Json.obj [(bytes "description", .str t.description), (bytes "name", .str t.name),
      (bytes "parameters", t.schema)]) "parameters" = t.schema.dump := by
    simp [dump_field, Json.get?, hdp, hnp]
  unfold to_common_tool
  rw [hfn, hname, hdescription, hschema]
  simp [hname', hdescription', hschema']

theorem tools_read (tools : List Tool) :
    to_common_tools (.arr (tools.map Tool.openai)) false = to_common_tools (.arr (tools.map Tool.anthropic)) true := by
  have hfold (out : List CommonTool) :
      (tools.map Tool.openai).foldlM (add_tool false) out = (tools.map Tool.anthropic).foldlM (add_tool true) out := by
    induction tools generalizing out with
    | nil => rfl
    | cons t tools ih =>
      have hadd : add_tool false out t.openai = add_tool true out t.anthropic := by
        have hread := tool_read t
        have hobject : t.openai.is_object = true ∧ t.anthropic.is_object = true := ⟨rfl, rfl⟩
        simp only [add_tool, hobject.1, hobject.2, hread]
      rw [List.map_cons, List.map_cons, List.foldlM_cons, List.foldlM_cons, hadd]
      exact congrArg _ (funext ih)
  exact hfold []

end Hostely.Inference
