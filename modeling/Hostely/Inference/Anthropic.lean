import Hostely.Lib.Json
import Hostely.Inference.Messages
/-!
# Anthropic messages to common ones

One message with tool blocks becomes several: a `tool_use` block of an assistant
message a tool call of it, a `tool_result` block of any other message a message
of its own in front of it. A message with neither text nor tool calls is left
out, and nothing else is lost.
-/

open Hostely.Lib

namespace Hostely.Inference

inductive Role where
  | system | user | assistant | tool
deriving DecidableEq, Repr

/-- `common_chat_msg` on its way into a prompt. -/
structure CommonMsg extends ChatMsg where
  role : Role
  tool_call_id : Bytes
deriving DecidableEq, Repr

/-! ## The conversion -/

def flatten_block (out : Bytes) (block : Json) : Option Bytes :=
  if !block.is_object then some out
  else do
    if (← block.value_string (bytes "type") []) = bytes "text" then
      let out := if out ≠ [] then out ++ bytes "\n" else out
      return out ++ (← block.value_string (bytes "text") [])
    else return out

def flatten_anthropic_content (content : Json) : Option Bytes :=
  match content with
  | .str s => some s
  | .arr blocks => blocks.foldlM flatten_block []
  | _ => some []

def convert_tool_use (block : Json) : Option ChatToolCall := do
  let id ← block.value_string (bytes "id") []
  let name ← block.value_string (bytes "name") []
  let arguments ← match block.get? (bytes "input") with
    | some input => input.dump
    | none => some []
  return ⟨name, id, arguments⟩

def convert_tool_result (block : Json) : Option CommonMsg := do
  let tool_call_id ← block.value_string (bytes "tool_use_id") []
  let content ← match block.get? (bytes "content") with
    | some (.str s) => some s
    | some content => flatten_anthropic_content content
    | none => some []
  return { content := content, tool_calls := [], role := .tool, tool_call_id := tool_call_id }

/-- One block of the message `c`, with the messages put out so far. -/
def convert_block (assistant : Bool) (acc : CommonMsg × List CommonMsg) (block : Json) :
    Option (CommonMsg × List CommonMsg) :=
  if !block.is_object then some acc
  else do
    let type ← block.value_string (bytes "type") []
    if assistant ∧ type = bytes "tool_use" then
      return ({ acc.1 with tool_calls := acc.1.tool_calls ++ [← convert_tool_use block] }, acc.2)
    else if !assistant ∧ type = bytes "tool_result" then
      return (acc.1, acc.2 ++ [← convert_tool_result block])
    else return acc

/-- `if (content.is_array())` and the loop under it. -/
def convert_blocks (assistant : Bool) (content : Json) (c : CommonMsg) (out : List CommonMsg) :
    Option (CommonMsg × List CommonMsg) :=
  match content with
  | .arr blocks => blocks.foldlM (convert_block assistant) (c, out)
  | _ => some (c, out)

def convert_message (out : List CommonMsg) (m : Json) : Option (List CommonMsg) := do
  let assistant : Bool := (← m.value_string (bytes "role") (bytes "user")) = bytes "assistant"
  let content ← m.value (bytes "content") .null
  let text ← flatten_anthropic_content content
  let c : CommonMsg :=
    { content := text, tool_calls := [], role := if assistant then .assistant else .user, tool_call_id := [] }
  let (c, out) ← convert_blocks assistant content c out
  return if c.content ≠ [] ∨ c.tool_calls ≠ [] then out ++ [c] else out

def system_messages (system : Bytes) : List CommonMsg :=
  if system ≠ [] then [{ content := system, tool_calls := [], role := .system, tool_call_id := [] }] else []

def anthropic_to_common (messages : Json) (system : Bytes) : Option (List CommonMsg) :=
  messages.elements.foldlM convert_message (system_messages system)

/-! ## What the messages hold -/

/-- The text under a key, empty without the key. -/
def field_text (j : Json) (key : String) : Bytes := (j.value_string (bytes key) []).getD []

def has_type (type : String) (block : Json) : Bool := field_text block "type" = bytes type

def is_assistant (m : Json) : Bool := m.value_string (bytes "role") (bytes "user") = some (bytes "assistant")

def content_of (m : Json) : Json := (m.value (bytes "content") .null).getD .null

def object_blocks (content : Json) : List Json :=
  match content with
  | .arr blocks => blocks.filter Json.is_object
  | _ => []

/-- The blocks of a message that are objects. -/
def blocks_of (m : Json) : List Json := object_blocks (content_of m)

def flattened (content : Json) : Bytes := (flatten_anthropic_content content).getD []

def tool_uses (m : Json) : List Json := if is_assistant m then (blocks_of m).filter (has_type "tool_use") else []

def tool_results (m : Json) : List Json := if is_assistant m then [] else (blocks_of m).filter (has_type "tool_result")

/-- The tool call of a `tool_use` block. -/
def call_of (block : Json) : ChatToolCall :=
  ⟨field_text block "name", field_text block "id", ((block.get? (bytes "input")).bind Json.dump).getD []⟩

/-- The message of a `tool_result` block. -/
def result_of (block : Json) : CommonMsg where
  content := ((block.get? (bytes "content")).map flattened).getD []
  tool_calls := []
  role := .tool
  tool_call_id := field_text block "tool_use_id"

/-- What a message becomes itself. -/
def message_of (m : Json) : CommonMsg where
  content := flattened (content_of m)
  tool_calls := (tool_uses m).map call_of
  role := if is_assistant m then .assistant else .user
  tool_call_id := []

def has_content (m : Json) : Bool := (message_of m).content ≠ [] ∨ (message_of m).tool_calls ≠ []

/-! ## Types of fields -/

/-- A string, or nothing. -/
def IsText (j : Json) (key : String) : Prop := (j.value_string (bytes key) []).isSome = true

instance (j : Json) (key : String) : Decidable (IsText j key) :=
  inferInstanceAs (Decidable ((j.value_string (bytes key) []).isSome = true))

/-- The blocks have types, and those of text a text. -/
def FlatTyped (content : Json) : Prop :=
  ∀ blocks, content = .arr blocks → ∀ b ∈ blocks, b.is_object = true →
    IsText b "type" ∧ (has_type "text" b = true → IsText b "text")

/-- The fields that are read of a block have the expected types. -/
structure BlockTyped (b : Json) : Prop where
  type : IsText b "type"
  text : has_type "text" b = true → IsText b "text"
  tool_use : has_type "tool_use" b = true →
    IsText b "id" ∧ IsText b "name" ∧ ∀ input ∈ b.get? (bytes "input"), input.dump.isSome = true
  tool_result : has_type "tool_result" b = true →
    IsText b "tool_use_id" ∧ ∀ content ∈ b.get? (bytes "content"), FlatTyped content

structure MessageTyped (m : Json) : Prop where
  object : m.is_object = true
  role : IsText m "role"
  blocks : ∀ b ∈ blocks_of m, BlockTyped b

theorem IsText.eq {j : Json} {key : String} (h : IsText j key) : j.value_string (bytes key) [] = some (field_text j key) := by
  obtain ⟨s, hs⟩ := Option.isSome_iff_exists.1 h
  rw [field_text, hs]
  rfl

/-! ## One block -/

theorem flatten_block_isSome {b : Json} (h : b.is_object = true → IsText b "type" ∧ (has_type "text" b = true → IsText b "text"))
    (out : Bytes) : (flatten_block out b).isSome = true := by
  unfold flatten_block
  cases hb : b.is_object with
  | false => rfl
  | true =>
    obtain ⟨htype, htext⟩ := h hb
    rw [htype.eq]
    by_cases ht : field_text b "type" = bytes "text"
    · simp [ht, (htext (by simp [has_type, ht])).eq]
    · simp [ht]

theorem flatten_isSome {content : Json} (h : FlatTyped content) :
    flatten_anthropic_content content = some (flattened content) := by
  have hsome : (flatten_anthropic_content content).isSome = true := by
    cases content with
    | arr blocks =>
      have hfold (l : List Json) (hl : ∀ b ∈ l, b ∈ blocks) (out : Bytes) : (l.foldlM flatten_block out).isSome = true := by
        induction l generalizing out with
        | nil => rfl
        | cons b l ih =>
          obtain ⟨out', hout⟩ := Option.isSome_iff_exists.1
            (flatten_block_isSome (fun hb => h blocks rfl b (hl b List.mem_cons_self) hb) out)
          rw [List.foldlM_cons, hout]
          exact ih (fun x hx => hl x (List.mem_cons_of_mem _ hx)) out'
      exact hfold blocks (fun b hb => hb) []
    | _ => rfl
  obtain ⟨s, hs⟩ := Option.isSome_iff_exists.1 hsome
  rw [flattened, hs]
  rfl

theorem convert_tool_use_eq {b : Json} (h : BlockTyped b) (ht : has_type "tool_use" b = true) :
    convert_tool_use b = some (call_of b) := by
  obtain ⟨hid, hname, hinput⟩ := h.tool_use ht
  unfold convert_tool_use call_of
  rw [hid.eq, hname.eq]
  cases hi : b.get? (bytes "input") with
  | none => rfl
  | some input =>
    obtain ⟨arguments, harguments⟩ := Option.isSome_iff_exists.1 (hinput input hi)
    simp [harguments]

theorem convert_tool_result_eq {b : Json} (h : BlockTyped b) (ht : has_type "tool_result" b = true) :
    convert_tool_result b = some (result_of b) := by
  obtain ⟨hid, hcontent⟩ := h.tool_result ht
  unfold convert_tool_result result_of
  rw [hid.eq]
  cases hc : b.get? (bytes "content") with
  | none => rfl
  | some content =>
    have hflat := flatten_isSome (hcontent content hc)
    cases content with
    | str s => rfl
    | _ => simp [hflat]

/-- A block adds a tool call to its message, or a message in front, or nothing. -/
theorem convert_block_eq {assistant : Bool} {b : Json} (hb : b.is_object = true) (h : BlockTyped b)
    (c : CommonMsg) (out : List CommonMsg) :
    convert_block assistant (c, out) b =
      some ({ c with tool_calls := c.tool_calls ++ if assistant && has_type "tool_use" b then [call_of b] else [] },
        out ++ if !assistant && has_type "tool_result" b then [result_of b] else []) := by
  unfold convert_block
  rw [hb, h.type.eq]
  cases assistant with
  | true =>
    by_cases ht : field_text b "type" = bytes "tool_use"
    · have htype : has_type "tool_use" b = true := by simp [has_type, ht]
      simp [ht, htype, convert_tool_use_eq h htype]
    · have htype : has_type "tool_use" b = false := by simp [has_type, ht]
      simp [ht, htype]
  | false =>
    by_cases ht : field_text b "type" = bytes "tool_result"
    · have htype : has_type "tool_result" b = true := by simp [has_type, ht]
      simp [ht, htype, convert_tool_result_eq h htype]
    · have htype : has_type "tool_result" b = false := by simp [has_type, ht]
      simp [ht, htype]

/-! ## One message -/

theorem convert_blocks_eq {assistant : Bool} {content : Json} (h : ∀ b ∈ object_blocks content, BlockTyped b)
    (c : CommonMsg) (out : List CommonMsg) :
    convert_blocks assistant content c out =
      some ({ c with tool_calls := c.tool_calls ++
          (if assistant then (object_blocks content).filter (has_type "tool_use") else []).map call_of },
        out ++ (if assistant then [] else (object_blocks content).filter (has_type "tool_result")).map result_of) := by
  cases content with
  | arr blocks =>
    unfold convert_blocks object_blocks at *
    dsimp only at h ⊢
    induction blocks generalizing c out with
    | nil => cases assistant <;> simp
    | cons b blocks ih =>
      rw [List.foldlM_cons]
      cases hb : b.is_object with
      | false =>
        have hskip : convert_block assistant (c, out) b = some (c, out) := by simp [convert_block, hb]
        rw [List.filter_cons_of_neg (by simp [hb])] at h
        rw [hskip, List.filter_cons_of_neg (by simp [hb])]
        exact ih c out h
      | true =>
        rw [List.filter_cons_of_pos hb] at h
        obtain ⟨hhead, htail⟩ := List.forall_mem_cons.1 h
        rw [convert_block_eq hb hhead, List.filter_cons_of_pos hb]
        refine (ih _ _ htail).trans ?_
        cases assistant <;> cases hu : has_type "tool_use" b <;> cases hr : has_type "tool_result" b <;> simp [hu, hr]
  | _ => cases assistant <;> simp [convert_blocks, object_blocks]

/-- What a message becomes, its tool results in front of it. -/
def converted (m : Json) : List CommonMsg :=
  (tool_results m).map result_of ++ if has_content m then [message_of m] else []

theorem IsText.default {j : Json} {key : String} (h : IsText j key) (dflt : Bytes) :
    (j.value_string (bytes key) dflt).isSome = true := by
  unfold IsText at h
  cases j with
  | obj fields =>
    simp only [Json.value_string, Json.value] at h ⊢
    cases hf : fields.find? (·.1 = bytes key) with
    | none => rfl
    | some f => simpa [hf] using h
  | _ => cases h

theorem content_flatTyped {m : Json} (h : MessageTyped m) : FlatTyped (content_of m) := by
  intro blocks hblocks b hb hobject
  have hmem : b ∈ blocks_of m := by
    rw [blocks_of, hblocks, object_blocks]
    exact List.mem_filter.2 ⟨hb, hobject⟩
  exact ⟨(h.blocks b hmem).type, (h.blocks b hmem).text⟩

theorem convert_message_eq {m : Json} (h : MessageTyped m) (out : List CommonMsg) :
    convert_message out m = some (out ++ converted m) := by
  obtain ⟨role, hrole⟩ := Option.isSome_iff_exists.1 (h.role.default (bytes "user"))
  have hassistant : decide (role = bytes "assistant") = is_assistant m := by simp [is_assistant, hrole]
  have hcontent : m.value (bytes "content") .null = some (content_of m) := by
    have hobject := h.object
    cases m with
    | obj fields => rfl
    | _ => cases hobject
  unfold convert_message
  rw [hrole, hcontent]
  simp only [Option.bind_eq_bind, Option.bind_some]
  rw [hassistant, flatten_isSome (content_flatTyped h)]
  simp only [Option.bind_some]
  rw [convert_blocks_eq h.blocks]
  show some (if (message_of m).content ≠ [] ∨ [] ++ (message_of m).tool_calls ≠ [] then
      out ++ (tool_results m).map result_of ++ [{ message_of m with tool_calls := [] ++ (message_of m).tool_calls }]
    else out ++ (tool_results m).map result_of) = _
  rw [List.nil_append, converted, has_content, ← List.append_assoc]
  by_cases hkept : (message_of m).content ≠ [] ∨ (message_of m).tool_calls ≠ []
  · rw [if_pos hkept, if_pos (by simpa using hkept)]
  · rw [if_neg hkept, if_neg (by simpa using hkept), List.append_nil]

/-! ## All messages -/

theorem anthropic_to_common_eq {messages : List Json} (h : ∀ m ∈ messages, MessageTyped m) (system : Bytes) :
    anthropic_to_common (.arr messages) system = some (system_messages system ++ messages.flatMap converted) := by
  have hfold (l : List Json) (hl : ∀ m ∈ l, MessageTyped m) (out : List CommonMsg) :
      l.foldlM convert_message out = some (out ++ l.flatMap converted) := by
    induction l generalizing out with
    | nil => simp
    | cons m l ih =>
      obtain ⟨hm, hl⟩ := List.forall_mem_cons.1 hl
      rw [List.foldlM_cons, convert_message_eq hm, List.flatMap_cons, ← List.append_assoc]
      exact ih hl _
  exact hfold messages h (system_messages system)

/-- The tool calls of a message are its `tool_use` blocks. -/
theorem converted_tool_calls (m : Json) : (converted m).flatMap (fun c => c.tool_calls) = (tool_uses m).map call_of := by
  have hresults : ((tool_results m).map result_of).flatMap (fun c => c.tool_calls) = [] := by
    apply List.flatMap_eq_nil_iff.2
    intro c hc
    obtain ⟨b, -, rfl⟩ := List.mem_map.1 hc
    rfl
  have hcalls : (message_of m).tool_calls = (tool_uses m).map call_of := rfl
  rw [converted, List.flatMap_append, hresults, List.nil_append]
  by_cases hkept : has_content m = true
  · simp [hkept, hcalls]
  · -- a message that is left out has no tool calls
    have hnone : (message_of m).tool_calls = [] := by
      by_contra hne
      exact hkept (by simp [has_content, hne])
    rw [if_neg hkept, ← hcalls, hnone]
    rfl

/-- Those of role `tool` are its `tool_result` blocks, and the other is the message itself. -/
theorem converted_roles (m : Json) :
    (converted m).filter (fun c => c.role = .tool) = (tool_results m).map result_of ∧
      (converted m).filter (fun c => c.role ≠ .tool) = if has_content m then [message_of m] else [] := by
  have hresults : ∀ c ∈ (tool_results m).map result_of, c.role = .tool := by
    intro c hc
    obtain ⟨b, -, rfl⟩ := List.mem_map.1 hc
    rfl
  have hself : (message_of m).role ≠ .tool := by
    unfold message_of
    split <;> simp
  have hself' : ∀ c ∈ (if has_content m then [message_of m] else []), c.role ≠ .tool := by
    intro c hc
    split at hc
    · obtain rfl := List.mem_singleton.1 hc
      exact hself
    · cases hc
  rw [converted, List.filter_append, List.filter_append]
  constructor
  · rw [List.filter_eq_self.2 (by simpa using hresults), List.filter_eq_nil_iff.2 (by simpa using hself'), List.append_nil]
  · rw [List.filter_eq_nil_iff.2 (by simpa using hresults), List.filter_eq_self.2 (by simpa using hself'), List.nil_append]

theorem system_messages_role (system : Bytes) : ∀ c ∈ system_messages system, c.role = .system ∧ c.tool_calls = [] := by
  intro c hc
  unfold system_messages at hc
  split at hc
  · obtain rfl := List.mem_singleton.1 hc
    exact ⟨rfl, rfl⟩
  · cases hc

/-- Every tool block is in the conversion once and in its order: the tool calls
are the `tool_use` blocks of the assistant's messages, the messages of role
`tool` the `tool_result` blocks of the others, and the rest the system message
and the messages that have text or tool calls. -/
theorem anthropic_to_common_keeps (messages : List Json) (system : Bytes) (h : ∀ m ∈ messages, MessageTyped m) :
    ∃ out, anthropic_to_common (.arr messages) system = some out ∧
      out.flatMap (fun c => c.tool_calls) = (messages.flatMap tool_uses).map call_of ∧
      out.filter (fun c => c.role = .tool) = (messages.flatMap tool_results).map result_of ∧
      out.filter (fun c => c.role ≠ .tool) = system_messages system ++ (messages.filter has_content).map message_of := by
  have hsystem := system_messages_role system
  refine ⟨_, anthropic_to_common_eq h system, ?_, ?_, ?_⟩
  · have hnone : (system_messages system).flatMap (fun c => c.tool_calls) = [] :=
      List.flatMap_eq_nil_iff.2 fun c hc => (hsystem c hc).2
    rw [List.flatMap_append, hnone, List.nil_append, List.flatMap_assoc, List.map_flatMap]
    simp only [converted_tool_calls]
  · have hnone : (system_messages system).filter (fun c => c.role = .tool) = [] := by
      apply List.filter_eq_nil_iff.2
      intro c hc
      simp [(hsystem c hc).1]
    rw [List.filter_append, hnone, List.nil_append, List.filter_flatMap, List.map_flatMap]
    simp only [(converted_roles _).1]
  · have hall : (system_messages system).filter (fun c => c.role ≠ .tool) = system_messages system := by
      apply List.filter_eq_self.2
      intro c hc
      simp [(hsystem c hc).1]
    rw [List.filter_append, hall, List.filter_flatMap]
    simp only [(converted_roles _).2]
    congr 1
    induction messages with
    | nil => rfl
    | cons m messages ih =>
      rw [List.flatMap_cons, List.filter_cons, ih fun x hx => h x (List.mem_cons_of_mem _ hx)]
      split <;> simp

def weather_use : Json := .obj [(bytes "type", .str (bytes "tool_use")), (bytes "id", .str (bytes "t1")),
  (bytes "name", .str (bytes "weather")), (bytes "input", .obj [(bytes "city", .str (bytes "Rabat"))])]

def weather_result : Json := .obj [(bytes "type", .str (bytes "tool_result")), (bytes "tool_use_id", .str (bytes "t1")),
  (bytes "content", .str (bytes "sunny"))]

/-- An assistant's message with a tool call, and the user's with its result. -/
def weather_messages : List Json :=
  [.obj [(bytes "role", .str (bytes "assistant")), (bytes "content", .arr [weather_use])],
    .obj [(bytes "role", .str (bytes "user")), (bytes "content", .arr [weather_result])]]

theorem weather_use_typed : BlockTyped weather_use where
  type := by decide +kernel
  text h := absurd h (by decide +kernel)
  tool_use _ := by
    refine ⟨by decide +kernel, by decide +kernel, fun input hinput => ?_⟩
    obtain rfl : _ = input := Option.some.inj hinput
    decide +kernel
  tool_result h := absurd h (by decide +kernel)

theorem weather_result_typed : BlockTyped weather_result where
  type := by decide +kernel
  text h := absurd h (by decide +kernel)
  tool_use h := absurd h (by decide +kernel)
  tool_result _ := by
    refine ⟨by decide +kernel, fun content hcontent blocks hblocks => ?_⟩
    obtain rfl : _ = content := Option.some.inj hcontent
    cases hblocks

theorem weather_messages_typed : ∀ m ∈ weather_messages, MessageTyped m := by
  have huse : ∀ b ∈ [weather_use], BlockTyped b := List.forall_mem_singleton.2 weather_use_typed
  have hresult : ∀ b ∈ [weather_result], BlockTyped b := List.forall_mem_singleton.2 weather_result_typed
  refine List.forall_mem_cons.2 ⟨⟨rfl, by decide +kernel, huse⟩,
    List.forall_mem_singleton.2 ⟨rfl, by decide +kernel, hresult⟩⟩

theorem anthropic_to_common_keeps_weather : ∃ out, anthropic_to_common (.arr weather_messages) [] = some out ∧
    out.flatMap (fun c => c.tool_calls) = (weather_messages.flatMap tool_uses).map call_of ∧
    out.filter (fun c => c.role = .tool) = (weather_messages.flatMap tool_results).map result_of ∧
    out.filter (fun c => c.role ≠ .tool) = system_messages [] ++ (weather_messages.filter has_content).map message_of :=
  anthropic_to_common_keeps weather_messages [] weather_messages_typed

end Hostely.Inference
