import Hostely.Inference.Messages
/-!
# The shape of the SSE stream

`WellFormed` is the Anthropic protocol: one `message_start`, content blocks
0, 1, 2, ... that do not overlap, one `message_delta`, one `message_stop`. The
emitter tells whether it has started from `next_block` and `block_open`, but
with tools it opens no block when it starts. So it starts again.
-/

open Hostely.Lib

namespace Hostely.Inference

/-! ## The protocol -/

/-- Complete content blocks `i`, `i + 1`, ..., `j - 1`. -/
inductive Blocks : Int → Int → List Event → Prop
  | nil (i : Int) : Blocks i i []
  | block {i j : Int} (type : BlockType) (deltas : List Delta) {rest : List Event} : Blocks (i + 1) j rest →
      Blocks i j (.content_block_start i type :: deltas.map (Event.content_block_delta i) ++
        .content_block_stop i :: rest)

def WellFormed (es : List Event) : Prop :=
  ∃ id model input_tokens blocks j stop_reason output_tokens, Blocks 0 j blocks ∧
    es = .message_start id model input_tokens :: blocks ++ [.message_delta stop_reason output_tokens, .message_stop]

theorem Blocks.append {i j k : Int} {a b : List Event} (ha : Blocks i j a) (hb : Blocks j k b) :
    Blocks i k (a ++ b) := by
  induction ha with
  | nil => exact hb
  | block type deltas _ ih =>
    have := Blocks.block type deltas (ih hb)
    simpa using this

/-- One more block at the end. -/
theorem Blocks.snoc {i j : Int} {a : List Event} (ha : Blocks i j a) (type : BlockType) (deltas : List Delta) :
    Blocks i (j + 1) (a ++ (.content_block_start j type :: deltas.map (Event.content_block_delta j) ++
      [.content_block_stop j])) :=
  ha.append (.block type deltas (.nil _))

/-- Inside the blocks the message neither starts nor stops. -/
theorem Blocks.inner {i j : Int} {es : List Event} (h : Blocks i j es) :
    (∀ id model n, .message_start id model n ∉ es) ∧ .message_stop ∉ es := by
  induction h with
  | nil => simp
  | block type deltas _ ih => simp [ih.1, ih.2]

theorem WellFormed.stops {es : List Event} (h : WellFormed es) : .message_stop ∈ es := by
  obtain ⟨id, model, n, blocks, j, reason, out, _, rfl⟩ := h
  simp

/-- A well-formed stream starts once. -/
theorem WellFormed.starts_once {es : List Event} (h : WellFormed es) {a b : Event} (hp : [a, b] <+: es) :
    ∀ id model n, b ≠ .message_start id model n := by
  obtain ⟨id, model, n, blocks, j, reason, out, hb, rfl⟩ := h
  obtain ⟨rest, hrest⟩ := hp
  have hmem : b ∈ blocks ++ [.message_delta reason out, .message_stop] := by
    simp only [List.cons_append, List.nil_append, List.cons.injEq] at hrest
    rw [← hrest.2]
    exact List.mem_cons_self
  rintro id' model' n' rfl
  rw [List.mem_append] at hmem
  rcases hmem with hmem | hmem
  · exact hb.inner.1 id' model' n' hmem
  · simp at hmem

/-! ## The calls of the hooks -/

/-- What `complete_stream` does with its hooks and what it returns: no call of
`on_prefill` when it fails early, else one, then the pieces. -/
structure HookCalls where
  prefill : Option Nat
  pieces : List Bytes
  text : Bytes
  stats : CompletionStats
  early : prefill = none → pieces = [] ∧ text = []
  nonempty : ∀ p ∈ pieces, p ≠ []

section Respond
variable (r : MessagesRequest)

def on_prefill (n_prompt : Option Nat) : Except Sse Sse :=
  match n_prompt with
  | none => .ok .init
  | some n => ensure_started r n .init

/-- The stream for given hook calls. -/
def respond (calls : HookCalls) : Except Sse Sse := do
  let c ← on_prefill r calls.prefill
  let c ← replay (on_token r) c calls.pieces
  epilogue r calls.text calls.stats c

def events (calls : HookCalls) : List Event := (leftBy (respond r calls)).sent

end Respond

/-! ## Sending only adds -/

theorem send_ok {e : Event} (h : e.dumps = true) (c : Sse) : send e c = .ok { c with sent := c.sent ++ [e] } := by
  simp [send, h]

theorem send_error {e : Event} (h : e.dumps = false) (c : Sse) : send e c = .error c := by
  simp [send, h]

theorem message_start_ok {r : MessagesRequest} (h : validUtf8 r.model_name = true) (n : Nat) (c : Sse) :
    message_start r n c = .ok { c with sent := c.sent ++ [.message_start r.id r.model_name n] } :=
  send_ok (show (Event.message_start r.id r.model_name n).dumps = true from h) c

theorem message_start_error {r : MessagesRequest} (h : validUtf8 r.model_name = false) (n : Nat) (c : Sse) :
    message_start r n c = .error c :=
  send_error (show (Event.message_start r.id r.model_name n).dumps = false from h) c

/-- What was sent stays sent. -/
def Sends (h : Hook Sse) : Prop := ∀ c, c.sent <+: (leftBy (h c)).sent

/-- Sends after sends. -/
theorem sends_bind {c : Sse} {x : Except Sse Sse} {f : Hook Sse} (hx : c.sent <+: (leftBy x).sent) (hf : Sends f) :
    c.sent <+: (leftBy (x >>= f)).sent := by
  cases x with
  | error e => exact hx
  | ok a => exact hx.trans (hf a)

theorem sends_send (e : Event) : Sends (send e) := by
  intro c
  unfold send
  split
  · exact List.prefix_append _ _
  · exact List.prefix_refl _

theorem sends_only_if {b : Bool} {h : Hook Sse} (hh : Sends h) : Sends (only_if b h) := by
  intro c
  unfold only_if
  split
  · exact hh c
  · exact List.prefix_refl _

theorem sends_open_block (type : BlockType) : Sends (open_block type) := fun c =>
  sends_send _ { c with next_block := c.next_block + 1, block_open := true }

theorem sends_close_block : Sends close_block := by
  intro c
  unfold close_block
  split
  · exact List.prefix_refl _
  · exact sends_bind (sends_send _ c) fun d => List.prefix_refl _

theorem sends_delta (delta : Delta) : Sends (send_delta delta) := fun c => sends_send _ c

theorem sends_confirm (text : Bytes) : Sends (confirm text) := fun c =>
  sends_bind (sends_delta _ c) fun _ => List.prefix_refl _

theorem sends_write_block (type : BlockType) (delta : Delta) : Sends (write_block type delta) := by
  intro c
  exact sends_bind (sends_open_block type c) fun d => sends_bind (sends_delta delta d) sends_close_block

section Sends
variable (r : MessagesRequest)

theorem sends_message_start (n : Nat) : Sends (message_start r n) := sends_send _

theorem sends_ensure_started (n : Nat) : Sends (ensure_started r n) := by
  intro c
  unfold ensure_started
  split
  · exact List.prefix_refl _
  · exact sends_bind (sends_message_start r n c) (sends_only_if (sends_open_block _))

theorem sends_stream_parsed : Sends (stream_parsed r) := by
  intro c
  unfold stream_parsed
  split
  · exact List.prefix_refl _
  · split
    · exact List.prefix_refl _
    · exact sends_bind (sends_only_if (sends_open_block _) c) fun d => sends_only_if (sends_confirm _) d

theorem sends_stream_raw (piece : Bytes) : Sends (stream_raw piece) := fun c =>
  sends_bind (sends_only_if (sends_open_block _) c) (sends_confirm piece)

theorem sends_on_token (piece : Bytes) : Sends (on_token r piece) := by
  intro c
  unfold on_token
  split_ifs
  · exact List.prefix_refl _
  · exact sends_bind (sends_ensure_started r 0 c) fun d => sends_delta _ d
  · exact List.prefix_refl _
  · refine sends_bind (sends_ensure_started r 0 { c with acc := c.acc ++ piece }) fun d => ?_
    have hparsed := sends_stream_parsed r d
    split
    · rename_i e he
      rw [he] at hparsed
      exact hparsed
    · rename_i e he
      rw [he] at hparsed
      exact hparsed.trans (sends_stream_raw piece e)

theorem sends_foldlM {α : Type} {f : α → Hook Sse} (hf : ∀ a, Sends (f a)) (l : List α) :
    Sends fun c => l.foldlM (fun c a => f a c) c := by
  induction l with
  | nil => exact fun c => List.prefix_refl _
  | cons a l ih =>
    intro c
    show c.sent <+: (leftBy (f a c >>= fun c => l.foldlM (fun c a => f a c) c)).sent
    exact sends_bind (hf a c) ih

theorem sends_end_message (parsed : ChatMsg) (stats : CompletionStats) : Sends (end_message r parsed stats) := fun c =>
  sends_bind (sends_foldlM (fun _ => sends_write_block _ _) _ c) fun d => sends_bind (sends_send _ d) (sends_send _)

theorem sends_finish (parsed : ChatMsg) (stats : CompletionStats) : Sends (finish r parsed stats) := fun c =>
  sends_bind (sends_only_if (sends_write_block _ _) c) (sends_end_message r parsed stats)

theorem sends_epilogue (text : Bytes) (stats : CompletionStats) : Sends (epilogue r text stats) := by
  intro c
  unfold epilogue
  exact sends_bind (sends_only_if (sends_message_start r _) c) fun d =>
    sends_bind (sends_close_block d) (sends_finish r _ stats)

end Sends

/-! ## Between blocks -/

/-- The message has started and no block is open. -/
structure Between (r : MessagesRequest) (c : Sse) : Prop where
  closed : c.block_open = false
  sent : ∃ n blocks, Blocks 0 (c.next_block + 1) blocks ∧ c.sent = .message_start r.id r.model_name n :: blocks

def Delta.dumps : Delta → Bool
  | .text_delta text => validUtf8 text
  | .input_json_delta json => validUtf8 json

theorem dumps_delta (i : Int) (d : Delta) : (Event.content_block_delta i d).dumps = d.dumps := by
  cases d <;> rfl

section Blocks
variable {r : MessagesRequest} {c : Sse}

/-- A block that can be serialized is one more complete block. -/
theorem write_block_ok (h : Between r c) (type : BlockType) {delta : Delta} (hd : delta.dumps = true) :
    ∃ c', write_block type delta c = .ok c' ∧ Between r c' := by
  obtain ⟨n, blocks, hb, hsent⟩ := h.sent
  refine ⟨{ c with next_block := c.next_block + 1, block_open := false, sent := c.sent ++
    [.content_block_start (c.next_block + 1) type] ++ [.content_block_delta (c.next_block + 1) delta] ++
    [.content_block_stop (c.next_block + 1)] }, ?_, rfl, n, _, hb.snoc type [delta], ?_⟩
  · simp only [write_block, open_block, send_delta, close_block, bind, Except.bind]
    rw [send_ok rfl]
    dsimp only
    rw [send_ok (by rw [dumps_delta]; exact hd)]
    dsimp only [Bool.not_true, Bool.false_eq_true, if_false]
    rw [if_neg (by simp), send_ok rfl]
    rfl
  · simp [hsent]

/-- One that cannot is left open, and the message is not stopped. -/
theorem write_block_error (h : Between r c) (type : BlockType) {delta : Delta} (hd : delta.dumps = false) :
    ∃ c', write_block type delta c = .error c' ∧ .message_stop ∉ c'.sent := by
  obtain ⟨n, blocks, hb, hsent⟩ := h.sent
  refine ⟨{ c with next_block := c.next_block + 1, block_open := true, sent := c.sent ++
    [.content_block_start (c.next_block + 1) type] }, ?_, ?_⟩
  · simp only [write_block, open_block, send_delta, bind, Except.bind]
    rw [send_ok rfl]
    dsimp only
    rw [send_error (by rw [dumps_delta]; exact hd)]
  · simp [hsent, hb.inner.2]

theorem write_tools_ok (h : Between r c) (tcs : List ChatToolCall) :
    ∃ c', tcs.foldlM (fun c tc => write_block .tool_use
      (.input_json_delta (r.chat_params.tool_input tc.arguments)) c) c = .ok c' ∧ Between r c' := by
  induction tcs generalizing c with
  | nil => exact ⟨c, rfl, h⟩
  | cons tc tcs ih =>
    obtain ⟨c', hc', h'⟩ := write_block_ok h .tool_use
      (show (Delta.input_json_delta _).dumps = true from r.chat_params.tool_input_dumps tc.arguments)
    obtain ⟨c'', hc'', h''⟩ := ih h'
    refine ⟨c'', ?_, h''⟩
    rw [List.foldlM_cons, hc']
    exact hc''

theorem end_message_wellFormed (h : Between r c) (parsed : ChatMsg) (stats : CompletionStats) :
    WellFormed (leftBy (end_message r parsed stats c)).sent := by
  obtain ⟨c', htools, h'⟩ := write_tools_ok h parsed.tool_calls
  obtain ⟨n, blocks, hb, hsent⟩ := h'.sent
  unfold end_message
  rw [htools]
  simp only [bind, Except.bind]
  rw [send_ok rfl]
  dsimp only
  rw [send_ok rfl]
  refine ⟨r.id, r.model_name, n, blocks, _, if parsed.tool_calls = [] then .end_turn else .tool_use,
    stats.completion_tokens, hb, ?_⟩
  simp [hsent]

/-- From between blocks, the stream ends well exactly when the text of the
final parse can be serialized. -/
theorem finish_wellFormed_iff (h : Between r c) (parsed : ChatMsg) (stats : CompletionStats) :
    WellFormed (leftBy (finish r parsed stats c)).sent ↔ validUtf8 parsed.content = true := by
  unfold finish only_if
  by_cases hcontent : parsed.content = []
  · rw [if_neg (by simp [hcontent]), hcontent]
    exact iff_of_true (end_message_wellFormed h parsed stats) rfl
  · rw [if_pos (by simp [hcontent])]
    cases hv : validUtf8 parsed.content with
    | true =>
      obtain ⟨c', hc', h'⟩ := write_block_ok h .text (show (Delta.text_delta parsed.content).dumps = true from hv)
      rw [hc']
      exact iff_of_true (end_message_wellFormed h' parsed stats) rfl
    | false =>
      obtain ⟨c', hc', h'⟩ := write_block_error h .text (show (Delta.text_delta parsed.content).dumps = false from hv)
      rw [hc']
      exact iff_of_false (fun hw => h' hw.stops) (by simp)

end Blocks

/-! ## Without tools -/

section Plain
variable {r : MessagesRequest}

/-- Block 0 is open and took these pieces. -/
def openWith (r : MessagesRequest) (n : Nat) (pieces : List Bytes) : Sse :=
  ⟨0, true, false, [], [.message_start r.id r.model_name n, .content_block_start 0 .text] ++
    pieces.map fun p => .content_block_delta 0 (.text_delta p)⟩

theorem on_token_plain (ht : r.chat_params.with_tools = false) (n : Nat) (old : List Bytes) {p : Bytes} (hp : p ≠ []) :
    on_token r p (openWith r n old) =
      if validUtf8 p then .ok (openWith r n (old ++ [p])) else .error (openWith r n old) := by
  have hstarted : ensure_started r 0 (openWith r n old) = .ok (openWith r n old) := if_pos (.inl (le_refl 0))
  simp only [on_token, if_neg hp, ht, Bool.not_false, if_true, hstarted, bind, Except.bind]
  show send (.content_block_delta 0 (.text_delta p)) (openWith r n old) = _
  unfold send
  rw [dumps_delta]
  show (if validUtf8 p then _ else _) = _
  split
  · simp [openWith]
  · rfl

/-- The pieces extend block 0 until one of them cannot be serialized. -/
theorem pieces_plain (ht : r.chat_params.with_tools = false) (n : Nat) (old pieces : List Bytes)
    (hne : ∀ p ∈ pieces, p ≠ []) :
    ((∀ p ∈ pieces, validUtf8 p = true) ∧
      replay (on_token r) (openWith r n old) pieces = .ok (openWith r n (old ++ pieces))) ∨
    (∃ front piece back, pieces = front ++ piece :: back ∧ validUtf8 piece = false ∧
      replay (on_token r) (openWith r n old) pieces = .error (openWith r n (old ++ front))) := by
  induction pieces generalizing old with
  | nil => exact .inl ⟨by simp, by simp⟩
  | cons p pieces ih =>
    have hstep := on_token_plain ht n old (hne p List.mem_cons_self)
    rw [replay, List.foldlM_cons, hstep]
    cases hv : validUtf8 p with
    | false => exact .inr ⟨[], p, pieces, rfl, hv, by simp [bind, Except.bind]⟩
    | true =>
      rcases ih (old ++ [p]) fun q hq => hne q (List.mem_cons_of_mem _ hq) with
        ⟨hall, hr⟩ | ⟨front, piece, back, hsplit, hbad, hr⟩
      · refine .inl ⟨?_, ?_⟩
        · intro q hq
          rcases List.mem_cons.1 hq with rfl | hq
          · exact hv
          · exact hall q hq
        · rw [List.append_assoc] at hr
          exact hr
      · refine .inr ⟨p :: front, piece, back, by rw [hsplit]; rfl, hbad, ?_⟩
        rw [List.append_assoc] at hr
        exact hr

theorem on_prefill_plain (ht : r.chat_params.with_tools = false) (n : Nat) :
    on_prefill r (some n) = if validUtf8 r.model_name then .ok (openWith r n []) else .error .init := by
  show ensure_started r n .init = _
  unfold ensure_started
  rw [if_neg (by simp [Sse.init])]
  cases hv : validUtf8 r.model_name with
  | false =>
    rw [message_start_error hv]
    rfl
  | true =>
    rw [message_start_ok hv]
    simp only [bind, Except.bind, only_if, ht, Bool.not_false, if_true, open_block]
    rw [send_ok rfl]
    rfl

/-- After the pieces, the open block is closed and the message finished. -/
theorem epilogue_openWith (r : MessagesRequest) (n : Nat) (pieces : List Bytes) (text : Bytes) (stats : CompletionStats) :
    ∃ c, Between r c ∧ epilogue r text stats (openWith r n pieces) =
      finish r (r.chat_params.final_parse (apply_stops r.chat_params.additional_stops text)) stats c := by
  have hblocks : Blocks 0 1 (.content_block_start 0 .text :: (pieces.map Delta.text_delta).map
      (Event.content_block_delta 0) ++ [.content_block_stop 0]) := .block .text _ (.nil 1)
  refine ⟨{ openWith r n pieces with
    block_open := false, sent := (openWith r n pieces).sent ++ [.content_block_stop 0] },
    ⟨rfl, n, _, hblocks, ?_⟩, ?_⟩
  · simp [openWith, Function.comp_def]
  · unfold epilogue
    have hskip : only_if ((openWith r n pieces).next_block < 0 && !(openWith r n pieces).block_open)
        (message_start r stats.prompt_tokens) (openWith r n pieces) = .ok (openWith r n pieces) := by
      simp [only_if, openWith]
    have hclose : close_block (openWith r n pieces) = .ok { openWith r n pieces with
        block_open := false, sent := (openWith r n pieces).sent ++ [.content_block_stop 0] } := by
      unfold close_block
      rw [if_neg (by simp [openWith]), send_ok rfl]
      rfl
    rw [hskip]
    simp only [bind, Except.bind]
    rw [hclose]

end Plain

/-! ## With tools -/

section Tools
variable {r : MessagesRequest}

/-- Messages were started with these counts, and nothing else was sent. -/
def started (r : MessagesRequest) (acc : Bytes) (counts : List Nat) : Sse :=
  ⟨-1, false, false, acc, counts.map (Event.message_start r.id r.model_name)⟩

/-- Having started does not show in `next_block` or `block_open`. -/
theorem ensure_started_again (ht : r.chat_params.with_tools = true) (hv : validUtf8 r.model_name = true) (k : Nat)
    (acc : Bytes) (counts : List Nat) :
    ensure_started r k (started r acc counts) = .ok (started r acc (counts ++ [k])) := by
  unfold ensure_started
  rw [if_neg (by simp [started]), message_start_ok hv]
  simp [only_if, ht, started, bind, Except.bind]

theorem on_token_started (ht : r.chat_params.with_tools = true) (hv : validUtf8 r.model_name = true) {p : Bytes}
    (hp : p ≠ []) (counts : List Nat) :
    (started r p (counts ++ [0])).sent <+: (leftBy (on_token r p (started r [] counts))).sent := by
  unfold on_token
  rw [if_neg hp, if_neg (by simp [ht]), if_neg (by simp [started])]
  rw [show { started r [] counts with acc := (started r [] counts).acc ++ p } = started r p counts from rfl,
    ensure_started_again ht hv]
  simp only [bind, Except.bind]
  have hparsed := sends_stream_parsed r (started r p (counts ++ [0]))
  split
  · rename_i e he
    rw [he] at hparsed
    exact hparsed
  · rename_i e he
    rw [he] at hparsed
    exact hparsed.trans (sends_stream_raw p e)

theorem epilogue_started (hv : validUtf8 r.model_name = true) (text : Bytes) (stats : CompletionStats)
    (counts : List Nat) :
    (started r [] (counts ++ [stats.prompt_tokens])).sent <+:
      (leftBy (epilogue r text stats (started r [] counts))).sent := by
  have hstart : only_if ((started r [] counts).next_block < 0 && !(started r [] counts).block_open)
      (message_start r stats.prompt_tokens) (started r [] counts) =
      .ok (started r [] (counts ++ [stats.prompt_tokens])) := by
    simp [only_if, started, message_start_ok hv]
  have hrest : Sends fun c => close_block c >>= finish r (r.chat_params.final_parse
      (apply_stops r.chat_params.additional_stops text)) stats :=
    fun c => sends_bind (sends_close_block c) (sends_finish r _ stats)
  unfold epilogue
  rw [hstart]
  exact hrest _

end Tools

/-! ## The stream as a whole -/

section Events
variable (r : MessagesRequest) (calls : HookCalls)

/-- A call that fails early starts the message itself. -/
theorem events_early (h : calls.prefill = none) :
    WellFormed (events r calls) ↔ validUtf8 r.model_name = true ∧
      validUtf8 (r.chat_params.final_parse (apply_stops r.chat_params.additional_stops [])).content = true := by
  obtain ⟨hpieces, htext⟩ := calls.early h
  have hrespond : respond r calls = epilogue r [] calls.stats .init := by
    simp [respond, h, hpieces, htext, on_prefill, bind, Except.bind]
  have hstart : only_if (Sse.init.next_block < 0 && !Sse.init.block_open)
      (message_start r calls.stats.prompt_tokens) .init = message_start r calls.stats.prompt_tokens .init := rfl
  unfold events
  rw [hrespond, epilogue, hstart]
  cases hv : validUtf8 r.model_name with
  | false =>
    rw [message_start_error hv]
    exact iff_of_false (fun hw => by simpa [bind, Except.bind, Sse.init] using hw.stops) (by simp)
  | true =>
    rw [message_start_ok hv]
    have hbetween : Between r { Sse.init with
        sent := Sse.init.sent ++ [.message_start r.id r.model_name calls.stats.prompt_tokens] } :=
      ⟨rfl, _, [], .nil 0, rfl⟩
    have := finish_wellFormed_iff hbetween
      (r.chat_params.final_parse (apply_stops r.chat_params.additional_stops [])) calls.stats
    simpa [bind, Except.bind, close_block, Sse.init] using this

/-- Without tools the stream is well formed when everything in it is UTF-8. -/
theorem events_plain {n : Nat} (h : calls.prefill = some n) (ht : r.chat_params.with_tools = false) :
    WellFormed (events r calls) ↔ validUtf8 r.model_name = true ∧
      (∀ p ∈ calls.pieces, validUtf8 p = true) ∧ validUtf8 calls.text = true := by
  have hstops : r.chat_params.additional_stops = [] := by
    simp only [ChatParams.with_tools, Bool.or_eq_false_iff, decide_eq_false_iff_not, ne_eq, not_not] at ht
    exact ht.2
  have hparse : r.chat_params.final_parse (apply_stops r.chat_params.additional_stops calls.text) =
      ⟨calls.text, []⟩ := by
    simp [ChatParams.final_parse, ht, hstops, apply_stops]
  unfold events respond
  rw [h, on_prefill_plain ht]
  cases hv : validUtf8 r.model_name with
  | false => exact iff_of_false (fun hw => by simpa [bind, Except.bind, Sse.init] using hw.stops) (by simp)
  | true =>
    simp only [if_true, bind, Except.bind]
    rcases pieces_plain ht n [] calls.pieces calls.nonempty with ⟨hall, hr⟩ | ⟨front, piece, back, hsplit, hbad, hr⟩
    · rw [hr]
      dsimp only
      obtain ⟨c, hc, heq⟩ := epilogue_openWith r n ([] ++ calls.pieces) calls.text calls.stats
      rw [heq, finish_wellFormed_iff hc, hparse]
      simp only [true_and]
      exact ⟨fun ht => ⟨hall, ht⟩, fun ht => ht.2⟩
    · rw [hr]
      -- the piece that cannot be serialized cuts the stream off
      apply iff_of_false (fun hw => by simpa [openWith] using hw.stops)
      rintro ⟨-, hall, -⟩
      rw [hall piece (by rw [hsplit]; simp)] at hbad
      cases hbad

/-- With tools a message that generates starts twice. -/
theorem events_tools {n : Nat} (h : calls.prefill = some n) (ht : r.chat_params.with_tools = true) :
    ¬ WellFormed (events r calls) := by
  intro hw
  unfold events respond at hw
  rw [h] at hw
  cases hv : validUtf8 r.model_name with
  | false =>
    have hpre : on_prefill r (some n) = .error .init := by
      show ensure_started r n .init = _
      unfold ensure_started
      rw [if_neg (by simp [Sse.init]), message_start_error hv]
      rfl
    rw [hpre] at hw
    simpa [bind, Except.bind, Sse.init] using hw.stops
  | true =>
    have hpre : on_prefill r (some n) = .ok (started r [] [n]) := ensure_started_again ht hv n [] []
    rw [hpre] at hw
    -- the second event is a second start, whichever closure sends it
    have hsecond : ∃ k, [.message_start r.id r.model_name n, .message_start r.id r.model_name k] <+:
        (leftBy (replay (on_token r) (started r [] [n]) calls.pieces >>=
          epilogue r calls.text calls.stats)).sent := by
      cases hpieces : calls.pieces with
      | nil => exact ⟨calls.stats.prompt_tokens, epilogue_started hv calls.text calls.stats [n]⟩
      | cons p pieces =>
        have hp : p ≠ [] := calls.nonempty p (by rw [hpieces]; exact List.mem_cons_self)
        refine ⟨0, ?_⟩
        rw [replay, List.foldlM_cons, bind_assoc]
        have htoken := on_token_started ht hv hp [n]
        cases hon : on_token r p (started r [] [n]) with
        | error e =>
          rw [hon] at htoken
          exact htoken
        | ok e =>
          rw [hon] at htoken
          have hrest : Sends fun c => replay (on_token r) c pieces >>=
              epilogue r calls.text calls.stats :=
            fun c => sends_bind (sends_foldlM (sends_on_token r) pieces c) (sends_epilogue r _ _)
          exact htoken.trans (hrest e)
    obtain ⟨k, hk⟩ := hsecond
    exact WellFormed.starts_once hw hk r.id r.model_name k rfl

/-- The stream is well formed exactly when everything in it can be serialized
and either no tools are in play or the call failed before it generated. -/
theorem events_wellFormed_iff :
    WellFormed (events r calls) ↔ validUtf8 r.model_name = true ∧
      ((r.chat_params.with_tools = false ∧ (∀ p ∈ calls.pieces, validUtf8 p = true) ∧ validUtf8 calls.text = true) ∨
        (calls.prefill = none ∧
          validUtf8 (r.chat_params.final_parse (apply_stops r.chat_params.additional_stops [])).content = true)) := by
  cases h : calls.prefill with
  | none =>
    obtain ⟨hpieces, htext⟩ := calls.early h
    rw [events_early r calls h]
    refine and_congr_right fun _ => ⟨fun hc => .inr ⟨rfl, hc⟩, ?_⟩
    rintro (⟨ht, -, -⟩ | ⟨-, hc⟩)
    · have hstops : r.chat_params.additional_stops = [] := by
        simp only [ChatParams.with_tools, Bool.or_eq_false_iff, decide_eq_false_iff_not, ne_eq, not_not] at ht
        exact ht.2
      simp [ChatParams.final_parse, ht, hstops, apply_stops]
    · exact hc
  | some n =>
    cases ht : r.chat_params.with_tools with
    | false =>
      rw [events_plain r calls h ht]
      simp
    | true => exact iff_of_false (events_tools r calls h ht) (by simp)

end Events

/-- A chat format with tools, whose parser finds no call. -/
def toolFormat : ChatParams := ⟨[7, 8], false, [], fun text _ => some ⟨text, []⟩, fun _ => [], fun _ => rfl⟩

/-- A generation of one piece in a chat format with tools. -/
theorem starts_twice :
    ¬ ∀ (r : MessagesRequest) (calls : HookCalls), WellFormed (events r calls) := by
  intro h
  exact events_tools ⟨0, [109], 1, "", toolFormat⟩ ⟨some 2, [[65]], [65], ⟨2, 1⟩, by decide, by decide⟩ rfl (by decide)
    (h _ _)

/-! ## The calls that `complete_stream` makes -/

/-- The stream of a request is the stream of some hook calls. -/
theorem stream_events {L : Type} {M : LlamaModel L} (hmono : PrefixMonotone M) (s : Server L) (w : World)
    (r : MessagesRequest) : ∃ calls : HookCalls, events r calls = handle_messages_stream M s w r := by
  unfold handle_messages_stream events respond
  rcases complete_stream_split M s w r.completion with
    ⟨server, exit, stats, hexit, _, hall⟩ | ⟨max_tokens, sess, seq, server, _, hall⟩
  · rw [hall (stream_hooks r) Sse.init]
    refine ⟨⟨none, [], [], stats, fun _ => ⟨rfl, rfl⟩, by simp⟩, ?_⟩
    simp only [hexit]
    rfl
  rw [hall (stream_hooks r) Sse.init]
  rcases generate_and_persist_outcome M w r.completion (stream_hooks r) Sse.init
      (M.tokenizer r.completion.prompt) max_tokens sess seq server with
    ⟨x, hp, hr⟩ | ⟨x, g, hp, hg, hr⟩ | ⟨x, g, hp, hg, hr⟩
  · -- `on_prefill` threw, so there is no text
    have hpre : on_prefill r (some (M.tokenizer r.completion.prompt).length) = .error x := hp
    rw [hr]
    refine ⟨⟨some (M.tokenizer r.completion.prompt).length, [], [], ⟨0, 0⟩, by simp, by simp⟩, ?_⟩
    dsimp only
    rw [hpre]
    rfl
  · -- `on_token` threw on the last piece, so the epilogue is not reached
    have hpre : on_prefill r (some (M.tokenizer r.completion.prompt).length) = .ok x := hp
    rw [hr]
    have hends : Ends M (r.completion.stops.getD []) (.error g : Except (Gen L Sse) (Gen L Sse)) :=
      hg ▸ generate_ends hmono (streamed_start _ _ _ _)
    have hreplay : replay (on_token r) x g.sent = .error g.captured := generate_replay hg rfl
    cases hends with
    | threw front piece hsent hne hfront _ =>
      refine ⟨⟨some (M.tokenizer r.completion.prompt).length, g.sent, [], ⟨0, 0⟩, by simp, ?_⟩, ?_⟩
      · intro p hp
        rw [hsent, List.mem_append, List.mem_singleton] at hp
        rcases hp with hp | rfl
        · exact hfront p hp
        · exact hne
      · dsimp only
        rw [hpre]
        simp only [bind, Except.bind]
        rw [hreplay]
        rfl
  · -- the loop ended, at its end or at a stop string
    have hpre : on_prefill r (some (M.tokenizer r.completion.prompt).length) = .ok x := hp
    rw [hr]
    have hends : Ends M (r.completion.stops.getD []) (.ok g : Except (Gen L Sse) (Gen L Sse)) :=
      hg ▸ generate_ends hmono (streamed_start _ _ _ _)
    have hreplay : replay (on_token r) x g.sent = .ok g.captured := generate_replay hg rfl
    have hpieces : ∀ p ∈ g.sent, p ≠ [] := by
      cases hends with
      | whole h => exact h.pieces
      | stopped _ _ h => exact h
    refine ⟨⟨some (M.tokenizer r.completion.prompt).length, g.sent, detokenize M g.generated,
      ⟨(M.tokenizer r.completion.prompt).length, g.generated.length⟩, by simp, hpieces⟩, ?_⟩
    dsimp only
    rw [hpre]
    simp only [bind, Except.bind]
    rw [hreplay]
    rfl

end Hostely.Inference
