import Hostely.Inference.Sse
/-!
# The text of the stream

With no stop strings and no tool calls to find, every piece is streamed as it
comes. After the loop the final parse is sent once more, as a second text
block: the code means to send what was not streamed yet but does not look.
-/

open Hostely.Lib

namespace Hostely.Inference

/-- The text of a text delta, empty for any other event. -/
def Event.textOf : Event → Bytes
  | .content_block_delta _ (.text_delta t) => t
  | _ => []

def streamText (es : List Event) : Bytes := (es.map Event.textOf).flatten

def Sse.text (c : Sse) : Bytes := streamText c.sent

/-- Every piece is text: the format is content only, or its parser returns its
input as content without tool calls. -/
structure AllText (p : ChatParams) : Prop where
  no_stops : p.additional_stops = []
  parses : p.content_only = true ∨ ∀ text partially, p.parse_generation text partially = some ⟨text, []⟩

theorem AllText.final_parse {p : ChatParams} (h : AllText p) (text : Bytes) :
    p.final_parse (apply_stops p.additional_stops text) = ⟨text, []⟩ := by
  rw [h.no_stops]
  rcases h.parses with hc | hid
  · simp [ChatParams.final_parse, ChatParams.with_tools, hc, h.no_stops, apply_stops]
  · simp [ChatParams.final_parse, hid, apply_stops]

/-! ## Closures that send no text -/

theorem text_snoc (c : Sse) (e : Event) : Sse.text { c with sent := c.sent ++ [e] } = c.text ++ e.textOf := by
  simp [Sse.text, streamText]

/-- What was held back and what was sent as text stay as they are. -/
structure Same (c d : Sse) : Prop where
  text : d.text = c.text
  acc : d.acc = c.acc
  buffering : d.buffering = c.buffering

def Silent (h : Hook Sse) : Prop := ∀ c, Same c (leftBy (h c))

theorem Same.refl (c : Sse) : Same c c := ⟨rfl, rfl, rfl⟩

theorem Same.trans {c d e : Sse} (h : Same c d) (h' : Same d e) : Same c e :=
  ⟨h'.text.trans h.text, h'.acc.trans h.acc, h'.buffering.trans h.buffering⟩

theorem same_bind {c : Sse} {x : Except Sse Sse} {f : Hook Sse} (hx : Same c (leftBy x)) (hf : Silent f) :
    Same c (leftBy (x >>= f)) := by
  cases x with
  | error e => exact hx
  | ok a => exact hx.trans (hf a)

theorem silent_send {e : Event} (h : e.textOf = []) : Silent (send e) := by
  intro c
  unfold send
  split
  · refine ⟨?_, rfl, rfl⟩
    rw [leftBy_ok, text_snoc, h, List.append_nil]
  · exact .refl c

theorem silent_only_if {b : Bool} {h : Hook Sse} (hh : Silent h) : Silent (only_if b h) := by
  intro c
  unfold only_if
  split
  · exact hh c
  · exact .refl c

theorem silent_open_block (type : BlockType) : Silent (open_block type) := by
  intro c
  have hsend : Silent (send (.content_block_start (c.next_block + 1) type)) := silent_send rfl
  have hopened : Same c { c with next_block := c.next_block + 1, block_open := true } := ⟨rfl, rfl, rfl⟩
  exact hopened.trans (hsend _)

theorem silent_close_block : Silent close_block := by
  intro c
  unfold close_block
  split
  · exact .refl c
  · exact same_bind (silent_send rfl c) fun d => ⟨rfl, rfl, rfl⟩

section Text
variable (r : MessagesRequest)

theorem silent_message_start (n : Nat) : Silent (message_start r n) := silent_send rfl

theorem silent_ensure_started (n : Nat) : Silent (ensure_started r n) := by
  intro c
  unfold ensure_started
  split
  · exact .refl c
  · exact same_bind (silent_message_start r n c) (silent_only_if (silent_open_block _))

theorem silent_end_message (text : Bytes) (stats : CompletionStats) : Silent (end_message r ⟨text, []⟩ stats) := by
  intro c
  have hdelta : Silent (send (.message_delta .end_turn stats.completion_tokens)) := silent_send rfl
  have hstop : Silent (send .message_stop) := silent_send rfl
  show Same c (leftBy (send (.message_delta .end_turn stats.completion_tokens) c >>= send .message_stop))
  exact same_bind (hdelta c) hstop

/-! ## Pieces -/

/-- Nothing is held back. -/
def Clear (c : Sse) : Prop := c.acc = [] ∧ c.buffering = false

/-- A delta is sent whole or not at all. -/
theorem send_delta_text (t : Bytes) (c : Sse) :
    (∃ d, send_delta (.text_delta t) c = .ok d ∧ d.text = c.text ++ t ∧ d.acc = c.acc ∧ d.buffering = c.buffering ∧
      d.block_open = c.block_open) ∨
    send_delta (.text_delta t) c = .error c := by
  unfold send_delta send
  split
  · exact .inl ⟨_, rfl, text_snoc _ _, rfl, rfl, rfl⟩
  · exact .inr rfl

variable {r}

theorem on_token_text_plain (ht : r.chat_params.with_tools = false) {c : Sse} (hc : Clear c) {p : Bytes}
    (hp : p ≠ []) :
    (∃ d, on_token r p c = .ok d ∧ d.text = c.text ++ p ∧ Clear d) ∨
    (∃ d, on_token r p c = .error d ∧ d.text = c.text) := by
  unfold on_token
  rw [if_neg hp, if_pos (by simp [ht])]
  have hstart := silent_ensure_started r 0 c
  cases he : ensure_started r 0 c with
  | error e =>
    rw [he] at hstart
    exact .inr ⟨e, rfl, hstart.text⟩
  | ok e =>
    rw [he, leftBy_ok] at hstart
    rcases send_delta_text p e with ⟨d, hd, htext, hacc, hbuf, _⟩ | hd
    · exact .inl ⟨d, hd, by rw [htext, hstart.text], hacc.trans (hstart.acc.trans hc.1),
        hbuf.trans (hstart.buffering.trans hc.2)⟩
    · exact .inr ⟨e, hd, hstart.text⟩

/-- The block that a confirmed piece goes to is opened if it was not. -/
theorem opens_text_block (e : Sse) {p : Bytes} (hp : p ≠ []) :
    ∃ o, only_if (p ≠ [] && !e.block_open) (open_block .text) e = .ok o ∧
      o.text = e.text ∧ o.buffering = e.buffering ∧ o.block_open = true := by
  unfold only_if
  cases hb : e.block_open with
  | true =>
    rw [if_neg (by simp)]
    exact ⟨e, rfl, rfl, rfl, hb⟩
  | false =>
    rw [if_pos (by simp [hp])]
    refine ⟨_, send_ok rfl _, ?_, rfl, rfl⟩
    rw [text_snoc]
    simp [Event.textOf, Sse.text]

/-- A parser that returns its input confirms the piece at once; if it cannot be
serialized then the raw one that follows cannot be either. -/
theorem on_token_text_parsed (ht : r.chat_params.with_tools = true)
    (hid : ∀ text partially, r.chat_params.parse_generation text partially = some ⟨text, []⟩) {c : Sse} (hc : Clear c)
    {p : Bytes} (hp : p ≠ []) :
    (∃ d, on_token r p c = .ok d ∧ d.text = c.text ++ p ∧ Clear d) ∨
    (∃ d, on_token r p c = .error d ∧ d.text = c.text) := by
  unfold on_token
  rw [if_neg hp, if_neg (by simp [ht]), if_neg (by simp [hc.2])]
  have hstart := silent_ensure_started r 0 { c with acc := c.acc ++ p }
  cases he : ensure_started r 0 { c with acc := c.acc ++ p } with
  | error e =>
    rw [he] at hstart
    exact .inr ⟨e, rfl, hstart.text⟩
  | ok e =>
    rw [he, leftBy_ok] at hstart
    have hacc : e.acc = p := by rw [hstart.acc, hc.1]; rfl
    obtain ⟨o, ho, hotext, hobuf, hopen⟩ := opens_text_block e hp
    have hotext' : o.text = c.text := hotext.trans hstart.text
    have hobuf' : o.buffering = false := hobuf.trans (hstart.buffering.trans hc.2)
    have hparsed : stream_parsed r e = confirm p o := by
      unfold stream_parsed
      rw [hid, hacc]
      dsimp only
      rw [if_neg (by simp), ho]
      simp [bind, Except.bind, only_if, hopen]
    simp only [bind, Except.bind]
    rw [hparsed]
    rcases send_delta_text p o with ⟨d, hd, hdtext, _, hdbuf, _⟩ | hd
    · left
      refine ⟨{ d with acc := [] }, ?_, ?_, rfl, hdbuf.trans hobuf'⟩
      · simp [confirm, hd, bind, Except.bind, pure, Except.pure]
      · rw [← hotext', ← hdtext]
        rfl
    · right
      refine ⟨o, ?_, hotext'⟩
      have hconfirm : confirm p o = .error o := by simp [confirm, hd, bind, Except.bind]
      rw [hconfirm]
      dsimp only
      simp [stream_raw, only_if, hopen, bind, Except.bind, hconfirm]

/-- A piece is streamed as it came, or the hook throws and nothing is. -/
theorem on_token_text (h : AllText r.chat_params) {c : Sse} (hc : Clear c) {p : Bytes} (hp : p ≠ []) :
    (∃ d, on_token r p c = .ok d ∧ d.text = c.text ++ p ∧ Clear d) ∨
    (∃ d, on_token r p c = .error d ∧ d.text = c.text) := by
  cases ht : r.chat_params.with_tools with
  | false => exact on_token_text_plain ht hc hp
  | true =>
    rcases h.parses with hcontent | hid
    · simp [ChatParams.with_tools, hcontent, h.no_stops] at ht
    · exact on_token_text_parsed ht hid hc hp

/-- The pieces are streamed in order, to the end or to the first that throws. -/
theorem replay_text (h : AllText r.chat_params) {c : Sse} (hc : Clear c) {pieces : List Bytes}
    (hne : ∀ p ∈ pieces, p ≠ []) :
    (∃ d, replay (on_token r) c pieces = .ok d ∧ d.text = c.text ++ pieces.flatten ∧ Clear d) ∨
    (∃ d front piece back, replay (on_token r) c pieces = .error d ∧ pieces = front ++ piece :: back ∧
      d.text = c.text ++ front.flatten) := by
  induction pieces generalizing c with
  | nil => exact .inl ⟨c, rfl, by simp, hc⟩
  | cons p pieces ih =>
    rw [replay, List.foldlM_cons]
    rcases on_token_text h hc (hne p List.mem_cons_self) with ⟨d, hd, htext, hclear⟩ | ⟨d, hd, htext⟩
    · rw [hd]
      rcases ih hclear fun q hq => hne q (List.mem_cons_of_mem _ hq) with
        ⟨e, he, hetext, heclear⟩ | ⟨e, front, piece, back, he, hsplit, hetext⟩
      · exact .inl ⟨e, he, by rw [hetext, htext]; simp, heclear⟩
      · exact .inr ⟨e, p :: front, piece, back, he, by rw [hsplit]; rfl, by rw [hetext, htext]; simp⟩
    · rw [hd]
      exact .inr ⟨d, [], p, pieces, rfl, rfl, by simp [htext]⟩

/-- The end of the stream sends the whole text again. -/
theorem epilogue_text (h : AllText r.chat_params) (hmodel : validUtf8 r.model_name = true) {text : Bytes}
    (htext : validUtf8 text = true) (stats : CompletionStats) (c : Sse) :
    (leftBy (epilogue r text stats c)).text = c.text ++ text := by
  have hfinish : ∀ d : Sse, (leftBy (finish r ⟨text, []⟩ stats d)).text = d.text ++ text := by
    intro d
    unfold finish
    by_cases hempty : text = []
    · subst hempty
      have := silent_end_message r [] stats d
      simpa [only_if, bind, Except.bind] using this.text
    · have hopen : open_block .text d = .ok { d with
          next_block := d.next_block + 1, block_open := true
          sent := d.sent ++ [.content_block_start (d.next_block + 1) .text] } := send_ok rfl _
      rw [only_if, if_pos (by simp [hempty]), write_block, hopen]
      simp only [bind, Except.bind, send_delta]
      rw [send_ok (show (Event.content_block_delta _ (.text_delta text)).dumps = true from htext)]
      simp only [close_block, Bool.not_true, Bool.false_eq_true, if_false, bind, Except.bind]
      rw [send_ok rfl]
      apply (silent_end_message r text stats _).text.trans
      simp [Sse.text, streamText, Event.textOf]
  unfold epilogue
  rw [h.final_parse]
  have hstart : ∃ d, only_if (c.next_block < 0 && !c.block_open) (message_start r stats.prompt_tokens) c = .ok d ∧
      d.text = c.text := by
    unfold only_if
    split
    · exact ⟨_, message_start_ok hmodel _ _, by rw [text_snoc]; simp [Event.textOf]⟩
    · exact ⟨c, rfl, rfl⟩
  obtain ⟨d, hd, hdtext⟩ := hstart
  rw [hd]
  simp only [bind, Except.bind]
  have hclose := silent_close_block d
  obtain ⟨e, he⟩ : ∃ e, close_block d = .ok e := by
    unfold close_block
    split
    · exact ⟨d, rfl⟩
    · rw [send_ok rfl]
      exact ⟨_, rfl⟩
  rw [he] at hclose
  rw [leftBy_ok] at hclose
  rw [he]
  dsimp only
  rw [hfinish, hclose.text, hdtext]

end Text

/-- With no text there is none at the end either. -/
theorem silent_epilogue {r : MessagesRequest} (h : AllText r.chat_params) (stats : CompletionStats) :
    Silent (epilogue r [] stats) := by
  intro c
  unfold epilogue
  rw [h.final_parse]
  have hfinish : Silent (finish r ⟨[], []⟩ stats) := fun d => silent_end_message r [] stats d
  exact same_bind (silent_only_if (silent_message_start r _) c) fun d => same_bind (silent_close_block d) hfinish

/-! ## The two branches -/

section Branches
variable {L : Type} {M : LlamaModel L} (s : Server L) (w : World) {r : MessagesRequest} (gen_id : Nat → Bytes)

/-- The generation of a request, which the plain branch runs without hooks. -/
def generation (M : LlamaModel L) (s : Server L) (w : World) (r : MessagesRequest) : Completion L Unit :=
  complete_stream M s w r.completion StreamHooks.none ()

/-- The text of a plain reply is the text generated; unless that is empty,
everything in it could be serialized. -/
theorem plain_text (h : AllText r.chat_params) {reply : Reply}
    (hreply : handle_messages_plain M s w r gen_id = some reply) :
    let text := (generation M s w r).exit.text.getD []
    reply.text = text ∧ (text ≠ [] → validUtf8 r.model_name = true ∧ validUtf8 text = true) := by
  intro text
  unfold handle_messages_plain at hreply
  dsimp only at hreply
  rw [show (complete_stream M s w r.completion StreamHooks.none ()).exit.text.getD [] = text from rfl] at hreply
  rw [h.final_parse] at hreply
  split_ifs at hreply with hover hdumps
  · obtain rfl := Option.some.inj hreply
    exact ⟨hover.1.symm, fun hne => absurd hover.1 hne⟩
  · obtain rfl := Option.some.inj hreply
    by_cases hempty : text = []
    · refine ⟨?_, fun hne => absurd hempty hne⟩
      simp [Reply.text, make_blocks, hempty, Block.textOf]
    · refine ⟨?_, fun _ => ⟨hdumps.1, ?_⟩⟩
      · simp [Reply.text, make_blocks, hempty, Block.textOf]
      · exact hdumps.2 (.text text) (by simp [make_blocks, hempty]) text (by simp [Block.strings])

/-- Without hooks the loop runs to its end. -/
theorem generation_outcome {max_tokens : Int} {sess : Option Session} {seq : Nat} {server : Server L}
    (hall : generation M s w r = generate_and_persist M w r.completion StreamHooks.none ()
      (M.tokenizer r.completion.prompt) max_tokens sess seq server) :
    ∃ g : Gen L Unit, generate M w.step_ok seq none r.completion.stops max_tokens.toNat 0
        ⟨server.ctx, [], (M.tokenizer r.completion.prompt).length, [], (), []⟩ = .ok g ∧
      (generation M s w r).generated = g.generated ∧
      (generation M s w r).exit.text.getD [] = detokenize M g.generated := by
  rw [hall]
  obtain ⟨g, hg, hr⟩ := generate_and_persist_hookless M w r.completion (M.tokenizer r.completion.prompt) max_tokens sess
    seq server
  rw [hr]
  exact ⟨g, hg, rfl, rfl⟩

/-- A call that throws in `on_prefill` has sent no text. -/
theorem on_prefill_error {n : Nat} {x : Sse} (hp : call_on_prefill (stream_hooks r) n .init = .error x) :
    x.text = [] := by
  have hstart := silent_ensure_started r n .init
  change ensure_started r n .init = .error x at hp
  rw [hp] at hstart
  exact hstart.text

theorem on_prefill_ok {n : Nat} {x : Sse} (hp : call_on_prefill (stream_hooks r) n .init = .ok x) :
    x.text = [] ∧ Clear x := by
  have hstart := silent_ensure_started r n .init
  change ensure_started r n .init = .ok x at hp
  rw [hp] at hstart
  exact ⟨hstart.text, hstart.acc, hstart.buffering⟩

section Loop
variable {ok : Nat → Bool} {seq rounds n : Nat} {ctx : LlamaContext L} {x : Sse} {g : Gen L Sse}

/-- A hook that throws leaves less text sent than was generated: its own piece
is missing. -/
theorem streamed_less (hmono : PrefixMonotone M) (h : AllText r.chat_params) (hx : x.text = [] ∧ Clear x)
    (hg : generate M ok seq (some (on_token r)) r.completion.stops rounds 0 ⟨ctx, [], n, [], x, []⟩ = .error g) :
    g.captured.text.length < (detokenize M g.generated).length := by
  have hends : Ends M (r.completion.stops.getD []) (.error g : Except (Gen L Sse) (Gen L Sse)) :=
    hg ▸ generate_ends hmono (streamed_start _ _ _ _)
  have hreplay : replay (on_token r) x g.sent = .error g.captured := generate_replay hg rfl
  cases hends with
  | threw front piece hsent hne hfront hflat =>
    have hpieces : ∀ p ∈ g.sent, p ≠ [] := by
      intro p hp
      rw [hsent, List.mem_append, List.mem_singleton] at hp
      rcases hp with hp | rfl
      · exact hfront p hp
      · exact hne
    rcases replay_text h hx.2 hpieces with ⟨d, hd, _⟩ | ⟨d, front', piece', back', hd, hsplit, hdtext⟩
    · rw [hreplay] at hd
      cases hd
    · rw [hreplay] at hd
      obtain rfl : g.captured = d := Except.error.inj hd
      have hpos := List.length_pos_iff.2 (hpieces piece' (by rw [hsplit]; simp))
      rw [hdtext, hx.1, List.nil_append, ← hflat, hsplit]
      simp only [List.flatten_append, List.flatten_cons, List.length_append]
      omega

/-- Without stop strings a loop that ends has streamed all it generated. -/
theorem streamed_all (hmono : PrefixMonotone M) (h : AllText r.chat_params) (hx : x.text = [] ∧ Clear x)
    (hg : generate M ok seq (some (on_token r)) r.completion.stops rounds 0 ⟨ctx, [], n, [], x, []⟩ = .ok g) :
    g.captured.text = detokenize M g.generated := by
  have hends : Ends M (r.completion.stops.getD []) (.ok g : Except (Gen L Sse) (Gen L Sse)) :=
    hg ▸ generate_ends hmono (streamed_start _ _ _ _)
  have hreplay : replay (on_token r) x g.sent = .ok g.captured := generate_replay hg rfl
  cases hends with
  | whole hw =>
    rcases replay_text h hx.2 hw.pieces with ⟨d, hd, hdtext, _⟩ | ⟨d, _, _, _, hd, _⟩
    · rw [hreplay] at hd
      obtain rfl : g.captured = d := Except.ok.inj hd
      rw [hdtext, hx.1, List.nil_append, hw.sent, hw.emitted]
    · rw [hreplay] at hd
      cases hd
  | stopped hhit _ _ =>
    -- a stop string that was found is in the stop list, which is empty
    refine absurd (fun st hst => ?_) hhit
    simp [MessagesRequest.completion, h.no_stops] at hst

end Loop

/-- A call that returns before it generates sends no text. -/
theorem stream_text_early (h : AllText r.chat_params) {server : Server L} {exit : Exit} {stats : CompletionStats}
    (hexit : exit.text = some [])
    (hall : complete_stream M s w r.completion (stream_hooks r) Sse.init =
      ⟨server, exit, stats, [], false, [], Sse.init⟩) :
    streamText (handle_messages_stream M s w r) = [] := by
  unfold handle_messages_stream
  rw [hall]
  simp only [hexit]
  exact (silent_epilogue h stats Sse.init).text

/-- What the stream sends, by the text `t` generated: nothing for an empty one;
else the whole of it twice, if it could be serialized, or, if the hook threw, a
proper part of it. -/
theorem stream_text (hmono : PrefixMonotone M) (h : AllText r.chat_params) :
    let text := (generation M s w r).exit.text.getD []
    let streamed := streamText (handle_messages_stream M s w r)
    text = detokenize M (generation M s w r).generated ∧ (text = [] → streamed = []) ∧
      (text ≠ [] → validUtf8 r.model_name = true → validUtf8 text = true →
        streamed = text ++ text ∨ streamed.length < text.length) := by
  intro text streamed
  rcases complete_stream_split M s w r.completion with
    ⟨server, exit, stats, hexit, _, hall⟩ | ⟨max_tokens, sess, seq, server, _, hall⟩
  · have hrun : generation M s w r = ⟨server, exit, stats, [], false, [], ()⟩ := hall _ _
    have htext : text = [] := by simp [text, hrun, hexit]
    refine ⟨?_, fun _ => stream_text_early s w h hexit (hall _ _), fun hne => absurd htext hne⟩
    rw [htext, hrun]
    rfl
  obtain ⟨g₀, hg₀, hgen, htext⟩ := generation_outcome s w (hall StreamHooks.none ())
  have htext' : text = detokenize M g₀.generated := htext
  rw [htext', hgen]
  refine ⟨rfl, ?_⟩
  have hstreamed : streamed = streamText (handle_messages_stream M s w r) := rfl
  unfold handle_messages_stream at hstreamed
  rw [hall (stream_hooks r) Sse.init] at hstreamed
  rcases generate_and_persist_outcome M w r.completion (stream_hooks r) Sse.init
      (M.tokenizer r.completion.prompt) max_tokens sess seq server with
    ⟨x, hp, hr⟩ | ⟨x, g, hp, hg, hr⟩ | ⟨x, g, hp, hg, hr⟩
  all_goals rw [hr] at hstreamed
  · -- the message could not be started
    have hnil : streamed = [] := hstreamed.trans (on_prefill_error hp)
    rw [hnil]
    exact ⟨fun _ => rfl, fun hne _ _ => .inr (List.length_pos_iff.2 hne)⟩
  · -- a piece could not be serialized
    have hlt : streamed.length < (detokenize M g₀.generated).length := by
      obtain ⟨us, hus⟩ := (generate_hookless hg hg₀ rfl rfl rfl).1
      have hus' : g.generated ++ us = g₀.generated := hus
      have hle := (detokenize_mono hmono g.generated us).length_le
      rw [hus'] at hle
      have hcaptured : streamed = g.captured.text := hstreamed
      rw [hcaptured]
      exact Nat.lt_of_lt_of_le (streamed_less hmono h (on_prefill_ok hp) hg) hle
    refine ⟨fun hnil => ?_, fun _ _ _ => .inr hlt⟩
    rw [hnil] at hlt
    simp at hlt
  · -- all pieces were streamed, and the epilogue has the text once more
    have hgg : g.generated = g₀.generated := (generate_hookless hg hg₀ rfl rfl rfl).2 g rfl
    have hcaptured := streamed_all hmono h (on_prefill_ok hp) hg
    have hepilogue : streamed = (leftBy (epilogue r (detokenize M g.generated)
        ⟨(M.tokenizer r.completion.prompt).length, g.generated.length⟩ g.captured)).text := hstreamed
    rw [hgg] at hepilogue hcaptured
    refine ⟨fun hnil => ?_, fun _ hmodel hvalid => .inl ?_⟩
    · rw [hepilogue, hnil]
      apply (silent_epilogue h _ g.captured).text.trans
      rw [hcaptured, hnil]
    · rw [hepilogue, epilogue_text h hmodel hvalid, hcaptured]

/-- The stream carries the text of the plain reply exactly when there is none. -/
theorem stream_text_iff (hmono : PrefixMonotone M) (h : AllText r.chat_params) {reply : Reply}
    (hreply : handle_messages_plain M s w r gen_id = some reply) :
    streamText (handle_messages_stream M s w r) = reply.text ↔
      detokenize M (generation M s w r).generated = [] := by
  obtain ⟨htext, hvalid⟩ := plain_text s w gen_id h hreply
  obtain ⟨hgen, hempty, hfull⟩ := stream_text s w hmono h
  rw [htext, ← hgen]
  constructor
  · intro he
    by_contra hne
    obtain ⟨hmodel, hutf8⟩ := hvalid hne
    rcases hfull hne hmodel hutf8 with htwice | hlt
    · rw [he] at htwice
      exact hne (List.self_eq_append_right.1 htwice)
    · rw [he] at hlt
      omega
  · intro hnil
    rw [hempty hnil, hnil]

end Branches

/-- A chat without tools on the toy model, which answers 2. -/
def chatRequest : MessagesRequest := ⟨0, [109], 1, "", { toolFormat with content_only := true }⟩

theorem chatRequest_allText : AllText chatRequest.chat_params := ⟨rfl, .inl rfl⟩

theorem chatRequest_plain : handle_messages_plain toyModel (load_model toyModel) (.calm 0) chatRequest (fun _ => []) =
    some (.message 0 [109] [.text [2]] .end_turn ⟨2, 1⟩) := by
  decide

theorem stream_text_iff_chat :
    streamText (handle_messages_stream toyModel (load_model toyModel) (.calm 0) chatRequest) = [2] ↔
      detokenize toyModel (generation toyModel (load_model toyModel) (.calm 0) chatRequest).generated = [] :=
  stream_text_iff (load_model toyModel) (.calm 0) (fun _ => []) toyModel_monotone chatRequest_allText chatRequest_plain

/-- The plain reply says 2, the stream says 2 2. -/
theorem text_sent_twice :
    ¬ ∀ (s : Server (List LlamaToken)) (w : World) (r : MessagesRequest) (reply : Reply), AllText r.chat_params →
      handle_messages_plain toyModel s w r (fun _ => []) = some reply →
      streamText (handle_messages_stream toyModel s w r) = reply.text := by
  intro h
  have := h (load_model toyModel) (.calm 0) chatRequest _ chatRequest_allText chatRequest_plain
  exact absurd this (by decide)

end Hostely.Inference
