import Hostely.Inference.Answer
import Hostely.Inference.Completions
import Hostely.Inference.Sse
/-!
# Pieces and characters

Over a vocabulary of byte strings a piece is the bytes of one token, since two
successive texts differ in those. So a piece is as whole as its token: a token
that ends inside a character makes the next chunk one that cannot be
serialized, and the exception leaves `complete_stream`.
-/

open Hostely.Lib

namespace Hostely.Inference

variable {L σ : Type}

/-! ## Texts over a vocabulary -/

/-- The text of a token list is the bytes of its tokens one after the other. -/
def Spells (M : LlamaModel L) (V : LlamaToken → Bytes) : Prop := ∀ ts, M.detokenizer ts = ts.flatMap V

/-- The bytes of the tokens, of those that have some. -/
def spelled (V : LlamaToken → Bytes) (ts : List LlamaToken) : List Bytes := (ts.map V).filter (· ≠ [])

/-- No token of a text in UTF-8 begins or ends inside a character. -/
def SplitsNothing (V : LlamaToken → Bytes) : Prop :=
  ∀ ts : List LlamaToken, validUtf8 (ts.flatMap V) = true → ∀ t ∈ ts, validUtf8 (V t) = true

variable {M : LlamaModel L} {V : LlamaToken → Bytes}

theorem Spells.text (hV : Spells M V) (ts : List LlamaToken) : detokenize M ts = ts.flatMap V := by
  rw [detokenize_eq, hV]
  split
  · simp [*]
  · rfl

theorem spelled_snoc (ts : List LlamaToken) (t : LlamaToken) :
    spelled V (ts ++ [t]) = if V t = [] then spelled V ts else spelled V ts ++ [V t] := by
  unfold spelled
  split <;> simp [*]

theorem mem_spelled {ts : List LlamaToken} {p : Bytes} (h : p ∈ spelled V ts) : ∃ t ∈ ts, V t = p :=
  List.mem_map.1 (List.mem_of_mem_filter h)

theorem valid_of_spelled {ts : List LlamaToken} (h : ∀ p ∈ spelled V ts, validUtf8 p = true) :
    ∀ t ∈ ts, validUtf8 (V t) = true := by
  intro t ht
  by_cases hnil : V t = []
  · rw [hnil]
    rfl
  · exact h _ (List.mem_filter.2 ⟨List.mem_map_of_mem ht, by simpa using hnil⟩)

/-! ## The pieces of a loop -/

/-- The loop has handed on the bytes of each token. -/
structure HandedOn (V : LlamaToken → Bytes) (g : Gen L σ) : Prop where
  emitted : g.emitted = g.generated.flatMap V
  sent : g.sent = spelled V g.generated

/-- How the loop ends: all was handed on; or a stop string appeared and the
last token was not; or the hook threw on the piece of the last token. -/
inductive Hands (V : LlamaToken → Bytes) (f : Bytes → Hook σ) (stops : Option (List Bytes)) :
    Except (Gen L σ) (Gen L σ) → Prop
  | all {g : Gen L σ} : HandedOn V g → Hands V f stops (.ok g)
  | stopped {g : Gen L σ} : stops ≠ none → g.sent = spelled V g.generated.dropLast → Hands V f stops (.ok g)
  | threw {g : Gen L σ} (p : Bytes) (c c' : σ) : g.sent = spelled V g.generated → p ∈ g.sent → f p c = .error c' →
      Hands V f stops (.error g)

section Loop
variable {ok : Nat → Bool} {seq : Nat} {f : Bytes → Hook σ} {stops : Option (List Bytes)}

/-- What one more token adds to the text is its own bytes. -/
theorem emit_token (hV : Spells M V) {g : Gen L σ} (h : HandedOn V g) :
    let id := llama_sampler_sample M g.ctx
    emit (some f) (roundText M (some f) stops (feed M seq g)) (feed M seq g) =
      if V id = [] then .ok (feed M seq g)
      else call_on_token f (V id) ((feed M seq g).generated.flatMap V) (feed M seq g) := by
  intro id
  have hfull : (feed M seq g).generated.flatMap V = (feed M seq g).emitted ++ V id := by
    show (g.generated ++ [id]).flatMap V = g.emitted ++ V id
    rw [List.flatMap_append, List.flatMap_singleton, h.emitted]
  have htext : roundText M (some f) stops (feed M seq g) = (feed M seq g).generated.flatMap V :=
    hV.text (feed M seq g).generated
  have hext : (feed M seq g).emitted <+: (feed M seq g).generated.flatMap V := hfull ▸ List.prefix_append _ _
  rw [htext, emit_extends hext]
  by_cases hnil : V id = []
  · rw [if_pos hnil, if_pos (by rw [hfull, hnil, List.append_nil])]
  · rw [if_neg hnil, if_neg (by rw [hfull]; simpa using hnil)]
    conv_lhs => rw [hfull, List.drop_left, ← hfull]

theorem generate_hands (hV : Spells M V) {rounds i : Nat} {g : Gen L σ} (h : HandedOn V g) :
    Hands V f stops (generate M ok seq (some f) stops rounds i g) := by
  induction rounds generalizing i g with
  | zero => exact .all h
  | succ rounds ih =>
    have hemit := @emit_token L σ M V seq f stops hV g h
    dsimp only at hemit
    rw [generate_succ]
    split_ifs with hend hstop
    · exact .all h
    · refine .stopped ?_ ?_
      · rintro rfl
        cases hstop
      · have hlast : (trimStop seq (feed M seq g)).generated.dropLast = g.generated := by simp [trimStop, feed]
        rw [hlast]
        exact h.sent
    · rw [hemit]
      have hspelled := @spelled_snoc V g.generated (llama_sampler_sample M g.ctx)
      have hemitted : (feed M seq g).emitted ++ V (llama_sampler_sample M g.ctx) =
          (feed M seq g).generated.flatMap V := by
        show g.emitted ++ _ = (g.generated ++ [_]).flatMap V
        rw [List.flatMap_append, List.flatMap_singleton, h.emitted]
      split_ifs with hnil
      · -- the token has no bytes, so there is no piece
        rw [if_pos hnil] at hspelled
        rw [hnil, List.append_nil] at hemitted
        exact ih ⟨hemitted, h.sent.trans hspelled.symm⟩
      · rw [if_neg hnil, ← h.sent] at hspelled
        unfold call_on_token
        cases hf : f (V (llama_sampler_sample M g.ctx)) (feed M seq g).captured with
        | ok c => exact ih ⟨rfl, hspelled.symm⟩
        | error c => exact .threw _ _ _ hspelled.symm (by simp) hf

/-- What was sent is a first part of the tokens generated. -/
theorem Hands.sent {r : Except (Gen L σ) (Gen L σ)} (h : Hands V f stops r) :
    ∃ ts, ts <+: (leftBy r).generated ∧ (leftBy r).sent = spelled V ts := by
  cases h with
  | all h => exact ⟨_, List.prefix_refl _, h.sent⟩
  | stopped _ h => exact ⟨_, List.dropLast_prefix _, h⟩
  | threw p c c' h => exact ⟨_, List.prefix_refl _, h⟩

end Loop

/-! ## The pieces of a call -/

/-- The text a request generates, whoever listens. -/
def full_text (M : LlamaModel L) (s : Server L) (w : World) (req : Request) : Bytes :=
  (complete_stream M s w req StreamHooks.none ()).exit.text.getD []

section Call
variable (hV : Spells M V) (s : Server L) (w : World) (req : Request)
include hV

theorem full_text_spelled :
    full_text M s w req = (complete_stream M s w req StreamHooks.none ()).generated.flatMap V := by
  unfold full_text
  rcases complete_stream_split M s w req with
    ⟨server, exit, stats, hexit, _, hall⟩ | ⟨max_tokens, sess, seq, server, _, hall⟩
  · rw [hall]
    simp [hexit]
  · obtain ⟨g, _, hr⟩ := generate_and_persist_hookless M w req (M.tokenizer req.prompt) max_tokens sess seq server
    rw [hall, hr]
    exact hV.text g.generated

variable (on_prefill : Option (Nat → Hook σ)) (f : Bytes → Hook σ) (captured : σ)

/-- A call sends nothing, or what its loop hands on of the tokens that it
generates without hooks. -/
theorem complete_stream_hands :
    let C := complete_stream M s w req ⟨on_prefill, some f⟩ captured
    let tokens := (complete_stream M s w req StreamHooks.none ()).generated
    (C.sent = [] ∧ tokens = [] ∧ C.exit ≠ .hook_threw) ∨
    (C.sent = [] ∧ ∃ n x, call_on_prefill (⟨on_prefill, some f⟩ : StreamHooks σ) n captured = .error x) ∨
    (∃ g : Gen L σ, Hands V f req.stops (.error g) ∧ C.sent = g.sent ∧ g.generated <+: tokens) ∨
    (∃ g : Gen L σ, Hands V f req.stops (.ok g) ∧ C.sent = g.sent ∧ g.generated = tokens ∧ C.exit ≠ .hook_threw) := by
  intro C tokens
  rcases complete_stream_split M s w req with
    ⟨server, exit, stats, hexit, _, hall⟩ | ⟨max_tokens, sess, seq, server, _, hall⟩
  · have hC : C = _ := hall _ captured
    have htokens : tokens = [] := congrArg Completion.generated (hall StreamHooks.none ())
    refine .inl ⟨?_, htokens, ?_⟩
    · rw [hC]
    · rw [hC]
      rintro rfl
      cases hexit
  · have hC : C = _ := hall _ captured
    obtain ⟨g₀, hg₀, hr₀⟩ :=
      generate_and_persist_hookless M w req (M.tokenizer req.prompt) max_tokens sess seq server
    have htokens : tokens = g₀.generated := congrArg Completion.generated ((hall StreamHooks.none ()).trans hr₀)
    have hstart : ∀ x : σ, HandedOn V (⟨server.ctx, [], (M.tokenizer req.prompt).length, [], x, []⟩ : Gen L σ) :=
      fun x => ⟨rfl, rfl⟩
    rw [hC, htokens]
    rcases generate_and_persist_outcome M w req ⟨on_prefill, some f⟩ captured (M.tokenizer req.prompt) max_tokens sess
        seq server with ⟨x, hp, hr⟩ | ⟨x, g, _, hg, hr⟩ | ⟨x, g, _, hg, hr⟩
    · rw [hr]
      exact .inr (.inl ⟨rfl, _, x, hp⟩)
    · have hhands : Hands V f req.stops (.error g) := hg ▸ generate_hands hV (hstart x)
      rw [hr]
      exact .inr (.inr (.inl ⟨g, hhands, rfl, (generate_hookless hg hg₀ rfl rfl rfl).1⟩))
    · have hhands : Hands V f req.stops (.ok g) := hg ▸ generate_hands hV (hstart x)
      rw [hr]
      exact .inr (.inr (.inr ⟨g, hhands, rfl, (generate_hookless hg hg₀ rfl rfl rfl).2 g rfl, by simp⟩))

/-- Each piece is the bytes of a token generated. -/
theorem piece_of_token {p : Bytes} (hp : p ∈ (complete_stream M s w req ⟨on_prefill, some f⟩ captured).sent) :
    ∃ t ∈ (complete_stream M s w req StreamHooks.none ()).generated, V t = p := by
  have hof : ∀ r : Except (Gen L σ) (Gen L σ), Hands V f req.stops r → p ∈ (leftBy r).sent →
      ∃ t ∈ (leftBy r).generated, V t = p := by
    intro r hr hp
    obtain ⟨ts, hts, hsent⟩ := hr.sent
    rw [hsent] at hp
    obtain ⟨t, ht, hVt⟩ := mem_spelled hp
    exact ⟨t, hts.subset ht, hVt⟩
  rcases complete_stream_hands hV s w req on_prefill f captured with
    ⟨hsent, _⟩ | ⟨hsent, _⟩ | ⟨g, hg, hsent, hgen⟩ | ⟨g, hg, hsent, hgen, _⟩
  · rw [hsent] at hp
    cases hp
  · rw [hsent] at hp
    cases hp
  · rw [hsent] at hp
    obtain ⟨t, ht, hVt⟩ := hof _ hg hp
    exact ⟨t, hgen.subset ht, hVt⟩
  · rw [hsent] at hp
    obtain ⟨t, ht, hVt⟩ := hof _ hg hp
    exact ⟨t, hgen ▸ ht, hVt⟩

/-- An exception comes from `on_prefill` or from a piece. -/
theorem threw_on_piece (hthrew : (complete_stream M s w req ⟨on_prefill, some f⟩ captured).exit = .hook_threw) :
    (∃ n x, call_on_prefill (⟨on_prefill, some f⟩ : StreamHooks σ) n captured = .error x) ∨
    ∃ p ∈ (complete_stream M s w req ⟨on_prefill, some f⟩ captured).sent, ∃ c c', f p c = .error c' := by
  rcases complete_stream_hands hV s w req on_prefill f captured with
    ⟨_, _, hexit⟩ | ⟨_, hp⟩ | ⟨g, hg, hsent, _⟩ | ⟨g, _, _, _, hexit⟩
  · exact absurd hthrew hexit
  · exact .inl hp
  · cases hg with
    | threw p c c' _ hp hf => exact .inr ⟨p, hsent ▸ hp, c, c', hf⟩
  · exact absurd hthrew hexit

/-- Without stop strings a hook that never throws gets the bytes of all tokens. -/
theorem all_handed_on (hstops : req.stops = none) (hf : ∀ p c, ∃ c', f p c = .ok c') :
    (complete_stream M s w req ⟨none, some f⟩ captured).sent =
      spelled V (complete_stream M s w req StreamHooks.none ()).generated := by
  rcases complete_stream_hands hV s w req none f captured with
    ⟨hsent, htokens, _⟩ | ⟨_, n, x, hp⟩ | ⟨g, hg, _⟩ | ⟨g, hg, hsent, hgen, _⟩
  · rw [hsent, htokens]
    rfl
  · cases hp
  · cases hg with
    | threw p c c' _ _ hthrew =>
      obtain ⟨d, hd⟩ := hf p c
      rw [hd] at hthrew
      cases hthrew
  · cases hg with
    | all h => rw [hsent, h.sent, hgen]
    | stopped hne _ => exact absurd hstops hne

end Call

/-! ## The two handlers -/

section Messages
variable {r : MessagesRequest} (hname : validUtf8 r.model_name = true)
include hname

theorem ensure_started_ok (n : Nat) (c : Sse) : ∃ d, ensure_started r n c = .ok d := by
  unfold ensure_started
  split
  · exact ⟨c, rfl⟩
  · rw [message_start_ok hname]
    simp only [bind, Except.bind, only_if]
    split
    · exact ⟨_, send_ok rfl _⟩
    · exact ⟨_, rfl⟩

/-- `on_token` of `handle_messages` throws on no piece that is whole. -/
theorem on_token_ok {p : Bytes} (hp : validUtf8 p = true) (c : Sse) : ∃ d, on_token r p c = .ok d := by
  have hdelta : ∀ i, (Event.content_block_delta i (.text_delta p)).dumps = true := fun _ => hp
  unfold on_token
  split_ifs
  · exact ⟨c, rfl⟩
  · obtain ⟨d, hd⟩ := ensure_started_ok hname 0 c
    rw [hd]
    exact ⟨_, send_ok (hdelta _) _⟩
  · exact ⟨_, rfl⟩
  · obtain ⟨d, hd⟩ := ensure_started_ok hname 0 { c with acc := c.acc ++ p }
    rw [hd]
    simp only [bind, Except.bind]
    split
    · exact ⟨_, rfl⟩
    · -- the parser threw, or what it returned could not be serialized
      rename_i e _
      have hraw : ∀ e : Sse, ∃ d, confirm p e = .ok d := by
        intro e
        unfold confirm send_delta
        rw [send_ok (hdelta _)]
        exact ⟨_, rfl⟩
      unfold stream_raw only_if
      split
      · rw [open_block, send_ok rfl]
        exact hraw _
      · exact hraw _

end Messages

/-- Nor does that of `handle_chat_completions`. -/
theorem chat_on_token_ok {r : ChatRequest} (hname : validUtf8 r.model_name = true) {p : Bytes}
    (hp : validUtf8 p = true) (compute_diffs : ChatMsg → ChatMsg → Option (List ChatDiff)) (gen_id : Nat → Bytes)
    (c : ChatSse) : ∃ d, chat_on_token r compute_diffs gen_id p c = .ok d := by
  have hchunk : ∀ c, ∃ d, send_chunk r (.content p) c = .ok d := by
    intro c
    unfold send_chunk
    rw [if_pos (by simp [ChunkDelta.strings, hname, hp])]
    exact ⟨_, rfl⟩
  unfold chat_on_token
  split_ifs
  · exact ⟨c, rfl⟩
  · exact hchunk _
  · dsimp only
    split
    · exact ⟨_, rfl⟩
    · exact hchunk _

/-- Every piece that is streamed is whole, and so neither handler's hook throws
out of `complete_stream`. -/
structure WholePieces (V : LlamaToken → Bytes) (model_name : Bytes) : Prop where
  pieces : ∀ {L σ : Type} (M : LlamaModel L), Spells M V → ∀ (s : Server L) (w : World) (req : Request)
    (on_prefill : Option (Nat → Hook σ)) (f : Bytes → Hook σ) (captured : σ),
    validUtf8 (full_text M s w req) = true →
    ∀ p ∈ (complete_stream M s w req ⟨on_prefill, some f⟩ captured).sent, validUtf8 p = true
  messages : ∀ {L : Type} (M : LlamaModel L), Spells M V → ∀ (s : Server L) (w : World) (r : MessagesRequest),
    r.model_name = model_name → validUtf8 (full_text M s w r.completion) = true →
    (complete_stream M s w r.completion (stream_hooks r) Sse.init).exit ≠ .hook_threw
  chat : ∀ {L : Type} (M : LlamaModel L), Spells M V → ∀ (s : Server L) (w : World) (r : ChatRequest)
    (compute_diffs : ChatMsg → ChatMsg → Option (List ChatDiff)) (gen_id : Nat → Bytes) (c : ChatSse),
    r.model_name = model_name → validUtf8 (full_text M s w r.completion) = true →
    (complete_stream M s w r.completion (chat_hooks r compute_diffs gen_id) c).exit ≠ .hook_threw

theorem whole_pieces (hV : SplitsNothing V) {model_name : Bytes} (hname : validUtf8 model_name = true) :
    WholePieces V model_name := by
  have hpieces : ∀ {L σ : Type} (M : LlamaModel L), Spells M V → ∀ (s : Server L) (w : World) (req : Request)
      (on_prefill : Option (Nat → Hook σ)) (f : Bytes → Hook σ) (captured : σ),
      validUtf8 (full_text M s w req) = true →
      ∀ p ∈ (complete_stream M s w req ⟨on_prefill, some f⟩ captured).sent, validUtf8 p = true := by
    intro L σ M hM s w req on_prefill f captured htext p hp
    obtain ⟨t, ht, rfl⟩ := piece_of_token hM s w req on_prefill f captured hp
    rw [full_text_spelled hM] at htext
    exact hV _ htext t ht
  refine ⟨hpieces, ?_, ?_⟩
  · rintro L M hM s w r rfl htext hthrew
    rcases threw_on_piece hM s w r.completion _ (on_token r) Sse.init hthrew with ⟨n, x, hx⟩ | ⟨p, hp, c, c', hc⟩
    · obtain ⟨d, hd⟩ := ensure_started_ok hname n Sse.init
      exact absurd (hd.symm.trans hx) (by simp)
    · obtain ⟨d, hd⟩ := on_token_ok hname (hpieces M hM s w r.completion _ _ _ htext p hp) c
      exact absurd (hd.symm.trans hc) (by simp)
  · rintro L M hM s w r compute_diffs gen_id c rfl htext hthrew
    rcases threw_on_piece hM s w r.completion none (chat_on_token r compute_diffs gen_id) c hthrew with
      ⟨n, x, hx⟩ | ⟨p, hp, c', c'', hc⟩
    · cases hx
    · obtain ⟨d, hd⟩ :=
        chat_on_token_ok hname (hpieces M hM s w r.completion none _ _ htext p hp) compute_diffs gen_id c'
      exact absurd (hd.symm.trans hc) (by simp)

/-! ## A model that spells a token list -/

section Spelling
variable {ts : List LlamaToken} {eos : LlamaToken}

theorem spells_spelling (V : LlamaToken → Bytes) (ts : List LlamaToken) (eos : LlamaToken) :
    Spells (spelling V ts eos) V := fun _ => rfl

/-- A request without a session for all of it. -/
def spellRequest (ts : List LlamaToken) : Request := ⟨[], ts.length, "", false, none⟩

/-- A server just loaded generates the list. -/
theorem spelling_generated (heos : eos ∉ ts) :
    (complete_stream (spelling V ts eos) (load_model (spelling V ts eos)) (.calm 0) (spellRequest ts) StreamHooks.none
      ()).generated = ts := by
  have hprompt : (spelling V ts eos).tokenizer (spellRequest ts).prompt ≠ [] := List.cons_ne_nil _ _
  have hrun := @complete_stream_answer _ _ (load_model (spelling V ts eos)) _ _ hprompt _ (spelling_guard ts eos) (calm_decodes 0)
  have hstart : answer_to (spelling V ts eos) (spellRequest ts) [0] ts.length
      (open_session (.calm 0) (spellRequest ts) [0] (load_model (spelling V ts eos))) =
      answer (spelling V ts eos) none ts.length (some ([0] ++ [])) [0] [] := rfl
  exact hrun.2.2.trans (hstart.trans (spelling_answer heos ts [] rfl))

end Spelling

/-- A vocabulary that splits nothing is needed: a model may answer with any
list of tokens. -/
theorem WholePieces.splits_nothing {model_name : Bytes} (h : WholePieces V model_name) : SplitsNothing V := by
  intro ts htext t ht
  obtain ⟨eos, heos⟩ := Infinite.exists_notMem_finset ts.toFinset
  rw [List.mem_toFinset] at heos
  have hfull : full_text (spelling V ts eos) (load_model (spelling V ts eos)) (.calm 0) (spellRequest ts) =
      ts.flatMap V := by
    rw [full_text_spelled (spells_spelling V ts eos), spelling_generated heos]
  have hall := all_handed_on (spells_spelling V ts eos) (load_model (spelling V ts eos)) (.calm 0) (spellRequest ts)
    (fun _ c => .ok c) () rfl fun _ c => ⟨c, rfl⟩
  rw [spelling_generated heos] at hall
  have hpieces := h.pieces (spelling V ts eos) (spells_spelling V ts eos) (load_model (spelling V ts eos)) (.calm 0)
    (spellRequest ts) none (fun _ c => .ok c) () (by rw [hfull]; exact htext)
  rw [hall] at hpieces
  exact valid_of_spelled hpieces t ht

/-- A request for nothing. -/
def emptyRequest (model_name : Bytes) : MessagesRequest :=
  ⟨0, model_name, 0, "", textParams []⟩

/-- So is a model name in UTF-8, which is in every message. -/
theorem WholePieces.valid_name {model_name : Bytes} (h : WholePieces V model_name) : validUtf8 model_name = true := by
  by_contra hname
  rw [Bool.not_eq_true] at hname
  have hprompt : (spelling V [] 0).tokenizer (emptyRequest model_name).completion.prompt ≠ [] := List.cons_ne_nil _ _
  have hrun := @complete_stream_answer _ _ (load_model (spelling V [] 0)) _ _ hprompt _ (spelling_guard [] 0) (calm_decodes 0)
  have hthrew : call_on_prefill (stream_hooks (emptyRequest model_name)) 1 Sse.init = .error Sse.init := by
    show ensure_started (emptyRequest model_name) 1 Sse.init = .error Sse.init
    unfold ensure_started
    rw [if_neg (by decide), message_start_error hname]
    rfl
  refine h.messages (spelling V [] 0) (spells_spelling V [] 0) (load_model (spelling V [] 0)) (.calm 0) (emptyRequest model_name)
    rfl ?_ (complete_stream_prefill_threw hprompt (spelling_guard [] 0) (calm_decodes 0) _ _ hthrew)
  rw [full_text_spelled (spells_spelling V [] 0), hrun.2.2]
  rfl

theorem whole_pieces_iff (V : LlamaToken → Bytes) (model_name : Bytes) :
    WholePieces V model_name ↔ SplitsNothing V ∧ validUtf8 model_name = true :=
  ⟨fun h => ⟨h.splits_nothing, h.valid_name⟩, fun h => whole_pieces h.1 h.2⟩

/-- The two bytes of an accented letter, each a token. -/
def halves : LlamaToken → Bytes
  | 1 => [0xC3]
  | 2 => [0xA9]
  | _ => []

/-- The answer is the letter, and the hook throws on the first half of it. -/
theorem half_letter_throws : ¬ ∀ (V : LlamaToken → Bytes) (model_name : Bytes), WholePieces V model_name := by
  intro h
  let r : MessagesRequest := { emptyRequest (bytes "m") with max_tokens := 2 }
  refine (h halves (bytes "m")).messages (spelling halves [1, 2] 0) (spells_spelling _ _ _) (load_model (spelling halves [1, 2] 0))
    (.calm 0) r rfl ?_ ?_
  · decide +kernel
  · decide +kernel

end Hostely.Inference
