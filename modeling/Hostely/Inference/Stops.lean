import Hostely.Inference.Generation
/-!
# Stop strings and the stream

The loop looks for stop strings before it hands a round's text to `on_token`.
So the round that completes a stop string is never streamed, and what was
streamed is the text of all tokens but the last, wherever the stop string
starts; `apply_stops` cuts the returned text at its start.
-/

open Hostely.Lib

namespace Hostely.Inference

variable {L σ : Type}

/-- One round of the loop: cuts the text where the stop string first occurs. -/
def cut_at (text stop : Bytes) : Bytes :=
  if stop = [] then text
  else match findSub? stop text with
    | some pos => text.take pos
    | none => text

def apply_stops (additional_stops : List Bytes) (text : Bytes) : Bytes := additional_stops.foldl cut_at text

/-- No stop string occurs in the text; empty ones do not count. -/
def StopFree (stops : List Bytes) (text : Bytes) : Prop := ∀ s ∈ stops, s ≠ [] → ¬ s <:+: text

theorem stop_hit_eq_false {stops : Option (List Bytes)} {full : Bytes} :
    stop_hit stops full = false ↔ StopFree (stops.getD []) full := by
  cases stops with
  | none => simp [stop_hit, StopFree]
  | some l =>
    simp only [stop_hit, StopFree, List.any_eq_false, Bool.and_eq_true, not_and, Option.getD_some,
      decide_eq_true_eq, findSub?_isSome]

theorem stopFree_nil (stops : List Bytes) : StopFree stops [] := by
  intro s _ hne hin
  exact hne (List.infix_nil.1 hin)

/-! ## apply_stops -/

theorem cut_at_starts (text stop : Bytes) : cut_at text stop <+: text := by
  unfold cut_at
  split
  · exact List.prefix_refl _
  · split
    · exact List.take_prefix _ _
    · exact List.prefix_refl _

theorem apply_stops_starts (stops : List Bytes) (text : Bytes) : apply_stops stops text <+: text := by
  induction stops generalizing text with
  | nil => exact List.prefix_refl _
  | cons s stops ih => exact (ih _).trans (cut_at_starts text s)

/-- A text without stop strings is left alone. -/
theorem apply_stops_free {stops : List Bytes} {text : Bytes} (h : StopFree stops text) :
    apply_stops stops text = text := by
  induction stops with
  | nil => rfl
  | cons s stops ih =>
    have hcut : cut_at text s = text := by
      unfold cut_at
      split
      · rfl
      · rw [findSub?_eq_none.2 (h s List.mem_cons_self ‹_›)]
    rw [apply_stops, List.foldl_cons, hcut]
    exact ih fun s' hs' => h s' (List.mem_cons_of_mem _ hs')

/-! ## Monotone detokenizers -/

/-- The text of a longer token list extends the text of a shorter one. -/
def PrefixMonotone (M : LlamaModel L) : Prop := ∀ ts us, M.detokenizer ts <+: M.detokenizer (ts ++ us)

theorem detokenize_mono {M : LlamaModel L} (h : PrefixMonotone M) (ts us : List LlamaToken) :
    detokenize M ts <+: detokenize M (ts ++ us) := by
  rw [detokenize_eq, detokenize_eq]
  by_cases hts : ts = []
  · rw [if_pos hts]
    exact List.nil_prefix
  · rw [if_neg hts, if_neg (by simp [hts])]
    exact h ts us

/-! ## What is streamed -/

/-- Emitting a text that extends what was emitted sends the rest of it, if any. -/
theorem emit_extends {f : Bytes → Hook σ} {g : Gen L σ} {full : Bytes} (h : g.emitted <+: full) :
    emit (some f) full g =
      if g.emitted = full then .ok g else call_on_token f (full.drop g.emitted.length) full g := by
  obtain ⟨rest, rfl⟩ := h
  unfold emit
  by_cases hr : rest = []
  · subst hr
    simp
  · have hlen := List.length_pos_iff.2 hr
    have hlong : (g.emitted ++ rest).length > g.emitted.length ∧
        (g.emitted ++ rest).take g.emitted.length = g.emitted := by
      simp [hlen]
    rw [if_neg (by simp [hr])]
    dsimp only
    rw [if_pos hlong]

/-- The loop has streamed the text of what it generated. -/
structure Streamed (M : LlamaModel L) (stops : List Bytes) (g : Gen L σ) : Prop where
  emitted : g.emitted = detokenize M g.generated
  sent : g.sent.flatten = g.emitted
  pieces : ∀ p ∈ g.sent, p ≠ []
  free : StopFree stops (detokenize M g.generated)

theorem streamed_start {M : LlamaModel L} (stops : List Bytes) (ctx : LlamaContext L) (n : Nat) (captured : σ) :
    Streamed M stops ⟨ctx, [], n, [], captured, []⟩ := by
  refine ⟨rfl, rfl, ?_, stopFree_nil _⟩
  intro p hp
  cases hp

/-- How the loop ends, for a hook on a monotone detokenizer: the whole text was
streamed; or a stop string appeared and the last token's text was not; or the
hook threw on the last piece. -/
inductive Ends (M : LlamaModel L) (stops : List Bytes) : Except (Gen L σ) (Gen L σ) → Prop
  | whole {g : Gen L σ} : Streamed M stops g → Ends M stops (.ok g)
  | stopped {g : Gen L σ} : ¬ StopFree stops (detokenize M g.generated) →
      g.sent.flatten = detokenize M g.generated.dropLast → (∀ p ∈ g.sent, p ≠ []) → Ends M stops (.ok g)
  | threw {g : Gen L σ} (front : List Bytes) (piece : Bytes) : g.sent = front ++ [piece] → piece ≠ [] →
      (∀ p ∈ front, p ≠ []) → g.sent.flatten = detokenize M g.generated → Ends M stops (.error g)

theorem generate_ends {M : LlamaModel L} (hmono : PrefixMonotone M) {ok : Nat → Bool} {seq : Nat}
    {f : Bytes → Hook σ} {stops : Option (List Bytes)} {rounds i : Nat} {g : Gen L σ}
    (h : Streamed M (stops.getD []) g) :
    Ends M (stops.getD []) (generate M ok seq (some f) stops rounds i g) := by
  induction rounds generalizing i g with
  | zero => exact .whole h
  | succ rounds ih =>
    have htext : roundText M (some f) stops (feed M seq g) = detokenize M (feed M seq g).generated := rfl
    have hext : g.emitted <+: detokenize M (feed M seq g).generated := by
      rw [h.emitted]
      exact detokenize_mono hmono _ _
    rw [generate_succ, htext]
    split_ifs with hend hstop
    · exact .whole h
    · refine .stopped ?_ ?_ h.pieces
      · intro hfree
        have hfree' : StopFree (stops.getD []) (detokenize M (feed M seq g).generated) := hfree
        rw [stop_hit_eq_false.2 hfree'] at hstop
        cases hstop
      · have hlast : (trimStop seq (feed M seq g)).generated.dropLast = g.generated := by simp [trimStop, feed]
        rw [hlast, ← h.emitted]
        exact h.sent
    · have hfree : StopFree (stops.getD []) (detokenize M (feed M seq g).generated) :=
        stop_hit_eq_false.1 (by simpa using hstop)
      have hfed : (feed M seq g).emitted <+: detokenize M (feed M seq g).generated := hext
      rw [emit_extends hfed]
      split_ifs with hsame
      · -- the new token adds no text
        exact ih ⟨hsame, h.sent, h.pieces, hfree⟩
      · have hne : (detokenize M (feed M seq g).generated).drop g.emitted.length ≠ [] := by
          intro hnil
          have hle := List.drop_eq_nil_iff.1 hnil
          exact hsame (hext.eq_of_length_le hle)
        have hcat : g.sent.flatten ++ (detokenize M (feed M seq g).generated).drop g.emitted.length =
            detokenize M (feed M seq g).generated := by
          rw [h.sent]
          obtain ⟨rest, hrest⟩ := hext
          rw [← hrest, List.drop_left]
        unfold call_on_token
        cases f ((detokenize M (feed M seq g).generated).drop (feed M seq g).emitted.length)
            (feed M seq g).captured with
        | ok c =>
          refine ih ⟨rfl, ?_, ?_, hfree⟩
          · simpa [feed] using hcat
          · intro p hp
            rcases List.mem_append.1 hp with hp | hp
            · exact h.pieces p hp
            · rw [List.mem_singleton.1 hp]
              exact hne
        | error c =>
          refine .threw g.sent _ rfl hne h.pieces ?_
          simpa [feed] using hcat

/-- What a call that returned has streamed: the text it returns, or, when a
stop string appeared, the text of all tokens but the last. -/
theorem complete_stream_sent {M : LlamaModel L} (hmono : PrefixMonotone M) (s : Server L) (w : World) (req : Request)
    {hooks : StreamHooks σ} {f : Bytes → Hook σ} (hf : hooks.on_token = some f) (captured : σ) {text : Bytes}
    (ht : (complete_stream M s w req hooks captured).exit.text = some text) :
    let C := complete_stream M s w req hooks captured
    text = detokenize M C.generated ∧
      ((StopFree (req.stops.getD []) text ∧ C.sent.flatten = text) ∨
        (¬ StopFree (req.stops.getD []) text ∧ C.sent.flatten = detokenize M C.generated.dropLast)) := by
  intro C
  rcases complete_stream_split M s w req with
    ⟨server, exit, stats, hexit, _, hall⟩ | ⟨max_tokens, sess, seq, server, _, hall⟩
  · have hC : C = _ := hall hooks captured
    rw [hall hooks captured] at ht
    rw [hC]
    obtain rfl : [] = text := Option.some.inj (hexit.symm.trans ht)
    exact ⟨rfl, .inl ⟨stopFree_nil _, rfl⟩⟩
  · have hC : C = _ := hall hooks captured
    rw [hall hooks captured] at ht
    rw [hC]
    rcases generate_and_persist_outcome M w req hooks captured (M.tokenizer req.prompt) max_tokens sess seq server with
      ⟨x, _, hr⟩ | ⟨x, g, _, _, hr⟩ | ⟨x, g, _, hg, hr⟩
    · rw [hr] at ht
      cases ht
    · rw [hr] at ht
      cases ht
    · rw [hr] at ht ⊢
      obtain rfl : detokenize M g.generated = text := Option.some.inj ht
      have hends : Ends M (req.stops.getD []) (.ok g : Except (Gen L σ) (Gen L σ)) := by
        rw [← hg, hf]
        exact generate_ends hmono (streamed_start _ _ _ _)
      cases hends with
      | whole h => exact ⟨rfl, .inl ⟨h.free, h.sent.trans h.emitted⟩⟩
      | stopped hhit hsent _ => exact ⟨rfl, .inr ⟨hhit, hsent⟩⟩

/-- The stream agrees with the trimmed text exactly when no stop string
appeared, or the cut falls where the last token's text begins. -/
theorem streamed_iff {M : LlamaModel L} (hmono : PrefixMonotone M) (s : Server L) (w : World) (req : Request)
    {hooks : StreamHooks σ} {f : Bytes → Hook σ} (hf : hooks.on_token = some f) (captured : σ) {text : Bytes}
    (ht : (complete_stream M s w req hooks captured).exit.text = some text) :
    let C := complete_stream M s w req hooks captured
    C.sent.flatten = apply_stops (req.stops.getD []) text ↔
      StopFree (req.stops.getD []) (detokenize M C.generated) ∨
        (apply_stops (req.stops.getD []) (detokenize M C.generated)).length =
          (detokenize M C.generated.dropLast).length := by
  intro C
  obtain ⟨htext, hends⟩ := complete_stream_sent hmono s w req hf captured ht
  have hgen : text = detokenize M C.generated := htext
  rw [← hgen]
  rcases hends with ⟨hfree, hwhole⟩ | ⟨hhit, hbut⟩
  · have hsent : C.sent.flatten = text := hwhole
    rw [hsent, apply_stops_free hfree]
    exact iff_of_true rfl (.inl hfree)
  · -- both are first parts of the text, so they agree when their lengths do
    have hsent : C.sent.flatten = detokenize M C.generated.dropLast := hbut
    rw [hsent, or_iff_right hhit]
    have hcut := apply_stops_starts (req.stops.getD []) text
    have hlast : detokenize M C.generated.dropLast <+: text := by
      rw [hgen]
      by_cases hnil : C.generated = []
      · rw [hnil]
        exact List.prefix_refl _
      · have := detokenize_mono hmono C.generated.dropLast [C.generated.getLast hnil]
        rwa [List.dropLast_append_getLast] at this
    constructor
    · intro he
      exact (congrArg List.length he).symm
    · intro hlen
      exact (List.prefix_of_prefix_length_le hlast hcut hlen.ge).eq_of_length hlen.symm

theorem toyModel_monotone : PrefixMonotone toyModel := by
  intro ts us
  simp [toyModel]

/-- Hooks that collect the pieces. -/
def collect : StreamHooks (List Bytes) := ⟨none, some fun piece pieces => .ok (pieces ++ [piece])⟩

/-- The toy model answers 2, 3, 4, ... to the prompt 7 8. -/
def countingRequest (stops : List Bytes) : Request := ⟨[7, 8], 5, "", false, some stops⟩

theorem streamed_iff_counting :
    (complete_stream toyModel (load_model toyModel) (.calm 0) (countingRequest [[3]]) collect []).sent.flatten =
        apply_stops [[3]] [2, 3] ↔
      StopFree [[3]] [2, 3] ∨ (apply_stops [[3]] [2, 3]).length = ([2] : Bytes).length :=
  streamed_iff toyModel_monotone (load_model toyModel) (.calm 0) (countingRequest [[3]]) rfl [] rfl

/-- The stop string `3 4` comes in two tokens: its first byte is streamed. -/
theorem stop_string_streamed :
    ¬ ∀ (s : Server (List LlamaToken)) (w : World) (req : Request) (text : Bytes),
      (complete_stream toyModel s w req collect []).exit.text = some text →
      (complete_stream toyModel s w req collect []).sent.flatten = apply_stops (req.stops.getD []) text := by
  intro h
  have := h (load_model toyModel) (.calm 0) (countingRequest [[3, 4]]) [2, 3, 4] (by decide)
  exact absurd this (by decide)

end Hostely.Inference
