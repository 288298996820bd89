import Hostely.Apps.RoundTrip
/-!
# Quoted scalars

Inside quotes of one kind, a quote of that kind is written twice. `#`, `: ` and
spaces between the quotes are data for all three passes over the line. `unquote`
however makes one of two quotes of either kind, so a text with a doubled quote
of the other kind does not come back.
-/

open Hostely.Lib

namespace Hostely.Apps

inductive Quote where
  | single
  | double
deriving DecidableEq, Repr

def Quote.char : Quote → UInt8
  | .single => 39
  | .double => 34

def Quote.other : Quote → Quote
  | .single => .double
  | .double => .single

/-- Each quote of this kind twice. -/
def doubled (q : Quote) (s : Bytes) : Bytes := s.flatMap fun c => if c = q.char then [c, c] else [c]

def quoted (q : Quote) (s : Bytes) : Bytes := q.char :: doubled q s ++ [q.char]

/-- `key: 's'` -/
def quoted_line (key : Word) (q : Quote) (s : Bytes) : Bytes := key.1 ++ 58 :: 32 :: quoted q s

theorem doubled_cons (q : Quote) (c : UInt8) (s : Bytes) :
    doubled q (c :: s) = if c = q.char then c :: c :: doubled q s else c :: doubled q s := by
  unfold doubled
  rw [List.flatMap_cons]
  split <;> rfl

theorem doubled_head (q : Quote) (s : Bytes) : (doubled q s).head? = s.head? := by
  cases s with
  | nil => rfl
  | cons c s =>
    rw [doubled_cons]
    split <;> rfl

theorem mem_doubled {q : Quote} {s : Bytes} {c : UInt8} (h : c ∈ doubled q s) : c ∈ s := by
  obtain ⟨d, hd, hc⟩ := List.mem_flatMap.1 h
  split at hc <;> simp_all

/-! ## Collapsing -/

theorem collapse_pair {c : UInt8} (hc : c = 39 ∨ c = 34) (t : Bytes) :
    collapse_quotes (c :: c :: t) = c :: collapse_quotes t := by
  simp [collapse_quotes, hc]

theorem collapse_other {c : UInt8} {t : Bytes} (h : ¬ ((c = 39 ∨ c = 34) ∧ t.head? = some c)) :
    collapse_quotes (c :: t) = c :: collapse_quotes t := by
  cases t with
  | nil => rfl
  | cons d t =>
    have hne : ¬ (c = d ∧ (c = 39 ∨ c = 34)) := by
      rintro ⟨rfl, hc⟩
      exact h ⟨hc, rfl⟩
    rw [collapse_quotes, if_neg hne]

/-- A doubled quote of the other kind becomes one, any other character stays. -/
theorem collapse_doubled_cons (q : Quote) (c : UInt8) (s : Bytes) :
    (∃ t, c = q.other.char ∧ s = c :: t ∧ collapse_quotes (doubled q (c :: s)) = c :: collapse_quotes (doubled q t)) ∨
      (¬ (c = q.other.char ∧ s.head? = some c) ∧
        collapse_quotes (doubled q (c :: s)) = c :: collapse_quotes (doubled q s)) := by
  have hkinds : (c = 39 ∨ c = 34) ↔ c = q.char ∨ c = q.other.char := by
    cases q
    · exact Iff.rfl
    · exact Or.comm
  have hdiff : q.other.char ≠ q.char := by cases q <;> decide
  rw [doubled_cons]
  by_cases hq : c = q.char
  · refine .inr ⟨fun h => hdiff (h.1.symm.trans hq), ?_⟩
    rw [if_pos hq, collapse_pair (hkinds.2 (.inl hq))]
  · rw [if_neg hq]
    by_cases hpair : c = q.other.char ∧ s.head? = some c
    · obtain ⟨hc, hhead⟩ := hpair
      obtain ⟨t, rfl⟩ : ∃ t, s = c :: t := List.head?_eq_some_iff.1 hhead
      refine .inl ⟨t, hc, rfl, ?_⟩
      rw [doubled_cons, if_neg hq, collapse_pair (hkinds.2 (.inr hc))]
    · refine .inr ⟨hpair, collapse_other ?_⟩
      rw [doubled_head, hkinds]
      rintro ⟨hc, hhead⟩
      exact hpair ⟨hc.resolve_left hq, hhead⟩

theorem collapse_doubled_length (q : Quote) (s : Bytes) : (collapse_quotes (doubled q s)).length ≤ s.length := by
  induction hn : s.length using Nat.strong_induction_on generalizing s with
  | _ n ih =>
    cases s with
    | nil => simp [doubled, collapse_quotes]
    | cons c s =>
      subst hn
      rcases collapse_doubled_cons q c s with ⟨t, -, rfl, h⟩ | ⟨-, h⟩
      · have := ih t.length (by simp only [List.length_cons]; omega) t rfl
        rw [h]
        simp only [List.length_cons]
        omega
      · have := ih s.length (by simp) s rfl
        rw [h]
        simp only [List.length_cons]
        omega

/-- The text comes back unless it has a doubled quote of the other kind. -/
theorem collapse_doubled (q : Quote) (s : Bytes) :
    collapse_quotes (doubled q s) = s ↔ ¬ [q.other.char, q.other.char] <:+: s := by
  induction s with
  | nil => simp [doubled, collapse_quotes]
  | cons c s ih =>
    rcases collapse_doubled_cons q c s with ⟨t, hc, rfl, h⟩ | ⟨hno, h⟩
    · have hlen := collapse_doubled_length q t
      rw [h]
      refine iff_of_false (fun he => ?_) (not_not.2 ⟨[], t, by simp [hc]⟩)
      have := congrArg List.length he
      simp only [List.length_cons] at this
      omega
    · rw [h, List.cons.injEq, ih, List.infix_cons_iff, not_or]
      have hpre : ¬ [q.other.char, q.other.char] <+: c :: s := by
        rintro ⟨rest, hrest⟩
        simp only [List.cons_append, List.nil_append, List.cons.injEq] at hrest
        exact hno ⟨hrest.1.symm, by rw [← hrest.2, ← hrest.1]; rfl⟩
      simp [hpre]

theorem quoted_last (q : Quote) (s : Bytes) : (quoted q s).getLast? = some q.char := List.getLast?_concat

theorem unquote_quoted (q : Quote) (s : Bytes) : unquote (quoted q s) = collapse_quotes (doubled q s) := by
  have hhead : (quoted q s).head? = some q.char := rfl
  have hlen : 2 ≤ (quoted q s).length := by simp [quoted]
  have hinside : (quoted q s).tail.dropLast = doubled q s := by simp [quoted]
  rw [unquote, if_pos, hinside]
  rw [hhead, quoted_last]
  cases q <;> simp [Quote.char, hlen]

/-! ## The line -/

/-- With the quote open, nothing before the closing one starts a comment. -/
theorem strip_comment_doubled (q : Quote) (s : Bytes) (after_space : Bool) :
    strip_comment_from (q = .single) (q = .double) after_space (doubled q s ++ [q.char]) = doubled q s ++ [q.char] := by
  induction s generalizing after_space with
  | nil => cases q <;> rfl
  | cons c s ih =>
    rw [doubled_cons]
    by_cases hc : c = q.char
    · subst hc
      cases q <;> simpa [Quote.char, strip_comment_from] using ih false
    · have ih' := ih (isspace c)
      rw [if_neg hc]
      cases q <;> simp_all [Quote.char, strip_comment_from]

theorem strip_comment_word (w : Word) (rest : Bytes) (after_space : Bool) :
    ∃ b, strip_comment_from false false after_space (w.1 ++ rest) = w.1 ++ strip_comment_from false false b rest := by
  obtain ⟨w, hw⟩ := w
  induction w generalizing after_space with
  | nil => exact ⟨after_space, rfl⟩
  | cons c w ih =>
    have hne (d : UInt8) (hd : plain d = false) : c ≠ d := ne_of_plain (hw c List.mem_cons_self) hd
    obtain ⟨b, hb⟩ := ih (isspace c) fun d hd => hw d (List.mem_cons_of_mem _ hd)
    refine ⟨b, ?_⟩
    dsimp only at hb
    simp [strip_comment_from, hne 39 rfl, hne 34 rfl, hne 35 rfl, hb]

theorem strip_comment_line (key : Word) (q : Quote) (s : Bytes) :
    strip_comment (quoted_line key q s) = quoted_line key q s := by
  obtain ⟨b, hb⟩ := strip_comment_word key (58 :: 32 :: quoted q s) true
  have hquoted : strip_comment_from false false true (quoted q s) = quoted q s := by
    have hopen := strip_comment_doubled q s false
    unfold quoted
    cases q <;> simp_all [Quote.char, strip_comment_from]
  have hspace : isspace 32 = true := rfl
  rw [strip_comment, quoted_line, hb]
  simp [strip_comment_from, hspace, hquoted]

/-- The first character of a line with a key. -/
theorem line_head (key : Word) (rest : Bytes) : ∃ c t, key.1 ++ 58 :: rest = c :: t ∧ (plain c = true ∨ c = 58) := by
  obtain ⟨w, hw⟩ := key
  cases w with
  | nil => exact ⟨58, rest, rfl, .inr rfl⟩
  | cons c w => exact ⟨c, w ++ 58 :: rest, rfl, .inl (hw c List.mem_cons_self)⟩

theorem read_quoted_line (path : Bytes) (key : Word) (q : Quote) (s : Bytes) :
    read_line path (quoted_line key q s) = .ok (some ⟨0, quoted_line key q s⟩) := by
  have hmem : 58 ∈ quoted_line key q s := by simp [quoted_line]
  have hne (mark : Bytes) (hmark : 58 ∉ mark) : quoted_line key q s ≠ mark := by
    intro h
    exact hmark (h ▸ hmem)
  have hlast : (quoted_line key q s).getLast? = some q.char := by
    have hshape : quoted_line key q s = (key.1 ++ [58, 32]) ++ quoted q s := by simp [quoted_line]
    rw [hshape, List.getLast?_append_of_ne_nil _ (by simp [quoted]), quoted_last]
  have hstrip : strip_comment (List.replicate 0 32 ++ quoted_line key q s) = List.replicate 0 32 ++ quoted_line key q s :=
    strip_comment_line key q s
  refine read_line_text path hstrip (fun c hc => ?_) (fun c hc => ?_)
    ⟨hne _ (by decide), hne _ (by decide), hne _ (by decide)⟩
  · obtain ⟨d, t, ht, hd⟩ := line_head key (32 :: quoted q s)
    rw [quoted_line, ht] at hc
    obtain rfl := Option.some.inj hc
    rcases hd with hd | rfl
    · exact ⟨isspace_of_plain hd, ne_of_plain hd rfl, ne_of_plain hd rfl, ne_of_plain hd rfl⟩
    · decide
  · obtain rfl := Option.some.inj (hlast.symm.trans hc)
    cases q <;> rfl

theorem split_kv_quoted (key : Word) (q : Quote) (s : Bytes) :
    split_kv (quoted_line key q s) = some (key.1, quoted q s) := by
  have hsplit : split_colon false false (key.1 ++ 58 :: 32 :: quoted q s) = some (key.1, 32 :: quoted q s) :=
    split_colon_word key (.inr rfl)
  have htrim : trim (32 :: quoted q s) = quoted q s := by
    have hspace : isspace q.char = false := by cases q <;> rfl
    rw [show 32 :: quoted q s = List.replicate 1 32 ++ quoted q s from rfl, trim_spaces]
    apply trim_id
    · intro c hc
      obtain rfl : q.char = c := Option.some.inj hc
      exact hspace
    · intro c hc
      obtain rfl := Option.some.inj ((quoted_last q s).symm.trans hc)
      exact hspace
  rw [quoted_line, split_kv, hsplit]
  simp only [Option.map_some, trim_word, unquote_word, htrim]

/-- The line, alone in a file, puts this text under the key, whatever the
mapping holds and wherever the parser stands. -/
def Gives (line key value : Bytes) : Prop :=
  ∀ path, ∃ l, read_lines path (some line) = .ok [l] ∧
    ∀ lines fuel n p, parse_kv_into lines (fuel + 1) n l.text p = .ok (assign key (.scalar value) n, p)

theorem quoted_line_gives (key : Word) (q : Quote) {s : Bytes} (hs : 10 ∉ s) :
    Gives (quoted_line key q s) key.1 (collapse_quotes (doubled q s)) := by
  intro path
  refine ⟨⟨0, quoted_line key q s⟩, ?_, fun lines fuel n p => ?_⟩
  · have hone : ∀ c ∈ quoted_line key q s, decide (c = 10) = false := by
      intro c hc
      apply decide_eq_false
      rintro rfl
      have hcases : (10 : UInt8) ∈ key.1 ∨ (10 : UInt8) ∈ doubled q s ∨ (10 : UInt8) = q.char := by
        simp only [quoted_line, quoted, List.mem_append, List.mem_cons, List.not_mem_nil, or_false] at hc
        rcases hc with hc | hc | hc | (hc | hc) | hc
        · exact .inl hc
        · cases hc
        · cases hc
        · exact .inr (.inr hc)
        · exact .inr (.inl hc)
        · exact .inr (.inr hc)
      rcases hcases with hc | hc | hc
      · exact ne_of_plain (key.2 _ hc) (by decide) rfl
      · exact hs (mem_doubled hc)
      · cases q <;> cases hc
    have hget : getlines (quoted_line key q s) = [quoted_line key q s] := by
      have hne : quoted_line key q s ≠ [] := by simp [quoted_line]
      rw [getlines, splitAt_none hone]
      simp [hne]
    rw [read_lines, hget, List.mapM_cons, read_quoted_line]
    rfl
  · have hne : quoted q s ≠ [] := by simp [quoted]
    rw [parse_kv_scalar (split_kv_quoted key q s) hne, unquote_quoted]

/-- A quoted scalar comes back exactly when it has no doubled quote of the other kind. -/
theorem quoted_scalar_iff (key : Word) (q : Quote) (s : Bytes) (hs : 10 ∉ s) :
    Gives (quoted_line key q s) key.1 s ↔ ¬ [q.other.char, q.other.char] <:+: s := by
  rw [← collapse_doubled]
  have hgives := quoted_line_gives key q hs
  constructor
  · intro h
    obtain ⟨l, hread, hkv⟩ := hgives []
    obtain ⟨l', hread', hkv'⟩ := h []
    obtain rfl : l = l' := by simpa using hread.symm.trans hread'
    have hsame := (hkv [] 0 [] ⟨0, []⟩).symm.trans (hkv' [] 0 [] ⟨0, []⟩)
    simpa [assign] using hsame
  · intro h
    rwa [h] at hgives

theorem quoted_scalar_iff_hash :
    Gives (quoted_line (word "k" (by decide)) .single (bytes "a # b: 'c'")) (bytes "k") (bytes "a # b: 'c'") ↔
      ¬ [34, 34] <:+: bytes "a # b: 'c'" :=
  quoted_scalar_iff (word "k" (by decide)) .single (bytes "a # b: 'c'") (by decide)

/-- `k: 'say ""'` gives `say "`. -/
theorem doubled_quotes_lost :
    ¬ ∀ (key : Word) (q : Quote) (s : Bytes), 10 ∉ s → Gives (quoted_line key q s) key.1 s := by
  intro h
  have hgives := h (word "k" (by decide)) .single (bytes "say \"\"") (by decide)
  obtain ⟨l, hread, hkv⟩ := hgives []
  obtain ⟨l', hread', hkv'⟩ := quoted_line_gives (word "k" (by decide)) .single (s := bytes "say \"\"") (by decide) []
  obtain rfl : l = l' := by simpa using hread.symm.trans hread'
  have hsame := (hkv [] 0 [] ⟨0, []⟩).symm.trans (hkv' [] 0 [] ⟨0, []⟩)
  revert hsame
  simp [assign]
  decide

end Hostely.Apps
