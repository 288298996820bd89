import Hostely.Exposure.Reading
/-!
# Two readers of one request

`serve_plain` drops every carriage return and takes lines until one is empty;
`serve_tls` takes all up to CR LF CR LF, reads the first two words of it, and drops
one carriage return at the end of a line. When they read the same request.
-/

open Hostely.Lib

namespace Hostely.Exposure

variable {get_header_value : Headers → Bytes → Bytes}

/-! ## The lines of a head -/

/-- The first line of a head and the lines after it. -/
structure HeadLines where
  first : Bytes
  later : List Bytes
  first_line : 10 ∉ first
  later_lines : ∀ l ∈ later, 10 ∉ l

def HeadLines.text (h : HeadLines) : Bytes := h.first ++ h.later.flatMap (10 :: ·)

/-- The lines of a text. -/
def lines_of (text : Bytes) : HeadLines where
  first := (splitAt (· = 10) text).headD []
  later := (splitAt (· = 10) text).tail
  first_line := by
    obtain ⟨first, later, hs, -⟩ := splitAt_text 10 text
    rw [hs]
    exact fun hm => absurd (mem_splitAt (hs ▸ List.mem_cons_self) 10 hm) (by decide)
  later_lines := by
    intro l hl hm
    exact absurd (mem_splitAt (List.mem_of_mem_tail hl) 10 hm) (by decide)

theorem lines_of_text (text : Bytes) : (lines_of text).text = text := by
  obtain ⟨first, later, hs, htext⟩ := splitAt_text 10 text
  change (splitAt (· = 10) text).headD [] ++ (splitAt (· = 10) text).tail.flatMap (10 :: ·) = text
  rw [hs]
  exact htext

/-- What stands between the first empty line and the body. -/
def hidden : List Bytes → Bytes
  | [] => []
  | l :: later =>
    if visible l then hidden later else ((later.flatMap (10 :: ·) ++ (crlf ++ crlf)).dropWhile (· ≠ 10)).tail

/-- The two words of a request line. -/
def request_words (text : Bytes) : Bytes × Bytes := ((next_word text).1, (next_word (next_word text).2).1)

def after_words (text : Bytes) : Bytes := (next_word (next_word text).2).2

/-! ## What serve_plain reads -/

theorem visible_append_cr (l : Bytes) : visible (l ++ [13]) = visible l := by simp [visible]

theorem header_lines_later {l : Bytes} {later : List Bytes} (hl : 10 ∉ l) (hlater : ∀ x ∈ later, 10 ∉ x) (body : Bytes) :
    header_lines (l ++ (later.flatMap (10 :: ·) ++ (crlf ++ crlf) ++ body)).length
        (l ++ (later.flatMap (10 :: ·) ++ (crlf ++ crlf) ++ body)) =
      (((l :: later).takeWhile visible).map without_cr, hidden (l :: later) ++ body) := by
  induction later generalizing l with
  | nil =>
    have htext : l ++ (([] : List Bytes).flatMap (10 :: ·) ++ (crlf ++ crlf) ++ body) = (l ++ [13]) ++ 10 :: ([13] ++ 10 :: body) := by
      simp [crlf]
    have hlast : 10 ∉ l ++ [13] := by simpa using hl
    have hcr : header_lines ([13] ++ 10 :: body).length ([13] ++ 10 :: body) = ([], body) :=
      header_lines_line (by decide) body
    rw [htext, header_lines_line hlast, hcr, visible_append_cr]
    cases hv : visible l with
    | true => simp [hv, hidden, without_cr]
    | false => simp [hv, hidden, crlf]
  | cons x later ih =>
    obtain ⟨hx, hlater⟩ := List.forall_mem_cons.1 hlater
    have htext : l ++ ((x :: later).flatMap (10 :: ·) ++ (crlf ++ crlf) ++ body) =
        l ++ 10 :: (x ++ (later.flatMap (10 :: ·) ++ (crlf ++ crlf) ++ body)) := by simp
    rw [htext, header_lines_line hl, ih hx hlater]
    cases hv : visible l with
    | true => simp [hv, hidden]
    | false => simp [hv, hidden]

/-- The fields in front of the first empty line. -/
def HeadLines.plain_headers (h : HeadLines) : Headers := ((h.later.takeWhile visible).map without_cr).filterMap field

theorem read_plain_lines (get_header_value : Headers → Bytes → Bytes) (h : HeadLines) (body : Bytes) :
    read_plain get_header_value (h.text ++ (crlf ++ crlf) ++ body) =
      (plain_body get_header_value h.plain_headers (hidden h.later ++ body)).elim .thrown fun b =>
        .request ⟨(request_words (without_cr h.first)).1, (request_words (without_cr h.first)).2, bytes "0.0.0.0",
          h.plain_headers, b⟩ (host_of h.plain_headers) := by
  obtain ⟨first, later, hfirst, hlater⟩ := h
  cases later with
  | nil =>
    have htext : HeadLines.text ⟨first, [], hfirst, hlater⟩ ++ (crlf ++ crlf) ++ body =
        (first ++ [13]) ++ 10 :: ([13] ++ 10 :: body) := by simp [HeadLines.text, crlf]
    have hline : 10 ∉ first ++ [13] := by simpa using hfirst
    have hcr : header_lines ([13] ++ 10 :: body).length ([13] ++ 10 :: body) = ([], body) :=
      header_lines_line (by decide) body
    have hfirst_line : without_cr (first ++ [13]) = without_cr first := by simp [without_cr]
    rw [htext]
    have h := read_plain_eq get_header_value (read_line_eq hline [] _) hcr
    rw [List.nil_append, hfirst_line] at h
    exact h
  | cons l later =>
    obtain ⟨hl, hlater'⟩ := List.forall_mem_cons.1 hlater
    have htext : HeadLines.text ⟨first, l :: later, hfirst, hlater⟩ ++ (crlf ++ crlf) ++ body =
        first ++ 10 :: (l ++ (later.flatMap (10 :: ·) ++ (crlf ++ crlf) ++ body)) := by simp [HeadLines.text]
    rw [htext]
    exact read_plain_eq get_header_value (read_line_eq hfirst [] _) (header_lines_later hl hlater' body)

/-! ## What serve_tls reads -/

theorem mem_drop_cr {line : Bytes} : 58 ∈ drop_cr line ↔ 58 ∈ line := by
  unfold drop_cr
  split
  · rename_i hlast
    obtain ⟨init, rfl⟩ := List.getLast?_eq_some_iff.1 hlast
    simp
  · rfl

theorem mem_without_cr {line : Bytes} : 58 ∈ without_cr line ↔ 58 ∈ line := by simp [without_cr]

theorem without_cr_drop_cr (line : Bytes) : without_cr (drop_cr line) = without_cr line := by
  unfold drop_cr
  split
  · rename_i hlast
    obtain ⟨init, rfl⟩ := List.getLast?_eq_some_iff.1 hlast
    simp [without_cr]
  · rfl

theorem field_eq_none {line : Bytes} : field line = none ↔ 58 ∉ line := by simp [field]

/-- The fields of lines without a colon. -/
theorem fields_nil {lines : List Bytes} (h : ∀ l ∈ lines, 58 ∉ l) : lines.filterMap (fun l => field (drop_cr l)) = [] := by
  rw [List.filterMap_eq_nil_iff]
  exact fun l hl => field_eq_none.2 (mt mem_drop_cr.1 (h l hl))

section
variable {first rest : Bytes}

/-- Two words in the first line: the reading goes on behind them. -/
theorem after_words_append (hrest : ∀ c ∈ rest.head?, isspace c = true) (h : (request_words first).2 ≠ []) :
    after_words (first ++ rest) = after_words first ++ rest := by
  have hfirst : (next_word first).1 ≠ [] := by
    intro hnil
    refine h ?_
    rw [request_words, next_word_rest hnil]
    rfl
  rw [after_words, next_word_append hfirst hrest, next_word_append h hrest]
  rfl

/-- At most one word in all, and that in the first line: no more than spaces follow
it. -/
theorem spaces_after (hrest : ∀ c ∈ rest.head?, isspace c = true)
    (hwords : request_words (without_cr first) = request_words (first ++ rest)) (hnil : (request_words (first ++ rest)).2 = []) :
    ∀ c ∈ rest, isspace c = true := by
  by_cases hfirst : (next_word first).1 = []
  · have hcr : (next_word (without_cr first)).1 = [] :=
      next_word_eq_nil.2 fun c hc => next_word_eq_nil.1 hfirst c (List.mem_of_mem_filter hc)
    have hall : (next_word (first ++ rest)).1 = [] := (congrArg Prod.fst hwords).symm.trans hcr
    exact fun c hc => next_word_eq_nil.1 hall c (List.mem_append_right _ hc)
  · rw [request_words, next_word_append hfirst hrest] at hnil
    exact fun c hc => next_word_eq_nil.1 hnil c (List.mem_append_right _ hc)

end

/-- The fields that `serve_tls` reads when it finds the words where `serve_plain`
does: what is left of the first line is a line to it too. -/
theorem parse_head_fields {h : HeadLines} (hwords : request_words (without_cr h.first) = request_words h.text) :
    (parse_head h.text).2.2 = (after_words h.first :: h.later).filterMap fun l => field (drop_cr l) := by
  have hfields : (parse_head h.text).2.2 = (splitAt (· = 10) (after_words h.text)).filterMap fun l => field (drop_cr l) :=
    filterMap_getlines rfl _
  have hspace : ∀ c ∈ (h.later.flatMap (10 :: ·)).head?, isspace c = true := by
    intro c hc
    cases hlater : h.later with
    | nil => simp [hlater] at hc
    | cons l later =>
      rw [hlater] at hc
      obtain rfl := Option.some.inj hc
      rfl
  have hcr : (without_cr h.first).Sublist h.first := List.filter_sublist
  rw [hfields]
  by_cases hnil : (request_words h.text).2 = []
  · have hafter : after_words h.text = [] := next_word_rest hnil
    have hfirst : after_words h.first = [] := by
      refine next_word_rest (Classical.byContradiction fun hne => ?_)
      exact second_word_sublist (List.sublist_append_left _ _) hne hnil
    have hspaces := spaces_after hspace hwords hnil
    have hcolon : ∀ l ∈ [] :: h.later, 58 ∉ l := by
      refine List.forall_mem_cons.2 ⟨by simp, fun l hl hm => ?_⟩
      have hmem : 58 ∈ h.later.flatMap (10 :: ·) := List.mem_flatMap.2 ⟨l, hl, List.mem_cons_of_mem _ hm⟩
      exact absurd (hspaces 58 hmem) (by decide)
    rw [hafter, hfirst, fields_nil hcolon]
    rfl
  · have hfirst : (request_words h.first).2 ≠ [] := by
      refine second_word_sublist hcr ?_
      rw [← hwords] at hnil
      exact hnil
    have hline : 10 ∉ after_words h.first := by
      intro hm
      refine h.first_line ((List.Sublist.subset ?_) hm)
      exact (List.dropWhile_sublist _).trans ((List.dropWhile_sublist _).trans
        ((List.dropWhile_sublist _).trans (List.dropWhile_sublist _)))
    rw [HeadLines.text, after_words_append hspace hfirst, splitAt_lines hline h.later_lines]

/-! ## The same fields -/

theorem field_cr {line : Bytes} {f : Bytes × Bytes} (h : field line = some f) : 13 ∈ line ↔ 13 ∈ f.1 ∨ 13 ∈ f.2 := by
  unfold field at h
  split at h
  · rename_i hcolon
    obtain rfl := Option.some.inj h
    have hdrop : line.dropWhile (· ≠ 58) = 58 :: (line.dropWhile (· ≠ 58)).tail := by
      cases hd : line.dropWhile (· ≠ 58) with
      | nil => exact absurd (List.dropWhile_eq_nil_iff.1 hd 58 hcolon) (by simp)
      | cons c rest =>
        have hne : line.dropWhile (· ≠ 58) ≠ [] := by
          rw [hd]
          exact List.cons_ne_nil _ _
        have hhead := List.head_dropWhile_not (fun x : UInt8 => decide (x ≠ 58)) hne
        simp only [hd, List.head_cons] at hhead
        have hc : c = 58 := by simpa using hhead
        rw [hc, List.tail_cons]
    have hspaces : 13 ∉ (line.dropWhile (· ≠ 58)).tail.takeWhile (· = 32) := by
      intro hm
      exact absurd (List.mem_takeWhile_imp hm) (by decide)
    have htail : 13 ∈ (line.dropWhile (· ≠ 58)).tail ↔ 13 ∈ (line.dropWhile (· ≠ 58)).tail.dropWhile (· = 32) := by
      conv_lhs => rw [← List.takeWhile_append_dropWhile (p := (· = 32)) (l := (line.dropWhile (· ≠ 58)).tail)]
      rw [List.mem_append, or_iff_right hspaces]
    conv_lhs => rw [← List.takeWhile_append_dropWhile (p := (· ≠ 58)) (l := line)]
    rw [List.mem_append, hdrop, List.mem_cons, htail]
    simp
  · cases h

/-- The fields of some lines are as many as there are lines with a colon. -/
theorem fields_length {clean : Bytes → Bytes} (hclean : ∀ l, 58 ∈ clean l ↔ 58 ∈ l) (lines : List Bytes) :
    (lines.filterMap fun l => field (clean l)).length = lines.countP (58 ∈ ·) := by
  rw [List.length_filterMap_eq_countP]
  refine List.countP_congr fun l _ => ?_
  rw [decide_eq_true_iff, ← hclean, Option.isSome_iff_ne_none, ne_eq, field_eq_none, not_not]

section
variable {rest : Bytes} {later : List Bytes}

/-- Without a colon where `serve_plain` does not look, and without a carriage return
inside a field, the fields are the same. -/
theorem fields_eq (hrest : 58 ∉ rest) (hreturns : ∀ l ∈ later, 58 ∈ l → 13 ∉ drop_cr l)
    (hblank : ∀ l ∈ later.dropWhile visible, 58 ∉ l) :
    ((later.takeWhile visible).map without_cr).filterMap field =
      (rest :: later).filterMap fun l => field (drop_cr l) := by
  have hfirst : field (drop_cr rest) = none := field_eq_none.2 (mt mem_drop_cr.1 hrest)
  have hlater : later.filterMap (fun l => field (drop_cr l)) =
      (later.takeWhile visible).filterMap fun l => field (drop_cr l) := by
    conv_lhs => rw [← List.takeWhile_append_dropWhile (p := visible) (l := later)]
    rw [List.filterMap_append, fields_nil hblank, List.append_nil]
  rw [List.filterMap_cons_none (f := fun l => field (drop_cr l)) hfirst, hlater, List.filterMap_map]
  refine List.filterMap_congr fun l hl => ?_
  have hmem : l ∈ later := (List.takeWhile_sublist visible).subset hl
  by_cases hcolon : 58 ∈ l
  · have hsame : without_cr l = drop_cr l := by
      rw [← without_cr_drop_cr, without_cr]
      refine List.filter_eq_self.2 fun c hc => decide_eq_true ?_
      rintro rfl
      exact hreturns l hmem hcolon hc
    rw [Function.comp_apply, hsame]
  · rw [Function.comp_apply, field_eq_none.2 (mt mem_without_cr.1 hcolon), field_eq_none.2 (mt mem_drop_cr.1 hcolon)]

/-- The same fields in some order: then they are the same in this way. -/
theorem fields_perm (h : (((later.takeWhile visible).map without_cr).filterMap field).Perm
    ((rest :: later).filterMap fun l => field (drop_cr l))) :
    58 ∉ rest ∧ (∀ l ∈ later, 58 ∈ l → 13 ∉ drop_cr l) ∧ ∀ l ∈ later.dropWhile visible, 58 ∉ l := by
  -- both have the fields of the lines before the first empty one; there is room for no more
  have hlen := h.length_eq
  rw [List.filterMap_map] at hlen
  have hsplit : later.countP (58 ∈ ·) = (later.takeWhile visible).countP (58 ∈ ·) + (later.dropWhile visible).countP (58 ∈ ·) := by
    conv_lhs => rw [← List.takeWhile_append_dropWhile (p := visible) (l := later)]
    exact List.countP_append
  have hplain : ((later.takeWhile visible).filterMap (field ∘ without_cr)).length = (later.takeWhile visible).countP (58 ∈ ·) :=
    fields_length (fun _ => mem_without_cr) _
  rw [hplain, fields_length (fun _ => mem_drop_cr), List.countP_cons, hsplit] at hlen
  have hblank : ∀ l ∈ later.dropWhile visible, 58 ∉ l := by
    have hzero : (later.dropWhile visible).countP (58 ∈ ·) = 0 := by omega
    simpa using List.countP_eq_zero.1 hzero
  refine ⟨fun hm => ?_, fun l hl hcolon hcr => ?_, hblank⟩
  · simp only [hm, decide_true, if_true] at hlen
    omega
  · obtain ⟨f, hf⟩ := Option.ne_none_iff_exists'.1 (mt field_eq_none.1 (not_not.2 (mem_drop_cr.2 hcolon)))
    have hmem : f ∈ (rest :: later).filterMap fun l => field (drop_cr l) :=
      List.mem_filterMap.2 ⟨l, List.mem_cons_of_mem _ hl, hf⟩
    obtain ⟨x, hx, hfx⟩ := List.mem_filterMap.1 (h.mem_iff.2 hmem)
    obtain ⟨y, -, rfl⟩ := List.mem_map.1 hx
    have hnone : 13 ∉ without_cr y := by simp [without_cr]
    exact hnone ((field_cr hfx).2 ((field_cr hf).1 hcr))

end

/-! ## The same request -/

/-- Both readings are requests with the same method and path, the same fields in
whatever order, the same host and the same body. -/
def Agree (a b : Reading) : Prop :=
  ∃ req host req' host', a = .request req host ∧ b = .request req' host' ∧ req.method = req'.method ∧ req.path = req'.path ∧
    req.headers.Perm req'.headers ∧ host = host' ∧ req.body = req'.body

/-- The body is as long as the Content-Length says, empty without one. -/
def Exact (v body : Bytes) : Prop :=
  v = [] ∧ body = [] ∨ v ≠ [] ∧ (stoull v).map UInt64.toNat = some body.length

/-- A request in which the listeners see the same. -/
structure Unambiguous (h : HeadLines) (body : Bytes) : Prop where
  /-- The first two words of the head are in its first line, and no carriage return
  is all that ends one of them. -/
  words : request_words (without_cr h.first) = request_words h.text
  /-- No colon behind them in that line. -/
  rest : 58 ∉ after_words h.first
  /-- A later line with a colon has no carriage return but one at its end. -/
  returns : ∀ l ∈ h.later, 58 ∈ l → 13 ∉ drop_cr l
  /-- There is no colon behind an empty line. -/
  blank : ∀ l ∈ h.later.dropWhile visible, 58 ∉ l
  size : body.length < 64 * 1024 * 1024
  /-- What stands behind the first empty line begins with the body, too. -/
  place : body <+: hidden h.later ++ body

theorem bodies_agree {headers : Headers} {front body b : Bytes} {chunks : List Bytes} (hbody : b ++ chunks.flatten = body)
    (hexact : Exact (get_header_value headers (bytes "Content-Length")) body) :
    (∃ x, plain_body get_header_value headers (front ++ body) = some x ∧ tls_body get_header_value headers b chunks = some x) ↔
      body.length < 64 * 1024 * 1024 ∧ body <+: front ++ body := by
  unfold plain_body tls_body
  rcases hexact with ⟨hv, rfl⟩ | ⟨hv, hlength⟩
  · simp [hv]
  · obtain ⟨clen, hclen, hlen⟩ := Option.map_eq_some_iff.1 hlength
    have hfront : body.length ≤ (front ++ body).length := by simp
    simp only [hv, if_false, hclen, Option.map_some, hlen, Option.some.injEq, exists_eq_left']
    by_cases hsize : body.length < 64 * 1024 * 1024
    · have htls : (read_body body.length b chunks).take body.length = body := by
        rw [(read_body_take hbody (Nat.le_refl _)).2 fun i hi => hsize.le.trans hi, List.take_length]
      rw [htls, and_iff_right hsize, List.prefix_iff_eq_take]
      by_cases hpos : 0 < body.length
      · rw [if_pos ⟨hpos, hsize⟩, fread, Nat.sub_eq_zero_of_le hfront, List.replicate_zero, List.append_nil]
      · have hnil : body = [] := List.length_eq_zero_iff.1 (Nat.le_zero.1 (Nat.not_lt.1 hpos))
        simp [hnil]
    · rw [if_neg fun h => hsize h.2]
      refine iff_of_false (fun hnil => ?_) fun h => hsize h.1
      have hlen := congrArg List.length hnil
      have henough := read_body_enough hbody (Nat.le_refl _)
      rw [List.length_take] at hlen
      simp only [List.length_nil] at hlen
      omega

section
variable {h : TlsHead} {body : Bytes} {chunks : List Bytes}

theorem read_alike (hexact : Exact (get_header_value h.headers (bytes "Content-Length")) body)
    (hstream : chunks.flatten = h.text ++ (crlf ++ crlf) ++ body) (htime : h.InTime chunks)
    (hu : Unambiguous (lines_of h.text) body) :
    ∃ req host, read_plain get_header_value (h.text ++ (crlf ++ crlf) ++ body) = .request req host ∧
      read_tls get_header_value chunks = .request req host := by
  obtain ⟨k, b, -, hbody, -, htls⟩ := read_tls_text get_header_value h hstream htime
  have hplain := read_plain_lines get_header_value (lines_of h.text) body
  have hheaders : (lines_of h.text).plain_headers = h.headers := by
    have hfields := parse_head_fields hu.words
    rw [lines_of_text] at hfields
    exact (fields_eq hu.rest hu.returns hu.blank).trans hfields.symm
  have hwords := hu.words
  rw [lines_of_text] at hplain hwords
  obtain ⟨x, hx, hy⟩ := (bodies_agree hbody hexact).2 ⟨hu.size, hu.place⟩
  rw [hheaders, hx, hwords] at hplain
  rw [hy] at htls
  exact ⟨_, _, hplain, htls⟩

theorem unambiguous_of_agree (hexact : Exact (get_header_value h.headers (bytes "Content-Length")) body)
    (hstream : chunks.flatten = h.text ++ (crlf ++ crlf) ++ body) (htime : h.InTime chunks)
    (hagree : Agree (read_plain get_header_value (h.text ++ (crlf ++ crlf) ++ body)) (read_tls get_header_value chunks)) :
    Unambiguous (lines_of h.text) body := by
  obtain ⟨k, b, -, hbody, -, htls⟩ := read_tls_text get_header_value h hstream htime
  have hplain := read_plain_lines get_header_value (lines_of h.text) body
  have hfields := parse_head_fields (h := lines_of h.text)
  rw [lines_of_text] at hplain hfields
  obtain ⟨req, host, req', host', hreq, hreq', hmethod, hpath, hperm, -, hbodies⟩ := hagree
  rw [hplain] at hreq
  rw [htls] at hreq'
  cases hx : plain_body get_header_value (lines_of h.text).plain_headers (hidden (lines_of h.text).later ++ body) with
  | none =>
    rw [hx] at hreq
    cases hreq
  | some x =>
    cases hy : tls_body get_header_value h.headers b (chunks.drop k) with
    | none =>
      rw [hy] at hreq'
      cases hreq'
    | some y =>
      rw [hx] at hreq
      rw [hy] at hreq'
      obtain ⟨rfl, -⟩ := Reading.request.inj hreq
      obtain ⟨rfl, -⟩ := Reading.request.inj hreq'
      have hwords : request_words (without_cr (lines_of h.text).first) = request_words h.text := Prod.ext hmethod hpath
      have hheaders : h.headers = _ := hfields hwords
      obtain rfl : x = y := hbodies
      obtain ⟨hrest, hreturns, hblank⟩ := fields_perm (hheaders ▸ hperm)
      have heq : (lines_of h.text).plain_headers = h.headers := (fields_eq hrest hreturns hblank).trans hheaders.symm
      rw [heq] at hx
      obtain ⟨hlen, hplace⟩ := (bodies_agree hbody hexact).1 ⟨x, hx, hy⟩
      exact ⟨by rw [lines_of_text]; exact hwords, hrest, hreturns, hblank, hlen, hplace⟩

end

/-- For every head of at most 128 KiB, its body, and every way the bytes come in
blocks: the listeners understand the request in the same way exactly if it is
unambiguous, and then they do the same. -/
theorem listeners_agree_iff (get_header_value : Headers → Bytes → Bytes) (h : TlsHead) (hsize : h.text.length + 4 ≤ 128 * 1024)
    {body : Bytes} (hexact : Exact (get_header_value h.headers (bytes "Content-Length")) body) {chunks : List Bytes}
    (hstream : chunks.flatten = h.text ++ (crlf ++ crlf) ++ body) :
    (Agree (read_plain get_header_value (h.text ++ (crlf ++ crlf) ++ body)) (read_tls get_header_value chunks) ↔
      Unambiguous (lines_of h.text) body) ∧
    (Unambiguous (lines_of h.text) body → ∀ routes nets,
      serve_plain get_header_value routes nets (h.text ++ (crlf ++ crlf) ++ body) =
        serve_tls get_header_value routes nets chunks) := by
  have htime : h.InTime chunks := fun k hk => hsize.trans hk.le
  refine ⟨⟨unambiguous_of_agree hexact hstream htime, fun hu => ?_⟩, fun hu routes nets => ?_⟩
  · obtain ⟨req, host, hplain, htls⟩ := read_alike hexact hstream htime hu
    exact ⟨req, host, req, host, hplain, htls, rfl, rfl, .refl _, rfl, rfl⟩
  · obtain ⟨req, host, hplain, htls⟩ := read_alike hexact hstream htime hu
    rw [serve_plain, serve_tls, hplain, htls]

/-- A request as clients send it. -/
def toyGet : TlsHead where
  text := bytes "GET / HTTP/1.1\r\nHost: shop.io"
  ends := by decide +kernel

theorem listeners_agree_shop :
    Agree (read_plain only_value (toyGet.text ++ (crlf ++ crlf) ++ [])) (read_tls only_value [toyGet.text ++ (crlf ++ crlf)]) := by
  have hexact : Exact (only_value toyGet.headers (bytes "Content-Length")) [] := .inl ⟨by decide +kernel, rfl⟩
  refine (listeners_agree_iff only_value toyGet (by decide +kernel) hexact (by decide +kernel)).1.2 ?_
  constructor <;> decide +kernel

/-- A Host field behind a line that is empty without CR. -/
def toyHidden : TlsHead where
  text := bytes "GET / HTTP/1.1\r\n\nHost: shop.io"
  ends := by decide +kernel

/-- The plain listener sees no host, the TLS listener calls the container. -/
theorem hidden_host_differs :
    let stream := toyHidden.text ++ (crlf ++ crlf)
    ¬ Agree (read_plain only_value stream) (read_tls only_value [stream]) ∧
      serve_plain only_value toyRoutes toyNets stream =
        .responded 404 (bytes "hostely proxy: no route for host ''") ∧
      serve_tls only_value toyRoutes toyNets [stream] =
        .upstream ⟨bytes "192.168.64.3", 80, bytes "GET", bytes "/", [
          (bytes "X-Forwarded-For", bytes "0.0.0.0"),
          (bytes "X-Forwarded-Proto", bytes "https"),
          (bytes "X-Forwarded-Host", bytes "shop.io")], none⟩ := by
  have hexact : Exact (only_value toyHidden.headers (bytes "Content-Length")) [] := .inl ⟨by decide +kernel, rfl⟩
  have hall : [toyHidden.text ++ (crlf ++ crlf)].flatten.length ≤ 128 * 1024 := by decide +kernel
  have htime : toyHidden.InTime [toyHidden.text ++ (crlf ++ crlf)] :=
    fun k hk => absurd hk (Nat.not_lt.2 ((received_length_le _ k).trans hall))
  refine ⟨fun hagree => ?_, by decide +kernel, by decide +kernel⟩
  have hu : Unambiguous (lines_of toyHidden.text) [] :=
    unambiguous_of_agree hexact (by decide +kernel) htime (by rw [List.append_nil]; exact hagree)
  exact absurd hu.blank (by decide +kernel)

end Hostely.Exposure
