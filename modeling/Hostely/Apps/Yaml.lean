import Hostely.Lib.Fallible
import Hostely.Lib.SortedMap
import Hostely.Lib.Text
/-!
# The YAML subset of compose files

`read_lines` cuts a file into lines with their indentation; `Parser` reads
block mappings and sequences from them with one cursor that its functions
share. Beside the cursor stands a record of the lines whose text was parsed,
which the source does not keep.
-/

open Hostely.Lib

namespace Hostely.Apps

inductive Node where
  | scalar (text : Bytes)
  | map (entries : List (Bytes × Node))
  | seq (items : List Node)

/-! ## Text -/

/-- `in_s` and `in_d` say which quotes are open, `after_space` whether a comment
may start here. -/
def strip_comment_from (in_s in_d after_space : Bool) : Bytes → Bytes
  | [] => []
  | c :: text =>
    if c = 39 ∧ !in_d then c :: strip_comment_from (!in_s) in_d false text
    else if c = 34 ∧ !in_s then c :: strip_comment_from in_s (!in_d) false text
    else if c = 35 ∧ !in_s ∧ !in_d ∧ after_space then []
    else c :: strip_comment_from in_s in_d (isspace c) text

def strip_comment (s : Bytes) : Bytes := strip_comment_from false false true s

def trim (s : Bytes) : Bytes := ((s.dropWhile isspace).reverse.dropWhile isspace).reverse

/-- Doubled quotes become one. -/
def collapse_quotes : Bytes → Bytes
  | a :: b :: text =>
    if a = b ∧ (a = 39 ∨ a = 34) then a :: collapse_quotes text else a :: collapse_quotes (b :: text)
  | text => text

def unquote (s : Bytes) : Bytes :=
  if 2 ≤ s.length ∧ (s.head? = some 34 ∧ s.getLast? = some 34 ∨ s.head? = some 39 ∧ s.getLast? = some 39) then
    collapse_quotes s.tail.dropLast
  else s

/-! ## Lines -/

structure Line where
  indent : Nat
  text : Bytes
deriving DecidableEq, Repr

/-- One round of the loop of `read_lines`; a line without content is skipped. -/
def read_line (path raw : Bytes) : Except Bytes (Option Line) :=
  let s := trim (strip_comment raw)
  if s = [] then .ok none
  else if s = bytes "---" ∨ s = bytes "..." then .ok none
  else if (bytes "&").isPrefixOf s ∨ (bytes "*").isPrefixOf s ∨ (bytes "<<:").isPrefixOf s then
    .error (bytes "unsupported YAML feature (anchors/aliases) in " ++ path)
  else
    let indent := (raw.takeWhile (· = 32)).length
    if 9 ∈ raw ∧ raw.idxOf 9 < indent then .error (bytes "tabs are not valid YAML indentation in " ++ path)
    else .ok (some ⟨indent, s⟩)

/-- `file` is the content of the file, if it opens. -/
def read_lines (path : Bytes) (file : Option Bytes) : Except Bytes (List Line) :=
  match file with
  | none => .error (bytes "cannot open " ++ path)
  | some text => do return (← (getlines text).mapM (read_line path)).filterMap id

/-! ## Parser -/

/-- The cursor, and the numbers of the lines whose text was parsed. -/
structure Parser where
  pos : Nat
  parsed : List Nat
deriving DecidableEq, Repr

/-- The text of the current line is taken and the cursor moves on. -/
def Parser.take (p : Parser) : Parser := ⟨p.pos + 1, p.parsed ++ [p.pos]⟩

/-- The text of the current line is taken, the cursor stays. -/
def Parser.look (p : Parser) : Parser := { p with parsed := p.parsed ++ [p.pos] }

/-- `++pos` -/
def Parser.skip (p : Parser) : Parser := { p with pos := p.pos + 1 }

inductive ParseError where
  | cannot_parse (text : Bytes)
  /-- The fuel of the recursion ran out, which never happens. -/
  | fuel
deriving DecidableEq, Repr

def ParseError.message : ParseError → Bytes
  | cannot_parse text => bytes "cannot parse YAML line: " ++ text
  | fuel => []

abbrev Entries := List (Bytes × Node)

def starts_dash (text : Bytes) : Bool := (bytes "- ").isPrefixOf text

def is_dash (text : Bytes) : Bool := starts_dash text || text = bytes "-"

/-- `find(": ") != npos` or a colon at the end. -/
def looks_like_kv (text : Bytes) : Bool := (findSub? (bytes ": ") text).isSome || text.getLast? = some 58

/-- The text before and after the first colon outside quotes that a space or
the end follows. -/
def split_colon (in_s in_d : Bool) : Bytes → Option (Bytes × Bytes)
  | [] => none
  | c :: text =>
    if c = 58 ∧ !in_s ∧ !in_d ∧ (text = [] ∨ text.head? = some 32) then some ([], text)
    else
      let in_s' := if c = 39 ∧ !in_d then !in_s else in_s
      let in_d' := if c = 34 ∧ !in_s then !in_d else in_d
      (split_colon in_s' in_d' text).map fun (before, after) => (c :: before, after)

/-- The key and the value of a line. -/
def split_kv (text : Bytes) : Option (Bytes × Bytes) :=
  (split_colon false false text).map fun (before, after) => (unquote (trim before), trim after)

/-- A line that a key without a value takes for the start of its block. -/
def starts_child (l : Line) : Bool := 0 < l.indent && (is_dash l.text || looks_like_kv l.text)

/-- What follows the dash. -/
def dash_rest (text : Bytes) : Bytes := if text = bytes "-" then [] else text.drop 2

/-- `- key: value` -/
def inline_kv (rest : Bytes) : Bool :=
  (findSub? (bytes ": ") rest).isSome || (1 < rest.length && rest.getLast? = some 58)

section
variable (lines : List Line)

mutual

def parse_block : Nat → Nat → Parser → Except ParseError (Node × Parser)
  | 0, _, _ => .error .fuel
  | fuel + 1, indent, p =>
    match lines[p.pos]? with
    | none => .ok (.scalar [], p)
    | some l => if is_dash l.text then parse_seq fuel indent [] p else parse_map fuel indent [] p

/-- The loop of `parse_seq`, with the items so far. -/
def parse_seq : Nat → Nat → List Node → Parser → Except ParseError (Node × Parser)
  | 0, _, _, _ => .error .fuel
  | fuel + 1, indent, items, p =>
    match lines[p.pos]? with
    | none => .ok (.seq items, p)
    | some l =>
      if l.indent = indent ∧ is_dash l.text then do
        let (item, p) ← parse_item fuel indent (dash_rest l.text) p.take
        parse_seq fuel indent (items ++ [item]) p
      else .ok (.seq items, p)

/-- One item, from what follows its dash. -/
def parse_item : Nat → Nat → Bytes → Parser → Except ParseError (Node × Parser)
  | 0, _, _, _ => .error .fuel
  | fuel + 1, indent, rest, p =>
    if rest = [] then
      match lines[p.pos]? with
      | none => .ok (.scalar [], p)
      | some l => if indent < l.indent then parse_block fuel l.indent p else .ok (.scalar [], p)
    else if inline_kv rest then do
      let (item, p) ← parse_kv_into fuel [] rest p
      parse_siblings fuel (indent + 2) item p
    else .ok (.scalar (unquote (trim rest)), p)

/-- The further keys of an inline map item. The cursor is on the line while its
text is parsed, and moves on after it. -/
def parse_siblings : Nat → Nat → Entries → Parser → Except ParseError (Node × Parser)
  | 0, _, _, _ => .error .fuel
  | fuel + 1, indent, item, p =>
    match lines[p.pos]? with
    | none => .ok (.map item, p)
    | some l =>
      if l.indent = indent ∧ !starts_dash l.text then do
        let (item, p) ← parse_kv_into fuel item l.text p.look
        parse_siblings fuel indent item p.skip
      else .ok (.map item, p)

def parse_kv_into : Nat → Entries → Bytes → Parser → Except ParseError (Entries × Parser)
  | 0, _, _, _ => .error .fuel
  | fuel + 1, n, text, p =>
    match split_kv text with
    | none => .error (.cannot_parse text)
    | some (key, val) =>
      if val = [] then
        match lines[p.pos]? with
        | none => .ok (assign key (.scalar []) n, p)
        | some l =>
          -- the branch after this one asks for less of what this one asks for
          if starts_child l then do
            let (child, p) ← if is_dash l.text then parse_seq fuel l.indent [] p else parse_map fuel l.indent [] p
            return (assign key child n, p)
          else .ok (assign key (.scalar []) n, p)
      else .ok (assign key (.scalar (unquote val)) n, p)

/-- The loop of `parse_map`, with the entries so far. -/
def parse_map : Nat → Nat → Entries → Parser → Except ParseError (Node × Parser)
  | 0, _, _, _ => .error .fuel
  | fuel + 1, indent, n, p =>
    match lines[p.pos]? with
    | none => .ok (.map n, p)
    | some l =>
      if l.indent = indent ∧ !is_dash l.text then do
        let (n, p) ← parse_kv_into fuel n l.text p.take
        parse_map fuel indent n p
      else .ok (.map n, p)

end

/-- `p.parse_map(lines.front().indent)` on a new parser. -/
def parse_root : Except ParseError (Node × Parser) :=
  parse_map lines (8 * lines.length + 8) ((lines.head?.map Line.indent).getD 0) [] ⟨0, []⟩

/-- A colon that splits a line makes it look like a key and a value. -/
theorem looks_like_kv_of_split {text : Bytes} {in_s in_d : Bool} {kv : Bytes × Bytes}
    (h : split_colon in_s in_d text = some kv) : looks_like_kv text = true := by
  unfold looks_like_kv
  rw [Bool.or_eq_true, findSub?_isSome, decide_eq_true_eq]
  induction text generalizing in_s in_d kv with
  | nil => cases h
  | cons c text ih =>
    unfold split_colon at h
    split at h
    · rename_i hc
      rcases hc.2.2.2 with rfl | hnext
      · exact .inr (by simp [hc.1])
      · obtain ⟨rest, rfl⟩ : ∃ rest, text = 32 :: rest := by
          cases text with
          | nil => cases hnext
          | cons d rest => exact ⟨rest, by simpa using hnext⟩
        exact .inl ⟨[], rest, by rw [hc.1]; rfl⟩
    · obtain ⟨kv', hkv', -⟩ := Option.map_eq_some_iff.1 h
      rcases ih hkv' with hinfix | hlast
      · exact .inl (List.infix_cons hinfix)
      · refine .inr ?_
        cases text with
        | nil => cases hlast
        | cons d rest => rw [List.getLast?_cons_cons]; exact hlast

/-! ## What the functions do -/

variable {lines}

/-- A function goes on with the next line when that meets a condition, and stops
where it is otherwise. -/
theorem next_line_ok {α : Type} {next : Option Line} {c : Line → Prop} [DecidablePred c] {go : Line → Except ParseError α}
    {stop r : α}
    (h : (match next with
      | none => Except.ok stop
      | some l => if c l then go l else .ok stop) = .ok r) :
    (r = stop ∧ ∀ l, next = some l → ¬ c l) ∨ ∃ l, next = some l ∧ c l ∧ go l = .ok r := by
  cases next with
  | none => exact .inl ⟨(Except.ok.inj h).symm, fun l hl => by cases hl⟩
  | some l =>
    by_cases hc : c l
    · exact .inr ⟨l, rfl, hc, (if_pos hc).symm.trans h⟩
    · refine .inl ⟨(Except.ok.inj ((if_neg hc).symm.trans h)).symm, fun l' hl' => ?_⟩
      obtain rfl := Option.some.inj hl'
      exact hc

/-- `parse_map` stops, or takes a line. -/
theorem parse_map_ok {fuel indent : Nat} {n : Entries} {p p' : Parser} {r : Node}
    (h : parse_map lines (fuel + 1) indent n p = .ok (r, p')) :
    (r = .map n ∧ p' = p ∧ ∀ l, lines[p.pos]? = some l → ¬ (l.indent = indent ∧ is_dash l.text = false)) ∨
    ∃ l n₁ p₁, lines[p.pos]? = some l ∧ l.indent = indent ∧ is_dash l.text = false ∧
      parse_kv_into lines fuel n l.text p.take = .ok (n₁, p₁) ∧ parse_map lines fuel indent n₁ p₁ = .ok (r, p') := by
  unfold parse_map at h
  rcases next_line_ok h with ⟨hr, hstop⟩ | ⟨l, hl, hc, hgo⟩
  · obtain ⟨rfl, rfl⟩ := Prod.mk.inj hr
    exact .inl ⟨rfl, rfl, fun l hl => by simpa using hstop l hl⟩
  · obtain ⟨⟨n₁, p₁⟩, hkv, hmap⟩ := bind_eq_ok hgo
    exact .inr ⟨l, n₁, p₁, hl, hc.1, by simpa using hc.2, hkv, hmap⟩

/-- `parse_seq` stops, or takes a dash line. -/
theorem parse_seq_ok {fuel indent : Nat} {items : List Node} {p p' : Parser} {r : Node}
    (h : parse_seq lines (fuel + 1) indent items p = .ok (r, p')) :
    (r = .seq items ∧ p' = p ∧ ∀ l, lines[p.pos]? = some l → ¬ (l.indent = indent ∧ is_dash l.text = true)) ∨
    ∃ l item p₁, lines[p.pos]? = some l ∧ l.indent = indent ∧ is_dash l.text = true ∧
      parse_item lines fuel indent (dash_rest l.text) p.take = .ok (item, p₁) ∧
      parse_seq lines fuel indent (items ++ [item]) p₁ = .ok (r, p') := by
  unfold parse_seq at h
  rcases next_line_ok h with ⟨hr, hstop⟩ | ⟨l, hl, hc, hgo⟩
  · obtain ⟨rfl, rfl⟩ := Prod.mk.inj hr
    exact .inl ⟨rfl, rfl, hstop⟩
  · obtain ⟨⟨item, p₁⟩, hitem, hseq⟩ := bind_eq_ok hgo
    exact .inr ⟨l, item, p₁, hl, hc.1, hc.2, hitem, hseq⟩

/-- `parse_siblings` stops, or parses a line and moves on after it. -/
theorem parse_siblings_ok {fuel indent : Nat} {item : Entries} {p p' : Parser} {r : Node}
    (h : parse_siblings lines (fuel + 1) indent item p = .ok (r, p')) :
    (p' = p ∧ ∀ l, lines[p.pos]? = some l → ¬ (l.indent = indent ∧ starts_dash l.text = false)) ∨
    ∃ l item₁ p₁, lines[p.pos]? = some l ∧ l.indent = indent ∧ starts_dash l.text = false ∧
      parse_kv_into lines fuel item l.text p.look = .ok (item₁, p₁) ∧
      parse_siblings lines fuel indent item₁ p₁.skip = .ok (r, p') := by
  unfold parse_siblings at h
  rcases next_line_ok h with ⟨hr, hstop⟩ | ⟨l, hl, hc, hgo⟩
  · obtain ⟨rfl, rfl⟩ := Prod.mk.inj hr
    exact .inl ⟨rfl, fun l hl => by simpa using hstop l hl⟩
  · obtain ⟨⟨item₁, p₁⟩, hkv, hsib⟩ := bind_eq_ok hgo
    exact .inr ⟨l, item₁, p₁, hl, hc.1, by simpa using hc.2, hkv, hsib⟩

/-- An item is a block under the dash, a mapping that starts behind it, or a
scalar. -/
theorem parse_item_ok {fuel indent : Nat} {rest : Bytes} {p p' : Parser} {r : Node}
    (h : parse_item lines (fuel + 1) indent rest p = .ok (r, p')) :
    (rest = [] ∧ ∃ l, lines[p.pos]? = some l ∧ indent < l.indent ∧ parse_block lines fuel l.indent p = .ok (r, p')) ∨
    (rest = [] ∧ p' = p ∧ ∀ l, lines[p.pos]? = some l → ¬ indent < l.indent) ∨
    (rest ≠ [] ∧ inline_kv rest = true ∧ ∃ item p₁, parse_kv_into lines fuel [] rest p = .ok (item, p₁) ∧
      parse_siblings lines fuel (indent + 2) item p₁ = .ok (r, p')) ∨
    (rest ≠ [] ∧ inline_kv rest = false ∧ p' = p) := by
  unfold parse_item at h
  by_cases hrest : rest = []
  · rw [if_pos hrest] at h
    rcases next_line_ok h with ⟨hr, hstop⟩ | ⟨l, hl, hc, hgo⟩
    · exact .inr (.inl ⟨hrest, (Prod.mk.inj hr).2, hstop⟩)
    · exact .inl ⟨hrest, l, hl, hc, hgo⟩
  · rw [if_neg hrest] at h
    split at h
    · obtain ⟨⟨item, p₁⟩, hkv, hsib⟩ := bind_eq_ok h
      exact .inr (.inr (.inl ⟨hrest, ‹_›, item, p₁, hkv, hsib⟩))
    · rename_i hc
      obtain ⟨rfl, rfl⟩ := Prod.mk.inj (Except.ok.inj h)
      exact .inr (.inr (.inr ⟨hrest, by simpa using hc, rfl⟩))

/-- A key has a value on its line, a block that the current line starts, or
nothing. -/
theorem parse_kv_into_ok {fuel : Nat} {n n' : Entries} {text : Bytes} {p p' : Parser}
    (h : parse_kv_into lines (fuel + 1) n text p = .ok (n', p')) :
    ∃ key val, split_kv text = some (key, val) ∧
      ((val ≠ [] ∧ n' = assign key (.scalar (unquote val)) n ∧ p' = p) ∨
        (val = [] ∧ n' = assign key (.scalar []) n ∧ p' = p ∧ ∀ l, lines[p.pos]? = some l → starts_child l = false) ∨
        (val = [] ∧ ∃ l child, n' = assign key child n ∧ lines[p.pos]? = some l ∧ starts_child l = true ∧
          ((is_dash l.text = true ∧ parse_seq lines fuel l.indent [] p = .ok (child, p')) ∨
            (is_dash l.text = false ∧ parse_map lines fuel l.indent [] p = .ok (child, p'))))) := by
  unfold parse_kv_into at h
  cases hkv : split_kv text with
  | none =>
    simp only [hkv] at h
    cases h
  | some kv =>
    obtain ⟨key, val⟩ := kv
    simp only [hkv] at h
    refine ⟨key, val, rfl, ?_⟩
    by_cases hval : val = []
    · rw [if_pos hval] at h
      rcases next_line_ok h with ⟨hr, hstop⟩ | ⟨l, hl, hc, hgo⟩
      · obtain ⟨rfl, rfl⟩ := Prod.mk.inj hr
        exact .inr (.inl ⟨hval, rfl, rfl, fun l hl => by simpa using hstop l hl⟩)
      · cases hd : is_dash l.text with
        | true =>
          rw [if_pos hd] at hgo
          obtain ⟨⟨child, p₁⟩, hchild, hret⟩ := bind_eq_ok hgo
          obtain ⟨rfl, rfl⟩ := Prod.mk.inj (Except.ok.inj hret)
          exact .inr (.inr ⟨hval, l, child, rfl, hl, hc, .inl ⟨hd, hchild⟩⟩)
        | false =>
          rw [if_neg (by simp [hd])] at hgo
          obtain ⟨⟨child, p₁⟩, hchild, hret⟩ := bind_eq_ok hgo
          obtain ⟨rfl, rfl⟩ := Prod.mk.inj (Except.ok.inj hret)
          exact .inr (.inr ⟨hval, l, child, rfl, hl, hc, .inr ⟨hd, hchild⟩⟩)
    · rw [if_neg hval] at h
      obtain ⟨rfl, rfl⟩ := Prod.mk.inj (Except.ok.inj h)
      exact .inl ⟨hval, rfl, rfl⟩

/-- A block starts with the current line, or there is none. -/
theorem parse_block_ok {fuel indent : Nat} {p p' : Parser} {r : Node}
    (h : parse_block lines (fuel + 1) indent p = .ok (r, p')) :
    (lines[p.pos]? = none ∧ p' = p) ∨
    ∃ l, lines[p.pos]? = some l ∧
      ((is_dash l.text = true ∧ parse_seq lines fuel indent [] p = .ok (r, p')) ∨
        (is_dash l.text = false ∧ parse_map lines fuel indent [] p = .ok (r, p'))) := by
  unfold parse_block at h
  cases hl : lines[p.pos]? with
  | none =>
    simp only [hl] at h
    obtain ⟨rfl, rfl⟩ := Prod.mk.inj (Except.ok.inj h)
    exact .inl ⟨rfl, rfl⟩
  | some l =>
    simp only [hl] at h
    refine .inr ⟨l, rfl, ?_⟩
    cases hd : is_dash l.text with
    | true => exact .inl ⟨rfl, by simpa [hd] using h⟩
    | false => exact .inr ⟨rfl, by simpa [hd] using h⟩

/-! ## The cursor -/

/-- The functions, with this fuel, go from a parser to one in relation to it. -/
structure Between (lines : List Line) (R : Parser → Parser → Prop) (fuel : Nat) : Prop where
  block : ∀ {indent p r p'}, parse_block lines fuel indent p = .ok (r, p') → R p p'
  seq : ∀ {indent items p r p'}, parse_seq lines fuel indent items p = .ok (r, p') → R p p'
  item : ∀ {indent rest p r p'}, parse_item lines fuel indent rest p = .ok (r, p') → R p p'
  siblings : ∀ {indent item p r p'}, parse_siblings lines fuel indent item p = .ok (r, p') → R p p'
  kv : ∀ {n text p n' p'}, parse_kv_into lines fuel n text p = .ok (n', p') → R p p'
  map : ∀ {indent n p r p'}, parse_map lines fuel indent n p = .ok (r, p') → R p p'

/-- What the three ways to move the cursor keep, the parser keeps. -/
theorem parse_between {R : Parser → Parser → Prop} (hrefl : ∀ p, R p p) (htrans : ∀ p q r, R p q → R q r → R p r)
    (htake : ∀ p, R p p.take) (hlook : ∀ p, R p p.look) (hskip : ∀ p, R p p.skip) (fuel : Nat) :
    Between lines R fuel := by
  induction fuel with
  | zero =>
    constructor
    · intro _ _ _ _ h
      simp [parse_block] at h
    · intro _ _ _ _ _ h
      simp [parse_seq] at h
    · intro _ _ _ _ _ h
      simp [parse_item] at h
    · intro _ _ _ _ _ h
      simp [parse_siblings] at h
    · intro _ _ _ _ _ h
      simp [parse_kv_into] at h
    · intro _ _ _ _ _ h
      simp [parse_map] at h
  | succ fuel ih =>
    constructor
    case block =>
      intro indent p r p' h
      rcases parse_block_ok h with ⟨_, rfl⟩ | ⟨l, _, ⟨_, h⟩ | ⟨_, h⟩⟩
      · exact hrefl _
      · exact ih.seq h
      · exact ih.map h
    case seq =>
      intro indent items p r p' h
      rcases parse_seq_ok h with ⟨_, rfl, _⟩ | ⟨l, item, p₁, _, _, _, hitem, hseq⟩
      · exact hrefl _
      · exact htrans _ _ _ (htake p) (htrans _ _ _ (ih.item hitem) (ih.seq hseq))
    case item =>
      intro indent rest p r p' h
      rcases parse_item_ok h with ⟨_, l, _, _, h⟩ | ⟨_, rfl, _⟩ | ⟨_, _, item, p₁, hkv, hsib⟩ | ⟨_, _, rfl⟩
      · exact ih.block h
      · exact hrefl _
      · exact htrans _ _ _ (ih.kv hkv) (ih.siblings hsib)
      · exact hrefl _
    case siblings =>
      intro indent item p r p' h
      rcases parse_siblings_ok h with ⟨rfl, _⟩ | ⟨l, item₁, p₁, _, _, _, hkv, hsib⟩
      · exact hrefl _
      · -- the one loop that moves on only after the pair is parsed
        exact htrans _ _ _ (hlook p) (htrans _ _ _ (ih.kv hkv) (htrans _ _ _ (hskip p₁) (ih.siblings hsib)))
    case kv =>
      intro n text p n' p' h
      obtain ⟨key, val, _, ⟨_, _, rfl⟩ | ⟨_, _, rfl, _⟩ | ⟨_, l, child, _, _, _, ⟨_, h⟩ | ⟨_, h⟩⟩⟩ := parse_kv_into_ok h
      · exact hrefl _
      · exact hrefl _
      · exact ih.seq h
      · exact ih.map h
    case map =>
      intro indent n p r p' h
      rcases parse_map_ok h with ⟨_, rfl, _⟩ | ⟨l, n₁, p₁, _, _, _, hkv, hmap⟩
      · exact hrefl _
      · exact htrans _ _ _ (htake p) (htrans _ _ _ (ih.kv hkv) (ih.map hmap))

/-- The cursor never goes back, and what was parsed stays parsed. -/
structure Later (p p' : Parser) : Prop where
  pos : p.pos ≤ p'.pos
  parsed : p.parsed <+: p'.parsed

theorem parse_later (fuel : Nat) : Between lines Later fuel := by
  refine parse_between (fun p => ⟨le_rfl, List.prefix_rfl⟩) (fun p q r h₁ h₂ => ?_) (fun p => ?_) (fun p => ?_) (fun p => ?_) fuel
  · exact ⟨h₁.pos.trans h₂.pos, h₁.parsed.trans h₂.parsed⟩
  · exact ⟨Nat.le_succ _, List.prefix_append _ _⟩
  · exact ⟨le_rfl, List.prefix_append _ _⟩
  · exact ⟨Nat.le_succ _, List.prefix_rfl⟩

/-! ## The recursion ends -/

/-- How many lines are before the cursor's end. -/
def Parser.left (lines : List Line) (p : Parser) : Nat := lines.length - p.pos

theorem Parser.take_left {p : Parser} {l : Line} (h : lines[p.pos]? = some l) :
    p.take.left lines + 1 = p.left lines := by
  have := (List.getElem?_eq_some_iff.1 h).1
  simp only [Parser.left, Parser.take]
  omega

theorem Later.left {p p' : Parser} (h : Later p p') (lines : List Line) : p'.left lines ≤ p.left lines := by
  have := h.pos
  simp only [Parser.left]
  omega

/-- The fuel that is enough for each function. A line taken from the cursor pays
for the calls on the way to the next one. -/
structure Enough (lines : List Line) (fuel : Nat) : Prop where
  block : ∀ {indent p}, 8 * p.left lines + 2 ≤ fuel → parse_block lines fuel indent p ≠ .error .fuel
  seq : ∀ {indent items p}, 8 * p.left lines + 1 ≤ fuel → parse_seq lines fuel indent items p ≠ .error .fuel
  item : ∀ {indent rest p}, 8 * p.left lines + 4 ≤ fuel → parse_item lines fuel indent rest p ≠ .error .fuel
  siblings : ∀ {indent item p}, 8 * p.left lines + 3 ≤ fuel → parse_siblings lines fuel indent item p ≠ .error .fuel
  kv : ∀ {n text p}, 8 * p.left lines + 2 ≤ fuel → parse_kv_into lines fuel n text p ≠ .error .fuel
  map : ∀ {indent n p}, 8 * p.left lines + 1 ≤ fuel → parse_map lines fuel indent n p ≠ .error .fuel

theorem parse_enough (fuel : Nat) : Enough lines fuel := by
  induction fuel with
  | zero => constructor <;> (intros; omega)
  | succ fuel ih =>
    constructor
    case block =>
      intro indent p hf h
      unfold parse_block at h
      cases hl : lines[p.pos]? with
      | none => simp [hl] at h
      | some l =>
        simp only [hl] at h
        split at h
        · exact ih.seq (by omega) h
        · exact ih.map (by omega) h
    case seq =>
      intro indent items p hf h
      unfold parse_seq at h
      cases hl : lines[p.pos]? with
      | none => simp [hl] at h
      | some l =>
        have htake := Parser.take_left hl
        simp only [hl] at h
        split at h
        · rcases bind_eq_error h with h | ⟨⟨item, p₁⟩, hitem, h⟩
          · exact ih.item (by omega) h
          · -- the dash line is behind the cursor, and the item never goes back to it
            have := ((parse_later fuel).item hitem).left lines
            exact ih.seq (p := p₁) (by omega) h
        · cases h
    case item =>
      intro indent rest p hf h
      unfold parse_item at h
      split at h
      · cases hl : lines[p.pos]? with
        | none => simp [hl] at h
        | some l =>
          simp only [hl] at h
          split at h
          · exact ih.block (by omega) h
          · cases h
      · split at h
        · rcases bind_eq_error h with h | ⟨⟨item, p₁⟩, hkv, h⟩
          · exact ih.kv (by omega) h
          · have := ((parse_later fuel).kv hkv).left lines
            exact ih.siblings (by omega) h
        · cases h
    case siblings =>
      intro indent item p hf h
      unfold parse_siblings at h
      cases hl : lines[p.pos]? with
      | none => simp [hl] at h
      | some l =>
        simp only [hl] at h
        split at h
        · rcases bind_eq_error h with h | ⟨⟨item₁, p₁⟩, hkv, h⟩
          · exact ih.kv (p := p.look) (by simp only [Parser.left, Parser.look] at *; omega) h
          · -- the line is passed after its text was parsed
            have hpos := ((parse_later fuel).kv hkv).pos
            have hlt := (List.getElem?_eq_some_iff.1 hl).1
            refine ih.siblings ?_ h
            simp only [Parser.left, Parser.look, Parser.skip] at *
            omega
        · cases h
    case kv =>
      intro n text p hf h
      unfold parse_kv_into at h
      cases hkv : split_kv text with
      | none => simp [hkv] at h
      | some kv =>
        simp only [hkv] at h
        split at h
        · cases hl : lines[p.pos]? with
          | none => simp [hl] at h
          | some l =>
            simp only [hl] at h
            split at h
            · split at h
              · rcases bind_eq_error h with h | ⟨_, _, h⟩
                · exact ih.seq (by omega) h
                · cases h
              · rcases bind_eq_error h with h | ⟨_, _, h⟩
                · exact ih.map (by omega) h
                · cases h
            · cases h
        · cases h
    case map =>
      intro indent n p hf h
      unfold parse_map at h
      cases hl : lines[p.pos]? with
      | none => simp [hl] at h
      | some l =>
        have htake := Parser.take_left hl
        simp only [hl] at h
        split at h
        · rcases bind_eq_error h with h | ⟨⟨n₁, p₁⟩, hkv, h⟩
          · exact ih.kv (by omega) h
          · have := ((parse_later fuel).kv hkv).left lines
            exact ih.map (p := p₁) (by omega) h
        · cases h

/-- The fuel the parser starts with is enough. -/
theorem parse_root_ne_fuel : parse_root lines ≠ .error .fuel :=
  (parse_enough _).map (by simp only [Parser.left]; omega)

end

end Hostely.Apps
