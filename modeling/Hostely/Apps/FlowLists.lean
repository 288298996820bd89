import Hostely.Apps.Blocks
import Hostely.Apps.Layout
import Hostely.Apps.Quoting
import Hostely.Apps.Splitting
/-!
# Flow lists and block lists

The list of a service's key on one line, `[a, b]`, or one dash line for each
word. The YAML parser takes the flow list for a scalar. `parse_command` takes it
apart again; `parse_dns` and `parse_ports` take the whole of it for one word, and
`parse_depends_on` has no case for a scalar.
-/

open Hostely.Lib

namespace Hostely.Apps

/-! ## The two spellings -/

def list_char (c : UInt8) : Bool := plain c || c = 58

/-- A word of letters, digits and `. : / - _` with no colon at its end. -/
structure ListWord where
  text : Bytes
  ne : text ≠ []
  chars : ∀ c ∈ text, list_char c = true
  last : text.getLast? ≠ some 58

/-- A word of the list, with the quotes it has in each spelling. -/
structure ListItem where
  word : ListWord
  in_block : Option Quote
  in_flow : Option Quote

inductive ListKey where
  | command
  | dns
  | depends_on
  | ports
deriving DecidableEq, Repr

def ListKey.word : ListKey → Word
  | command => Hostely.Apps.word "command" (by decide)
  | dns => Hostely.Apps.word "dns" (by decide)
  | depends_on => Hostely.Apps.word "depends_on" (by decide)
  | ports => Hostely.Apps.word "ports" (by decide)

def ListKey.text (k : ListKey) : Bytes := k.word.1

def words_of (items : List ListItem) : List Bytes := items.map fun i => i.word.text

def spelled (q : Option Quote) (w : Bytes) : Bytes :=
  match q with
  | none => w
  | some q => quoted q w

/-- `, b, c` -/
def flow_rest (items : List ListItem) : Bytes := items.flatMap fun i => 44 :: 32 :: spelled i.in_flow i.word.text

/-- `a, b, c` -/
def flow_body : List ListItem → Bytes
  | [] => []
  | i :: items => spelled i.in_flow i.word.text ++ flow_rest items

/-- `[a, b, c]` -/
def flow_text (items : List ListItem) : Bytes := 91 :: flow_body items ++ [93]

def flow_line (indent : Nat) (k : ListKey) (items : List ListItem) : Line :=
  ⟨indent, k.text ++ 58 :: 32 :: flow_text items⟩

def block_line (indent : Nat) (k : ListKey) : Line := ⟨indent, k.text ++ [58]⟩

def item_lines (indent : Nat) (items : List ListItem) : List Line :=
  items.map fun i => ⟨indent, bytes "- " ++ spelled i.in_block i.word.text⟩

/-! ## Words and their spellings -/

theorem ListWord.ne_char (w : ListWord) {d : UInt8} (hd : list_char d = false) : d ∉ w.text := by
  intro h
  rw [w.chars d h] at hd
  cases hd

theorem ListWord.trim_text (w : ListWord) : trim w.text = w.text := by
  have hspace {c : UInt8} (hc : c ∈ w.text) : isspace c = false := by
    have hchar := w.chars c hc
    simp only [list_char, Bool.or_eq_true, decide_eq_true_eq] at hchar
    rcases hchar with hp | rfl
    · exact isspace_of_plain hp
    · rfl
  exact trim_id (fun c hc => hspace (List.mem_of_mem_head? hc)) fun c hc => hspace (List.mem_of_mem_getLast? hc)

theorem Quote.not_list_char (q : Quote) : list_char q.char = false := by cases q <;> rfl

theorem doubled_id {q : Quote} {s : Bytes} (h : q.char ∉ s) : doubled q s = s := by
  induction s with
  | nil => rfl
  | cons c s ih =>
    rw [List.mem_cons, not_or] at h
    rw [doubled_cons, if_neg (Ne.symm h.1), ih h.2]

section
variable (q : Option Quote) (w : ListWord)

theorem quoted_word (q : Quote) : quoted q w.text = q.char :: w.text ++ [q.char] := by
  rw [quoted, doubled_id (w.ne_char q.not_list_char)]

theorem mem_spelled {c : UInt8} (h : c ∈ spelled q w.text) : list_char c = true ∨ c = 34 ∨ c = 39 := by
  cases q with
  | none => exact .inl (w.chars c h)
  | some q =>
    rw [spelled, quoted_word] at h
    have hquote : q.char = 34 ∨ q.char = 39 := by cases q <;> simp [Quote.char]
    simp only [List.cons_append, List.mem_cons, List.mem_append, List.not_mem_nil, or_false] at h
    rcases h with rfl | h | rfl
    · exact .inr hquote
    · exact .inl (w.chars c h)
    · exact .inr hquote

theorem not_mem_spelled {d : UInt8} (hd : list_char d = false ∧ d ≠ 34 ∧ d ≠ 39) : d ∉ spelled q w.text := by
  intro h
  rcases mem_spelled q w h with hc | rfl | rfl
  · rw [hc] at hd
    cases hd.1
  · exact hd.2.1 rfl
  · exact hd.2.2 rfl

theorem spelled_ne : spelled q w.text ≠ [] := by
  cases q with
  | none => exact w.ne
  | some q => exact List.cons_ne_nil _ _

theorem spelled_last : (spelled q w.text).getLast? ≠ some 58 := by
  cases q with
  | none => exact w.last
  | some q =>
    rw [spelled, quoted_last]
    cases q <;> decide

theorem trim_spelled : trim (spelled q w.text) = spelled q w.text := by
  have hspace {c : UInt8} (hc : c ∈ spelled q w.text) : isspace c = false := by
    rcases mem_spelled q w hc with hchar | rfl | rfl
    · simp only [list_char, Bool.or_eq_true, decide_eq_true_eq] at hchar
      rcases hchar with hp | rfl
      · exact isspace_of_plain hp
      · rfl
    · rfl
    · rfl
  exact trim_id (fun c hc => hspace (List.mem_of_mem_head? hc)) fun c hc => hspace (List.mem_of_mem_getLast? hc)

theorem unquote_spelled : unquote (spelled q w.text) = w.text := by
  cases q with
  | none =>
    have hhead (d : UInt8) (hd : list_char d = false) : w.text.head? ≠ some d := fun h =>
      w.ne_char hd (List.mem_of_mem_head? h)
    simp [spelled, unquote, hhead 34 (by decide), hhead 39 (by decide)]
  | some q =>
    have hother : ¬ [q.other.char, q.other.char] <:+: w.text := fun h =>
      w.ne_char q.other.not_list_char (h.subset (by simp))
    rw [spelled, unquote_quoted, (collapse_doubled q w.text).2 hother]

theorem inline_kv_spelled : inline_kv (spelled q w.text) = false := by
  have hfind : ¬ bytes ": " <:+: spelled q w.text := fun h =>
    not_mem_spelled q w (d := 32) (by decide) (h.subset (by decide))
  simp [inline_kv, findSub?_eq_none.2 hfind, spelled_last q w]

end

/-! ## The flow list is taken apart -/

/-- One round of the loop, before the end of the list or the next comma. -/
theorem flow_items_step (fuel : Nat) {sep : Bytes} (hsep : ∀ c ∈ sep, isspace c = true ∨ c = 44) (q : Option Quote)
    (w : ListWord) {rest : Bytes} (hrest : rest = [] ∨ rest.head? = some 44) :
    flow_items (fuel + 1) (sep ++ (spelled q w.text ++ rest)) = w.text :: flow_items fuel rest := by
  have hdrop {c : UInt8} {t : Bytes} (hc : ¬ (isspace c = true ∨ c = 44)) :
      (sep ++ c :: t).dropWhile (fun c => isspace c ∨ c = 44) = c :: t := by
    have hstop : ¬ decide (isspace c = true ∨ c = 44) = true := by simpa using hc
    rw [List.dropWhile_append_of_pos fun c hc => decide_eq_true (hsep c hc)]
    exact List.dropWhile_cons_of_neg hstop
  cases q with
  | none =>
    obtain ⟨c, t, ht⟩ := List.exists_cons_of_ne_nil w.ne
    have hmem : c ∈ w.text := ht ▸ List.mem_cons_self
    have hne (d : UInt8) (hd : list_char d = false) : c ≠ d := fun he => w.ne_char hd (he ▸ hmem)
    have hfirst : ¬ (isspace c = true ∨ c = 44) := by
      have hchar := w.chars c hmem
      grind [list_char, plain, isalnum, isdigit, isspace]
    have hcomma : (44 : UInt8) ∉ t := fun h => w.ne_char (d := 44) (by decide) (ht ▸ List.mem_cons_of_mem _ h)
    have hcut : (t ++ rest).takeWhile (· ≠ 44) = t ∧ (t ++ rest).dropWhile (· ≠ 44) = rest := by
      rcases hrest with rfl | hhead
      · have hall : ∀ c ∈ t, decide (c ≠ 44) = true := fun c hc => decide_eq_true fun he => hcomma (he ▸ hc)
        rw [List.append_nil]
        exact ⟨List.takeWhile_eq_self_iff.2 hall, List.dropWhile_eq_nil_iff.2 hall⟩
      · obtain ⟨rest', rfl⟩ := List.head?_eq_some_iff.1 hhead
        exact takeWhile_before hcomma rest'
    have htrim := w.trim_text
    rw [ht] at htrim
    rw [spelled, ht, List.cons_append, flow_items, hdrop hfirst]
    dsimp only
    rw [if_neg (not_or.2 ⟨hne 34 (by decide), hne 39 (by decide)⟩)]
    dsimp only
    rw [hcut.1, hcut.2, htrim, if_neg (List.cons_ne_nil _ _)]
  | some q =>
    have hfirst : ¬ (isspace q.char = true ∨ q.char = 44) := by cases q <;> decide
    have hcut := takeWhile_before (w.ne_char q.not_list_char) rest
    have hquote : q.char = 34 ∨ q.char = 39 := by cases q <;> simp [Quote.char]
    have hshape : spelled (some q) w.text ++ rest = q.char :: (w.text ++ q.char :: rest) := by
      rw [spelled, quoted_word]
      simp
    rw [hshape, flow_items, hdrop hfirst]
    dsimp only
    rw [if_pos hquote]
    dsimp only
    rw [hcut.1, hcut.2, w.trim_text, if_neg w.ne]
    rfl

/-- The rest of a list is empty or starts with a comma. -/
theorem flow_rest_starts (items : List ListItem) : flow_rest items = [] ∨ (flow_rest items).head? = some 44 := by
  cases items with
  | nil => exact .inl rfl
  | cons i items => exact .inr rfl

theorem flow_items_rest (items : List ListItem) {fuel : Nat} (hfuel : items.length < fuel) :
    flow_items fuel (flow_rest items) = words_of items := by
  induction items generalizing fuel with
  | nil =>
    cases fuel with
    | zero => rfl
    | succ fuel => rfl
  | cons i items ih =>
    cases fuel with
    | zero => cases hfuel
    | succ fuel =>
      have hshape : flow_rest (i :: items) = [44, 32] ++ (spelled i.in_flow i.word.text ++ flow_rest items) := by
        simp [flow_rest]
      rw [hshape, flow_items_step fuel (by decide +kernel) i.in_flow i.word (flow_rest_starts items),
        ih (Nat.lt_of_succ_lt_succ hfuel)]
      rfl

theorem flow_items_body (items : List ListItem) {fuel : Nat} (hfuel : items.length < fuel) :
    flow_items fuel (flow_body items) = words_of items := by
  cases items with
  | nil => exact flow_items_rest [] hfuel
  | cons i items =>
    cases fuel with
    | zero => cases hfuel
    | succ fuel =>
      have hstep : flow_items (fuel + 1) ([] ++ (spelled i.in_flow i.word.text ++ flow_rest items)) = _ :=
        flow_items_step fuel (by simp) i.in_flow i.word (flow_rest_starts items)
      rw [List.nil_append] at hstep
      rw [flow_body, hstep, flow_items_rest items (Nat.lt_of_succ_lt_succ hfuel)]
      rfl

theorem flow_body_length (items : List ListItem) : items.length ≤ (flow_body items).length := by
  have hrest (items : List ListItem) : items.length ≤ (flow_rest items).length := by
    induction items with
    | nil => exact le_rfl
    | cons i items ih =>
      simp only [flow_rest, List.flatMap_cons, List.length_append, List.length_cons] at ih ⊢
      omega
  cases items with
  | nil => exact le_rfl
  | cons i items =>
    have hword := List.length_pos_of_ne_nil (spelled_ne i.in_flow i.word)
    have := hrest items
    simp only [flow_body, List.length_append, List.length_cons]
    omega

theorem mem_flow_text {items : List ListItem} {c : UInt8} (h : c ∈ flow_text items) :
    list_char c = true ∨ c = 34 ∨ c = 39 ∨ c = 44 ∨ c = 32 ∨ c = 91 ∨ c = 93 := by
  have hrest {items : List ListItem} (h : c ∈ flow_rest items) : list_char c = true ∨ c = 34 ∨ c = 39 ∨ c = 44 ∨ c = 32 := by
    obtain ⟨i, -, hi⟩ := List.mem_flatMap.1 h
    rcases List.mem_cons.1 hi with rfl | hi
    · simp
    · rcases List.mem_cons.1 hi with rfl | hi
      · simp
      · rcases mem_spelled i.in_flow i.word hi with h | h | h <;> simp [h]
  simp only [flow_text, List.cons_append, List.mem_cons, List.mem_append, List.not_mem_nil, or_false] at h
  rcases h with rfl | h | rfl
  · simp
  · cases items with
    | nil => cases h
    | cons i items =>
      rcases List.mem_append.1 h with h | h
      · rcases mem_spelled i.in_flow i.word h with h | h | h <;> simp [h]
      · rcases hrest h with h | h | h | h | h <;> simp [h]
  · simp

theorem not_mem_flow_text (items : List ListItem) {d : UInt8}
    (hd : list_char d = false ∧ d ∉ [34, 39, 44, 32, 91, 93]) : d ∉ flow_text items := by
  intro h
  rcases mem_flow_text h with hc | hc
  · rw [hc] at hd
    cases hd.1
  · exact hd.2 (by simpa using hc)

theorem flow_text_head (items : List ListItem) : (flow_text items).head? = some 91 := rfl

theorem flow_text_last (items : List ListItem) : (flow_text items).getLast? = some 93 := List.getLast?_concat

theorem trim_flow_text (items : List ListItem) : trim (flow_text items) = flow_text items := by
  apply trim_id
  · intro c hc
    obtain rfl := Option.some.inj ((flow_text_head items).symm.trans hc)
    rfl
  · intro c hc
    obtain rfl := Option.some.inj ((flow_text_last items).symm.trans hc)
    rfl

/-! ## The lines are read -/

/-- What stands under the key when the list is spelled as a block. -/
def block_node (items : List ListItem) : Node :=
  if items = [] then .scalar [] else .seq ((words_of items).map .scalar)

theorem flow_reads (indent : Nat) (k : ListKey) (items : List ListItem) {tail : List Line} (h : Ends indent tail) :
    ReadsKey indent (flow_line indent k items) [] tail k.text (.scalar (flow_text items)) := by
  have hval : trim (32 :: flow_text items) = flow_text items := (trim_spaces 1 _).trans (trim_flow_text items)
  have hsplit : split_kv (k.text ++ 58 :: 32 :: flow_text items) = some (k.text, flow_text items) := by
    have hcolon : split_colon false false (k.text ++ 58 :: 32 :: flow_text items) = some (k.text, 32 :: flow_text items) :=
      split_colon_word k.word (.inr rfl)
    rw [split_kv, hcolon]
    simp only [Option.map_some, hval]
    rw [ListKey.text, trim_word, unquote_word]
  have hunquote : unquote (flow_text items) = flow_text items := by
    simp [unquote, flow_text_head]
  have hblock := (KeyBlock.scalar (flow_line indent k items) k.text (flow_text items) (not_dash_key k.word _) hsplit
    (List.cons_ne_nil _ _)).reads h
  rwa [← hunquote]

/-- The dash lines may stand at any indent but the first. Without any, the next line
must not look like a block. -/
theorem block_reads (indent : Nat) {j : Nat} (hpos : 0 < j) (k : ListKey) (items : List ListItem)
    {tail : List Line} (h : Ends indent tail) (hempty : items = [] → ∀ l, tail.head? = some l → starts_child l = false) :
    ReadsKey indent (block_line indent k) (item_lines j items) tail k.text (block_node items) where
  indented := rfl
  dash := not_dash_key k.word []
  split := ⟨[], split_kv_block k.word⟩
  reads := fun {lines fuel n p} hp => by
    have hsplit : split_kv (block_line indent k).text = some (k.text, []) := split_kv_block k.word
    cases fuel with
    | zero => exact .inl (by rw [parse_kv_into])
    | succ fuel =>
      cases items with
      | nil =>
        refine .inr ⟨p, ?_, rfl⟩
        have hstop : ∀ l, lines[p.pos]? = some l → starts_child l = false := fun l hl =>
          hempty rfl l ((line_at hp).symm.trans hl)
        rw [parse_kv_into]
        simp only [hsplit]
        cases hl : lines[p.pos]? with
        | none => simp [block_node]
        | some l => simp [block_node, hstop l hl]
      | cons i items =>
        have hrests : ∀ rest ∈ (i :: items).map fun i => spelled i.in_block i.word.text, rest ≠ [] ∧ inline_kv rest = false := by
          intro rest hrest
          obtain ⟨x, -, rfl⟩ := List.mem_map.1 hrest
          exact ⟨spelled_ne _ _, inline_kv_spelled _ _⟩
        have hlines : item_lines j (i :: items) =
            ((i :: items).map fun i => spelled i.in_block i.word.text).map fun rest => ⟨j, bytes "- " ++ rest⟩ := by
          rw [List.map_map]
          rfl
        have htail : ∀ l, tail.head? = some l → ¬ (l.indent = j ∧ is_dash l.text = true) := by
          rintro l hl ⟨-, hdash⟩
          exact absurd (hdash.symm.trans (h l hl).2) (by decide)
        have hnodes : ((i :: items).map fun i => spelled i.in_block i.word.text).map
            (fun rest => Node.scalar (unquote (trim rest))) = (words_of (i :: items)).map .scalar := by
          rw [words_of, List.map_map, List.map_map]
          exact List.map_congr_left fun x _ => by rw [Function.comp, trim_spelled, unquote_spelled, Function.comp]
        have hdash := (dash_line (spelled i.in_block i.word.text)).1
        have hchild : starts_child ⟨j, bytes "- " ++ spelled i.in_block i.word.text⟩ = true := by
          simp [starts_child, hpos, hdash]
        rw [parse_kv_child hsplit (line_at hp) hchild, if_pos hdash]
        rw [hlines] at hp
        have hseq : Parses (parse_seq lines fuel j [] p) _ _ := parse_dash_lines _ hrests hp htail
        refine hseq.bind fun q hq => .inr ⟨q, ?_, by rw [hq, hlines, List.length_map, List.length_map, List.length_map]⟩
        rw [List.nil_append, hnodes]
        rfl

/-! ## The lines of the file -/

/-- What the lines of both spellings have in common. -/
structure ListLine (l : Line) : Prop where
  chars : ∀ c ∈ l.text, list_char c = true ∨ c ∈ [34, 39, 44, 32, 91, 93]
  head : ∀ c, l.text.head? = some c → plain c = true
  last : ∀ c, l.text.getLast? = some c → isspace c = false
  mark : 58 ∈ l.text ∨ 32 ∈ l.text

theorem ListLine.not_mem {l : Line} (h : ListLine l) {d : UInt8} (hd : list_char d = false ∧ d ∉ [34, 39, 44, 32, 91, 93]) :
    d ∉ l.raw := by
  intro hc
  rcases List.mem_append.1 hc with hc | hc
  · rw [List.eq_of_mem_replicate hc] at hd
    exact hd.2 (by decide)
  · rcases h.chars d hc with hp | hp
    · rw [hp] at hd
      cases hd.1
    · exact hd.2 hp

theorem ListLine.read {l : Line} (h : ListLine l) (path : Bytes) : read_line path l.raw = .ok (some l) := by
  obtain ⟨indent, text⟩ := l
  have hmark (s : Bytes) (hs : 58 ∉ s ∧ 32 ∉ s) : text ≠ s := by
    rintro rfl
    exact h.mark.elim hs.1 hs.2
  refine read_line_text path (strip_comment_from_id (h.not_mem (by decide)) false false true) (fun c hc => ?_) h.last
    ⟨hmark _ (by decide), hmark _ (by decide), hmark _ (by decide)⟩
  have hplain := h.head c hc
  exact ⟨isspace_of_plain hplain, ne_of_plain hplain rfl, ne_of_plain hplain rfl, ne_of_plain hplain rfl⟩

theorem key_head (k : ListKey) (rest : Bytes) (c : UInt8) (h : (k.text ++ rest).head? = some c) : plain c = true := by
  cases k <;> (obtain rfl := Option.some.inj h; rfl)

theorem key_chars (k : ListKey) {c : UInt8} (h : c ∈ k.text) : list_char c = true := by
  simp [list_char, k.word.2 c h]

theorem flow_line_listed (indent : Nat) (k : ListKey) (items : List ListItem) : ListLine (flow_line indent k items) where
  chars := by
    intro c hc
    simp only [flow_line, List.mem_append, List.mem_cons] at hc
    rcases hc with hc | rfl | rfl | hc
    · exact .inl (key_chars k hc)
    · exact .inl rfl
    · exact .inr (by decide)
    · exact (mem_flow_text hc).imp_right fun h => by simpa using h
  head := key_head k _
  last := by
    intro c hc
    have hshape : (flow_line indent k items).text = (k.text ++ [58, 32]) ++ flow_text items := by simp [flow_line]
    have hne : flow_text items ≠ [] := List.cons_ne_nil _ _
    rw [hshape, List.getLast?_append_of_ne_nil _ hne, flow_text_last] at hc
    obtain rfl := Option.some.inj hc
    rfl
  mark := .inl (by simp [flow_line])

theorem block_line_listed (indent : Nat) (k : ListKey) : ListLine (block_line indent k) where
  chars := by
    intro c hc
    rcases List.mem_append.1 hc with hc | hc
    · exact .inl (key_chars k hc)
    · obtain rfl := List.mem_singleton.1 hc
      exact .inl rfl
  head := key_head k _
  last := by
    intro c hc
    rw [block_line, List.getLast?_concat] at hc
    obtain rfl := Option.some.inj hc
    rfl
  mark := .inl (by simp [block_line])

theorem item_lines_listed (indent : Nat) (items : List ListItem) {l : Line} (h : l ∈ item_lines indent items) : ListLine l := by
  obtain ⟨i, -, rfl⟩ := List.mem_map.1 h
  have hspelled {c : UInt8} (hc : c ∈ spelled i.in_block i.word.text) : list_char c = true ∨ c ∈ [34, 39, 44, 32, 91, 93] := by
    rcases mem_spelled _ _ hc with h | rfl | rfl
    · exact .inl h
    · exact .inr (by decide)
    · exact .inr (by decide)
  constructor
  · intro c hc
    rcases List.mem_append.1 hc with hc | hc
    · have hdash : c = 45 ∨ c = 32 := by simpa [show bytes "- " = [45, 32] from rfl] using hc
      rcases hdash with rfl | rfl
      · exact .inl rfl
      · exact .inr (by decide)
    · exact hspelled hc
  · intro c hc
    obtain rfl := Option.some.inj hc
    rfl
  · intro c hc
    rw [List.getLast?_append_of_ne_nil _ (spelled_ne _ _)] at hc
    have hmem := List.mem_of_mem_getLast? hc
    rcases mem_spelled _ _ hmem with h | rfl | rfl
    · have h32 := not_mem_spelled i.in_block i.word (d := 32) (by decide)
      grind [list_char, plain, isalnum, isdigit, isspace]
    · rfl
    · rfl
  · exact .inr (List.mem_append_left _ (by decide))

/-! ## What the readers make of them -/

/-- What a service gets from the value of the key. -/
def ListKey.Same (env : Env) (v w : Node) : ListKey → Prop
  | command => parse_command w = parse_command v
  | dns => (parse_dns w).map (interpolate env) = (parse_dns v).map (interpolate env)
  | depends_on => parse_depends_on w = parse_depends_on v
  | ports => (parse_ports w).map (halves env) = (parse_ports v).map (halves env)

section
variable {env : Env} {k : ListKey} {eb ef : Entries} {name : Bytes}

/-- Services that differ in the value of this key load or fail alike. -/
theorem load_service_together (h : ∀ key, key ≠ k.text → ef.lookup key = eb.lookup key) :
    Together (load_service env (name, .map eb)) (load_service env (name, .map ef)) := by
  have himage := h (bytes "image") (by cases k <;> decide)
  unfold load_service
  simp only [Node.entries, himage]
  by_cases hempty : interpolate env (node_scalar ((eb.lookup (bytes "image")).getD (.scalar []))) = []
  · exact .inl ⟨_, if_pos hempty, if_pos hempty⟩
  · exact .inr ⟨_, _, if_neg hempty, if_neg hempty⟩

theorem load_service_same {v w : Node} {s : ComposeService} (h : ∀ key, key ≠ k.text → ef.lookup key = eb.lookup key)
    (hb : eb.lookup k.text = some v) (hf : ef.lookup k.text = some w) (hs : load_service env (name, .map eb) = .ok s) :
    load_service env (name, .map ef) = load_service env (name, .map eb) ↔ k.Same env v w := by
  have himage := h (bytes "image") (by cases k <;> decide)
  have henv := h (bytes "environment") (by cases k <;> decide)
  have hvolumes := h (bytes "volumes") (by cases k <;> decide)
  have hmem := h (bytes "mem_limit") (by cases k <;> decide)
  have hnonempty : ¬ interpolate env (node_scalar ((eb.lookup (bytes "image")).getD (.scalar []))) = [] := by
    intro hempty
    simp only [load_service, Node.entries, hempty, if_true] at hs
    cases hs
  cases k with
  | command =>
    have hb' : eb.lookup (bytes "command") = some v := hb
    have hf' : ef.lookup (bytes "command") = some w := hf
    simp [load_service, Node.entries, himage, henv, hvolumes, hmem, hnonempty, hb', hf', ListKey.Same,
      h (bytes "dns") (by decide), h (bytes "depends_on") (by decide), h (bytes "ports") (by decide)]
  | dns =>
    have hb' : eb.lookup (bytes "dns") = some v := hb
    have hf' : ef.lookup (bytes "dns") = some w := hf
    simp [load_service, Node.entries, himage, henv, hvolumes, hmem, hnonempty, hb', hf', ListKey.Same,
      h (bytes "command") (by decide), h (bytes "depends_on") (by decide), h (bytes "ports") (by decide)]
  | depends_on =>
    have hb' : eb.lookup (bytes "depends_on") = some v := hb
    have hf' : ef.lookup (bytes "depends_on") = some w := hf
    simp [load_service, Node.entries, himage, henv, hvolumes, hmem, hnonempty, hb', hf', ListKey.Same,
      h (bytes "command") (by decide), h (bytes "dns") (by decide), h (bytes "ports") (by decide)]
  | ports =>
    have hb' : eb.lookup (bytes "ports") = some v := hb
    have hf' : ef.lookup (bytes "ports") = some w := hf
    simp [load_service, Node.entries, himage, henv, hvolumes, hmem, hnonempty, hb', hf', ListKey.Same,
      h (bytes "command") (by decide), h (bytes "dns") (by decide), h (bytes "depends_on") (by decide)]
    exact Iff.rfl

end

theorem read_block_node (items : List ListItem) :
    parse_command (block_node items) = words_of items ∧ parse_depends_on (block_node items) = words_of items ∧
      parse_dns (block_node items) = words_of items ∧ parse_ports (block_node items) = (words_of items).map port_spec := by
  cases items with
  | nil => exact ⟨rfl, rfl, rfl, rfl⟩
  | cons i items =>
    have htrim : ∀ w ∈ words_of (i :: items), trim w = w ∧ w ≠ [] := by
      intro w hw
      obtain ⟨x, -, rfl⟩ := List.mem_map.1 hw
      exact ⟨x.word.trim_text, x.word.ne⟩
    have hnode : block_node (i :: items) = .seq ((words_of (i :: items)).map .scalar) := rfl
    rw [hnode]
    generalize words_of (i :: items) = ws at htrim
    have hmap : (ws.map Node.scalar).map (fun item => trim (node_scalar item)) = ws := by
      rw [List.map_map]
      exact (List.map_congr_left fun w hw => (htrim w hw).1).trans (List.map_id ws)
    refine ⟨?_, hmap, ?_, ?_⟩
    · rw [parse_command, List.map_map]
      exact List.map_id ws
    · rw [parse_dns, hmap, List.filter_eq_self]
      exact fun w hw => decide_eq_true (htrim w hw).2
    · have hports : (ws.map Node.scalar).map (fun item => port_spec (trim (node_scalar item))) =
          ((ws.map Node.scalar).map (fun item => trim (node_scalar item))).map port_spec := by
        simp only [List.map_map]
        rfl
      rw [parse_ports, hports, hmap]

theorem read_flow_text (items : List ListItem) :
    parse_command (.scalar (flow_text items)) = words_of items ∧ parse_depends_on (.scalar (flow_text items)) = [] ∧
      parse_dns (.scalar (flow_text items)) = [flow_text items] ∧
      parse_ports (.scalar (flow_text items)) = [port_spec (flow_text items)] := by
  have hne : flow_text items ≠ [] := List.cons_ne_nil _ _
  refine ⟨?_, rfl, ?_, ?_⟩
  · have hbody : (flow_text items).tail.dropLast = flow_body items := by simp [flow_text]
    have hfuel : items.length < (flow_text items).length := by
      have := flow_body_length items
      simp only [flow_text, List.length_append, List.length_cons]
      omega
    rw [parse_command]
    simp only [trim_flow_text, hne, flow_text_head, flow_text_last, hbody, and_self, if_true, if_false]
    exact flow_items_body items hfuel
  · rw [parse_dns, node_scalar, trim_flow_text]
    · simp [hne]
    · simp
  · rw [parse_ports, if_neg hne, trim_flow_text]

theorem interpolate_plain (env : Env) {t : Bytes} (h : 36 ∉ t) : interpolate env t = t := by
  have hliteral : interpolate env (t ++ []) = t ++ interpolate env [] :=
    interpolate_literal env (fun hin => h (hin.subset List.mem_cons_self))
      fun hlast => absurd (List.mem_of_mem_getLast? hlast) h
  rwa [List.append_nil, show interpolate env [] = [] from rfl, List.append_nil] at hliteral

theorem mem_port_spec {s : Bytes} {c : UInt8} (h : c ∈ (port_spec s).1) : c ∈ s := by
  unfold port_spec split_last at h
  cases hi : s.reverse.idxOf? 58 with
  | none =>
    rw [hi] at h
    exact h
  | some n =>
    rw [hi] at h
    exact List.mem_of_mem_take h

/-- The opening bracket becomes part of the host port. -/
theorem port_spec_flow (items : List ListItem) : 91 ∈ (port_spec (flow_text items)).1 := by
  by_cases hcolon : 58 ∈ flow_text items
  · obtain ⟨b, a, hrev, hb⟩ := List.eq_append_cons_of_mem (List.mem_reverse.2 hcolon)
    have hshape : flow_text items = a.reverse ++ 58 :: b.reverse := by
      have := congrArg List.reverse hrev
      simpa using this
    have hb' : (58 : UInt8) ∉ b.reverse := by simpa using hb
    have hhead := flow_text_head items
    rw [port_spec, hshape, split_last_mark hb']
    rw [hshape] at hhead
    cases ha : a.reverse with
    | nil =>
      rw [ha] at hhead
      cases hhead
    | cons c t =>
      rw [ha] at hhead
      obtain rfl : c = 91 := Option.some.inj hhead
      exact List.mem_cons_self
  · rw [port_spec, split_last_unmarked hcolon]
    exact List.mem_cons_self

/-- Only `command` reads the same from both spellings; the empty list is also the
same for `depends_on`. -/
theorem same_iff (env : Env) (k : ListKey) (items : List ListItem) :
    k.Same env (block_node items) (.scalar (flow_text items)) ↔ k = .command ∨ k = .depends_on ∧ items = [] := by
  obtain ⟨hcommand, hdepends, hdns, hports⟩ := read_block_node items
  obtain ⟨fcommand, fdepends, fdns, fports⟩ := read_flow_text items
  have hdollar : (36 : UInt8) ∉ flow_text items := not_mem_flow_text items (by decide)
  have hword {w : Bytes} (hw : w ∈ words_of items) : 36 ∉ w ∧ 91 ∉ w := by
    obtain ⟨x, -, rfl⟩ := List.mem_map.1 hw
    exact ⟨x.word.ne_char (by decide), x.word.ne_char (by decide)⟩
  cases k with
  | command => simp [ListKey.Same, hcommand, fcommand]
  | depends_on =>
    have hnil : [] = words_of items ↔ items = [] := by rw [eq_comm, words_of, List.map_eq_nil_iff]
    simpa [ListKey.Same, hdepends, fdepends] using hnil
  | dns =>
    refine iff_of_false (fun hsame => ?_) (by simp)
    rw [ListKey.Same, hdns, fdns, List.map_singleton] at hsame
    have hmem : interpolate env (flow_text items) ∈ (words_of items).map (interpolate env) :=
      hsame ▸ List.mem_singleton_self _
    obtain ⟨w, hw, heq⟩ := List.mem_map.1 hmem
    rw [interpolate_plain env (hword hw).1, interpolate_plain env hdollar] at heq
    exact (hword hw).2 (heq ▸ List.mem_cons_self)
  | ports =>
    refine iff_of_false (fun hsame => ?_) (by simp)
    rw [ListKey.Same, hports, fports, List.map_singleton, List.map_map] at hsame
    have hmem : halves env (port_spec (flow_text items)) ∈ (words_of items).map (halves env ∘ port_spec) :=
      hsame ▸ List.mem_singleton_self _
    obtain ⟨w, hw, heq⟩ := List.mem_map.1 hmem
    have hfirst : (port_spec w).1 = (port_spec (flow_text items)).1 := by
      have h := congrArg Prod.fst heq
      rwa [Function.comp, halves, halves, interpolate_plain env fun h => (hword hw).1 (mem_port_spec h),
        interpolate_plain env fun h => hdollar (mem_port_spec h)] at h
    exact (hword hw).2 (mem_port_spec (hfirst ▸ port_spec_flow items))

/-! ## The two files -/

/-- The file system with this text for the file. -/
def with_file (files : Bytes → Option Bytes) (path text : Bytes) (q : Bytes) : Option Bytes :=
  if q = path then some text else files q

/-- These pieces of the file are read as these lines. -/
def ReadTo (path : Bytes) (raws : List Bytes) (ls : List Line) : Prop :=
  ∃ found, raws.mapM (read_line path) = .ok found ∧ found.filterMap id = ls

section
variable {path : Bytes} {raws raws' : List Bytes} {ls ls' : List Line}

theorem ReadTo.append (h : ReadTo path raws ls) (h' : ReadTo path raws' ls') : ReadTo path (raws ++ raws') (ls ++ ls') := by
  obtain ⟨found, hfound, rfl⟩ := h
  obtain ⟨found', hfound', rfl⟩ := h'
  refine ⟨found ++ found', ?_, List.filterMap_append⟩
  rw [List.mapM_append, hfound, hfound']
  rfl

theorem ReadTo.listed (h : ∀ l ∈ ls, ListLine l) : ReadTo path (ls.map Line.raw) ls := by
  induction ls with
  | nil => exact ⟨[], rfl, rfl⟩
  | cons l ls ih =>
    obtain ⟨found, hfound, hls⟩ := ih fun x hx => h x (List.mem_cons_of_mem _ hx)
    refine ⟨some l :: found, ?_, by rw [List.filterMap_cons, hls]; rfl⟩
    rw [List.map_cons, List.mapM_cons, (h l List.mem_cons_self).read path, hfound]
    rfl

theorem ReadTo.read_lines {text : Bytes} (h : ReadTo path (getlines text) ls) : read_lines path (some text) = .ok ls := by
  obtain ⟨found, hfound, rfl⟩ := h
  rw [Hostely.Apps.read_lines, hfound]
  rfl

theorem mem_of_mem_trim {s : Bytes} {c : UInt8} (h : c ∈ trim s) : c ∈ s := by
  have hdrop := (List.dropWhile_suffix _).subset (List.mem_reverse.1 h)
  exact (List.dropWhile_suffix _).subset (List.mem_reverse.1 hdrop)

/-- The lines of a list say nothing to the reader of `.env`. -/
theorem dot_env_listed (h : ∀ l ∈ ls, ListLine l) (env : List (Bytes × Bytes)) :
    (ls.map Line.raw).foldl dot_env_line env = env := by
  induction ls with
  | nil => rfl
  | cons l ls ih =>
    have hl := h l List.mem_cons_self
    have hequals : (61 : UInt8) ∉ trim (strip_comment l.raw) := by
      rw [strip_comment, strip_comment_from_id (hl.not_mem (by decide))]
      exact fun hc => hl.not_mem (d := 61) (by decide) (mem_of_mem_trim hc)
    rw [List.map_cons, List.foldl_cons, dot_env_line, split_first_unmarked hequals]
    exact ih fun x hx => h x (List.mem_cons_of_mem _ hx)

/-- The file loads as its lines do, in an environment that does not depend on the
list, not even where the file is its own `.env`. -/
theorem load_with_file (getenv files : Bytes → Option Bytes) (path : Bytes) (extra_env : List (Bytes × Bytes))
    (above behind : List Bytes) : ∃ env, ∀ (text : Bytes) (ls all : List Line), (∀ l ∈ ls, ListLine l) →
    getlines text = above ++ (ls.map Line.raw ++ behind) → ReadTo path (getlines text) all →
    load_compose getenv (with_file files path text) path extra_env = load_lines path env all := by
  let dot_env : List Bytes := getlines ((files (dir_of path ++ bytes "/.env")).getD [])
  refine ⟨⟨if dir_of path ++ bytes "/.env" = path then (above ++ behind).foldl dot_env_line extra_env
    else dot_env.foldl dot_env_line extra_env, getenv⟩, fun text ls all hls htext hread => ?_⟩
  have hlines : read_lines path (with_file files path text path) = .ok all := by
    rw [with_file, if_pos rfl]
    exact hread.read_lines
  rw [load_compose, hlines, with_file]
  by_cases hself : dir_of path ++ bytes "/.env" = path
  · rw [if_pos hself, if_pos hself, Option.getD_some, htext, List.foldl_append, List.foldl_append, dot_env_listed hls,
      ← List.foldl_append]
    rfl
  · rw [if_neg hself, if_neg hself]
    rfl

end

/-- With the list of a key spelled as a block and spelled in flow style, the file
fails in the same way or not at all. Where it loads, both spellings give the
same services exactly for `command`, and for an empty `depends_on`. -/
theorem flow_list_iff (getenv files : Bytes → Option Bytes) (path : Bytes) (extra_env : List (Bytes × Bytes)) (k : ListKey)
    (a : Around k.text) (items : List ListItem) {j : Nat} (hj : a.key_at ≤ j)
    (hempty : items = [] → ∀ l, a.behind.head? = some l → starts_child l = false)
    {above behind : List Bytes} (habove : ReadTo path above a.above) (hbehind : ReadTo path behind a.behind)
    {block flow : Bytes}
    (hblock : getlines block = above ++ ((block_line a.key_at k :: item_lines j items).map Line.raw ++ behind))
    (hflow : getlines flow = above ++ ([flow_line a.key_at k items].map Line.raw ++ behind)) :
    let load text := load_compose getenv (with_file files path text) path extra_env
    (∀ e, load block = .error e → load flow = .error e) ∧
    ∀ out, load block = .ok out →
      ((∃ e, load flow = .error e) ∨ load flow = .ok out ↔ k = .command ∨ k = .depends_on ∧ items = []) := by
  intro load
  have hpos : 0 < j := by
    have := a.key_deeper
    omega
  have hb := block_reads a.key_at hpos k items a.behind_ends hempty
  have hf := flow_reads a.key_at k items a.behind_ends
  have hblisted : ∀ l ∈ block_line a.key_at k :: item_lines j items, ListLine l :=
    List.forall_mem_cons.2 ⟨block_line_listed _ k, fun l hl => item_lines_listed j items hl⟩
  have hflisted : ∀ l ∈ [flow_line a.key_at k items], ListLine l :=
    List.forall_mem_singleton.2 (flow_line_listed _ k items)
  obtain ⟨env, hload⟩ := load_with_file getenv files path extra_env above behind
  have hloadb : load block = load_lines path env (a.lines (block_line a.key_at k :: item_lines j items)) :=
    hload block _ _ hblisted hblock (hblock ▸ habove.append ((ReadTo.listed hblisted).append hbehind))
  have hloadf : load flow = load_lines path env (a.lines [flow_line a.key_at k items]) :=
    hload flow _ _ hflisted hflow (hflow ▸ habove.append ((ReadTo.listed hflisted).append hbehind))
  have hlookup : ∀ key, key ≠ k.text → (a.body (.scalar (flow_text items))).lookup key = (a.body (block_node items)).lookup key :=
    fun key hkey => a.body_lookup_ne _ _ hkey
  have htogether : Together (load_service env (a.name, .map (a.body (block_node items)))) _ :=
    load_service_together hlookup
  obtain ⟨hboth, hsame⟩ := Around.load_lines_same path env hb hf htogether
  rw [hloadb, hloadf]
  constructor
  · intro e he
    rcases hboth with ⟨e', hb', hf'⟩ | ⟨_, _, hb', _⟩
    · rwa [hf', ← hb']
    · rw [hb'] at he
      cases he
  · intro out hout
    have hfails : ¬ ∃ e, load_lines path env (a.lines [flow_line a.key_at k items]) = .error e := by
      rintro ⟨e, he⟩
      rcases hboth with ⟨e', hb', _⟩ | ⟨_, _, _, hf'⟩
      · rw [hb'] at hout
        cases hout
      · rw [hf'] at he
        cases he
    obtain ⟨s, hs⟩ := Around.service_loads hb hout
    rw [or_iff_right hfails, hsame out hout, load_service_same hlookup (a.body_lookup _) (a.body_lookup _) hs]
    exact same_iff env k items

/-- One service with an image, and this key after it. -/
def around (k : ListKey) : Around k.text where
  root_at := 0
  service_at := 2
  key_at := 4
  service_deeper := Nat.two_pos
  key_deeper := by decide
  services_text := bytes "services:"
  services_split := by decide
  services_dash := by decide
  name := bytes "web"
  name_text := bytes "web:"
  name_split := by decide
  name_dash := by decide
  root_before := []
  root_after := []
  services_last := by simp [block_entries]
  services_before := []
  services_after := []
  name_last := by simp [block_entries]
  keys_before := [KeyBlock.scalar ⟨4, bytes "image: nginx"⟩ (bytes "image") (bytes "nginx") (by decide) (by decide) (by decide)]
  keys_after := []
  key_last := by simp [block_entries]

/-- `yarn` and `"worker:prod"` -/
def yarn_items : List ListItem :=
  [⟨⟨bytes "yarn", by decide +kernel, by decide +kernel, by decide +kernel⟩, none, none⟩,
    ⟨⟨bytes "worker:prod", by decide +kernel, by decide +kernel, by decide +kernel⟩, none, some .double⟩]

def web_file (lines : String) : Bytes := bytes ("services:\n  web:\n    image: nginx\n" ++ lines)

theorem flow_list_iff_command :
    let load text := load_compose (fun _ => none) (with_file (fun _ => none) toyPath text) toyPath []
    let block := web_file "    command:\n      - yarn\n      - worker:prod\n"
    let flow := web_file "    command: [yarn, \"worker:prod\"]\n"
    (∀ e, load block = .error e → load flow = .error e) ∧
    ∀ out, load block = .ok out → ((∃ e, load flow = .error e) ∨ load flow = .ok out ↔
      ListKey.command = .command ∨ ListKey.command = .depends_on ∧ yarn_items = []) :=
  have habove : ReadTo toyPath [bytes "services:", bytes "  web:", bytes "    image: nginx"] (around .command).above :=
    ⟨[some ⟨0, bytes "services:"⟩, some ⟨2, bytes "web:"⟩, some ⟨4, bytes "image: nginx"⟩], by decide +kernel, rfl⟩
  have hbehind : ReadTo toyPath [] (around .command).behind := ⟨[], rfl, rfl⟩
  flow_list_iff (fun _ => none) (fun _ => none) toyPath [] .command (around .command) yarn_items (j := 6) (by decide)
    (fun h => by cases h) habove hbehind (by decide +kernel) (by decide +kernel)

/-- The documented `dns: [8.8.8.8, 1.1.1.1]` is one nameserver, brackets and all. -/
theorem dns_flow_list_is_one_server :
    let load text := load_compose (fun _ => none) (with_file (fun _ => none) toyPath text) toyPath []
    let block := web_file "    dns:\n      - 8.8.8.8\n      - 1.1.1.1\n"
    let flow := web_file "    dns: [8.8.8.8, 1.1.1.1]\n"
    let service dns : ComposeService := ⟨bytes "web", bytes "nginx", [], [], [], [], [], dns, []⟩
    load block = .ok ⟨toyPath, [service [bytes "8.8.8.8", bytes "1.1.1.1"]]⟩ ∧
    load flow = .ok ⟨toyPath, [service [bytes "[8.8.8.8, 1.1.1.1]"]]⟩ ∧
    ¬ ((∃ e, load flow = .error e) ∨ load flow = load block) := by
  intro load block flow service
  have hblock : load block = .ok ⟨toyPath, [service [bytes "8.8.8.8", bytes "1.1.1.1"]]⟩ := by decide +kernel
  have hflow : load flow = .ok ⟨toyPath, [service [bytes "[8.8.8.8, 1.1.1.1]"]]⟩ := by decide +kernel
  refine ⟨hblock, hflow, ?_⟩
  rw [hblock, hflow]
  rintro (⟨e, he⟩ | hsame)
  · cases he
  · exact absurd hsame (by decide +kernel)

end Hostely.Apps
