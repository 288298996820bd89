import Hostely.Apps.Yaml
import Mathlib.Data.List.Nodup
/-!
# Block style is read back

A tree of mappings, sequences and scalars written in block style, each nested
block with more indent than its key, is read back as that tree.
-/

open Hostely.Lib

namespace Hostely.Apps

/-! ## Trees and how they are written -/

def plain (c : UInt8) : Bool := isalnum c || c = 95 || c = 46 || c = 47 || c = 45

/-- A text of letters, digits, `_`, `.`, `/` and `-`. -/
abbrev Word := { w : Bytes // ∀ c ∈ w, plain c = true }

/-- A value in block style; a block is indented by `extra + 1` spaces more than its
key. -/
inductive Value where
  | scalar (text : Word)
  | seq (extra : Nat) (items : List Word)
  | map (extra : Nat) (entries : List (Word × Value))

mutual

/-- Scalars, sequences and mappings are not empty, the keys of a mapping
different. -/
def Value.Wf : Value → Prop
  | .scalar text => text.1 ≠ []
  | .seq _ items => items ≠ [] ∧ ∀ item ∈ items, item.1 ≠ []
  | .map _ entries => entries ≠ [] ∧ (entries.map Prod.fst).Nodup ∧ EntriesWf entries

def EntriesWf : List (Word × Value) → Prop
  | [] => True
  | (_, v) :: entries => v.Wf ∧ EntriesWf entries

end

mutual

/-- The tree as the parser keeps it. -/
def Value.node : Value → Node
  | .scalar text => .scalar text.1
  | .seq _ items => .seq (items.map fun item => .scalar item.1)
  | .map _ entries => .map (sortKeys (nodes entries))

def nodes : List (Word × Value) → Entries
  | [] => []
  | (key, v) :: entries => (key.1, v.node) :: nodes entries

end

/-- The line of a key. -/
def key_text (key : Word) : Value → Bytes
  | .scalar text => key.1 ++ bytes ": " ++ text.1
  | .seq _ _ => key.1 ++ bytes ":"
  | .map _ _ => key.1 ++ bytes ":"

mutual

/-- The lines below the line of a key that has this indent. -/
def Value.under (indent : Nat) : Value → List Line
  | .scalar _ => []
  | .seq extra items => items.map fun item => ⟨indent + extra + 1, bytes "- " ++ item.1⟩
  | .map extra entries => block_lines (indent + extra + 1) entries

def block_lines (indent : Nat) : List (Word × Value) → List Line
  | [] => []
  | (key, v) :: entries => ⟨indent, key_text key v⟩ :: v.under indent ++ block_lines indent entries

end

def Line.raw (l : Line) : Bytes := List.replicate l.indent 32 ++ l.text

/-- The text of a file; its last line may or may not end in a newline. -/
def file_text (ended : Bool) : List Line → Bytes
  | [] => []
  | [l] => l.raw ++ if ended then [10] else []
  | l :: lines => l.raw ++ 10 :: file_text ended lines

/-! ## Plain text -/

theorem ne_of_plain {c d : UInt8} (hc : plain c = true) (hd : plain d = false) : c ≠ d := by
  rintro rfl
  rw [hc] at hd
  cases hd

theorem isspace_of_plain {c : UInt8} (hc : plain c = true) : isspace c = false := by
  grind [plain, isalnum, isdigit, isspace]

theorem strip_comment_from_id {s : Bytes} (h : 35 ∉ s) (in_s in_d after_space : Bool) :
    strip_comment_from in_s in_d after_space s = s := by
  induction s generalizing in_s in_d after_space with
  | nil => rfl
  | cons c s ih =>
    rw [List.mem_cons, not_or] at h
    simp only [strip_comment_from, Ne.symm h.1, false_and, if_false, ih h.2, ite_self]

theorem trim_id {s : Bytes} (hhead : ∀ c, s.head? = some c → isspace c = false)
    (hlast : ∀ c, s.getLast? = some c → isspace c = false) : trim s = s := by
  have hdrop {t : Bytes} (ht : ∀ c, t.head? = some c → isspace c = false) : t.dropWhile isspace = t := by
    cases t with
    | nil => rfl
    | cons c t => simp [List.dropWhile, ht c rfl]
  rw [trim, hdrop hhead, hdrop (by simpa using hlast), List.reverse_reverse]

theorem trim_spaces (n : Nat) (s : Bytes) : trim (List.replicate n 32 ++ s) = trim s := by
  have hdrop : (List.replicate n 32 ++ s).dropWhile isspace = s.dropWhile isspace := by
    induction n with
    | zero => rfl
    | succ n ih =>
      rw [List.replicate_succ, List.cons_append, List.dropWhile_cons_of_pos (by decide), ih]
  rw [trim, hdrop, trim]

theorem trim_word (w : Word) : trim w.1 = w.1 := by
  apply trim_id
  · exact fun c hc => isspace_of_plain (w.2 c (List.mem_of_mem_head? hc))
  · exact fun c hc => isspace_of_plain (w.2 c (List.mem_of_mem_getLast? hc))

theorem unquote_word (w : Word) : unquote w.1 = w.1 := by
  have hhead (d : UInt8) (hd : plain d = false) : w.1.head? ≠ some d := fun h =>
    ne_of_plain (w.2 d (List.mem_of_mem_head? h)) hd rfl
  simp [unquote, hhead 34 (by decide), hhead 39 (by decide)]

/-- A key is split off at the colon after it. -/
theorem split_colon_word (w : Word) {rest : Bytes} (h : rest = [] ∨ rest.head? = some 32) :
    split_colon false false (w.1 ++ 58 :: rest) = some (w.1, rest) := by
  obtain ⟨w, hw⟩ := w
  induction w with
  | nil => simp [split_colon, h]
  | cons c w ih =>
    have hne (d : UInt8) (hd : plain d = false) : c ≠ d := ne_of_plain (hw c List.mem_cons_self) hd
    have hrest := ih fun d hd => hw d (List.mem_cons_of_mem _ hd)
    simp only [List.cons_append, split_colon]
    simp [hne 58 rfl, hne 39 rfl, hne 34 rfl, hrest]

theorem split_kv_scalar (key text : Word) : split_kv (key.1 ++ bytes ": " ++ text.1) = some (key.1, text.1) := by
  have hsplit : split_colon false false (key.1 ++ 58 :: 32 :: text.1) = some (key.1, 32 :: text.1) :=
    split_colon_word key (.inr rfl)
  have htext : key.1 ++ bytes ": " ++ text.1 = key.1 ++ 58 :: 32 :: text.1 := by
    rw [List.append_assoc]
    rfl
  have hval : trim (32 :: text.1) = text.1 := (trim_spaces 1 text.1).trans (trim_word text)
  rw [split_kv, htext, hsplit]
  simp only [Option.map_some, trim_word, unquote_word, hval]

theorem split_kv_block (key : Word) : split_kv (key.1 ++ bytes ":") = some (key.1, []) := by
  have hsplit : split_colon false false (key.1 ++ [58]) = some (key.1, []) := split_colon_word key (.inl rfl)
  have htext : key.1 ++ bytes ":" = key.1 ++ [58] := rfl
  rw [split_kv, htext, hsplit]
  simp only [Option.map_some, trim_word, unquote_word]
  rfl

theorem not_dash_key (w : Word) (rest : Bytes) : is_dash (w.1 ++ 58 :: rest) = false := by
  have hdash : bytes "- " = [45, 32] := rfl
  obtain ⟨w, hw⟩ := w
  rw [is_dash, starts_dash, hdash, Bool.or_eq_false_iff, decide_eq_false_iff_not]
  match w, hw with
  | [], _ => exact ⟨rfl, fun h => by cases h⟩
  | [c], _ => exact ⟨by simp [List.isPrefixOf], fun h => by cases h⟩
  | c :: d :: w, hw =>
    have hd : d ≠ 32 := ne_of_plain (hw d (by simp)) (by decide)
    exact ⟨by simp [List.isPrefixOf, Ne.symm hd], fun h => by cases h⟩

theorem key_text_shape (key : Word) (v : Value) : ∃ rest, key_text key v = key.1 ++ 58 :: rest := by
  cases v with
  | scalar text => exact ⟨32 :: text.1, List.append_assoc ..⟩
  | seq _ _ => exact ⟨[], rfl⟩
  | map _ _ => exact ⟨[], rfl⟩

theorem dash_line (rest : Bytes) : is_dash (bytes "- " ++ rest) = true ∧ dash_rest (bytes "- " ++ rest) = rest := by
  have hdash : bytes "- " = [45, 32] := rfl
  refine ⟨by simp [is_dash, starts_dash, hdash, List.isPrefixOf], ?_⟩
  have hne : bytes "- " ++ rest ≠ bytes "-" := fun h => by cases h
  rw [dash_rest, if_neg hne, hdash]
  rfl

/-- A plain word behind a dash is a scalar. -/
theorem inline_kv_word (item : Word) : inline_kv item.1 = false := by
  have hcolon : 58 ∉ item.1 := fun h => ne_of_plain (item.2 58 h) (by decide) rfl
  have hfind : ¬ bytes ": " <:+: item.1 := fun h => hcolon (h.subset (by decide))
  have hlast : item.1.getLast? ≠ some 58 := fun h => hcolon (List.mem_of_mem_getLast? h)
  simp [inline_kv, findSub?_eq_none.2 hfind, hlast]

/-! ## The parser on a block -/

section
variable {lines : List Line}

/-- Unless the fuel runs out, the result is `a` and the cursor stands at `pos`. -/
def Parses {α : Type} (x : Except ParseError (α × Parser)) (a : α) (pos : Nat) : Prop :=
  x = .error .fuel ∨ ∃ p, x = .ok (a, p) ∧ p.pos = pos

theorem Parses.bind {α β : Type} {x : Except ParseError (α × Parser)} {k : α × Parser → Except ParseError (β × Parser)}
    {a : α} {b : β} {i j : Nat} (hx : Parses x a i) (hk : ∀ p : Parser, p.pos = i → Parses (k (a, p)) b j) :
    Parses (x >>= k) b j := by
  rcases hx with rfl | ⟨p, rfl, hp⟩
  · exact .inl rfl
  · exact hk p hp

theorem parse_map_take {fuel indent : Nat} {n : Entries} {p : Parser} {l : Line} (hl : lines[p.pos]? = some l)
    (hi : l.indent = indent) (hd : is_dash l.text = false) :
    parse_map lines (fuel + 1) indent n p =
      parse_kv_into lines fuel n l.text p.take >>= fun r => parse_map lines fuel indent r.1 r.2 := by
  rw [parse_map]
  simp [hl, hi, hd]

theorem parse_map_stop {fuel indent : Nat} {n : Entries} {p : Parser}
    (h : ∀ l, lines[p.pos]? = some l → l.indent ≠ indent) : parse_map lines (fuel + 1) indent n p = .ok (.map n, p) := by
  rw [parse_map]
  cases hl : lines[p.pos]? with
  | none => rfl
  | some l => simp [h l hl]

theorem parse_seq_take {fuel indent : Nat} {items : List Node} {p : Parser} {l : Line} (hl : lines[p.pos]? = some l)
    (hi : l.indent = indent) (hd : is_dash l.text = true) :
    parse_seq lines (fuel + 1) indent items p =
      parse_item lines fuel indent (dash_rest l.text) p.take >>= fun r =>
        parse_seq lines fuel indent (items ++ [r.1]) r.2 := by
  rw [parse_seq]
  simp [hl, hi, hd]

theorem parse_seq_stop {fuel indent : Nat} {items : List Node} {p : Parser}
    (h : ∀ l, lines[p.pos]? = some l → ¬ (l.indent = indent ∧ is_dash l.text = true)) :
    parse_seq lines (fuel + 1) indent items p = .ok (.seq items, p) := by
  rw [parse_seq]
  cases hl : lines[p.pos]? with
  | none => rfl
  | some l => exact if_neg (h l hl)

theorem parse_kv_scalar {fuel : Nat} {n : Entries} {text key val : Bytes} {p : Parser}
    (hsplit : split_kv text = some (key, val)) (hval : val ≠ []) :
    parse_kv_into lines (fuel + 1) n text p = .ok (assign key (.scalar (unquote val)) n, p) := by
  rw [parse_kv_into]
  simp [hsplit, hval]

/-- A key without a value gets the block that the next line starts. -/
theorem parse_kv_child {fuel : Nat} {n : Entries} {text key : Bytes} {p : Parser} {l : Line}
    (hsplit : split_kv text = some (key, [])) (hl : lines[p.pos]? = some l) (hc : starts_child l = true) :
    parse_kv_into lines (fuel + 1) n text p =
      (if is_dash l.text then parse_seq lines fuel l.indent [] p else parse_map lines fuel l.indent [] p) >>= fun r =>
        .ok (assign key r.1 n, r.2) := by
  rw [parse_kv_into]
  cases hd : is_dash l.text <;> simp [hsplit, hl, hc, hd] <;> rfl

theorem parse_item_scalar {fuel indent : Nat} {rest : Bytes} {p : Parser} (hrest : rest ≠ []) (hkv : inline_kv rest = false) :
    Parses (parse_item lines fuel indent rest p) (.scalar (unquote (trim rest))) p.pos := by
  cases fuel with
  | zero => exact .inl (by rw [parse_item])
  | succ fuel =>
    refine .inr ⟨p, ?_, rfl⟩
    rw [parse_item]
    simp [hrest, hkv]

/-- What stands at the cursor. -/
theorem line_at {p : Parser} {rest : List Line} (h : lines.drop p.pos = rest) : lines[p.pos]? = rest.head? := by
  rw [← h, List.head?_drop]

theorem drop_take {p : Parser} {l : Line} {rest : List Line} (h : lines.drop p.pos = l :: rest) :
    lines.drop p.take.pos = rest := by
  have htail := congrArg List.tail h
  rwa [List.tail_drop] at htail

theorem parse_dash_lines (rests : List Bytes) (hrests : ∀ rest ∈ rests, rest ≠ [] ∧ inline_kv rest = false)
    {fuel indent : Nat} {acc : List Node} {p : Parser} {tail : List Line}
    (hp : lines.drop p.pos = (rests.map fun rest => ⟨indent, bytes "- " ++ rest⟩) ++ tail)
    (htail : ∀ l, tail.head? = some l → ¬ (l.indent = indent ∧ is_dash l.text = true)) :
    Parses (parse_seq lines fuel indent acc p) (.seq (acc ++ rests.map fun rest => .scalar (unquote (trim rest))))
      (p.pos + rests.length) := by
  induction rests generalizing fuel acc p with
  | nil =>
    cases fuel with
    | zero => exact .inl (by rw [parse_seq])
    | succ fuel =>
      refine .inr ⟨p, ?_, rfl⟩
      rw [List.map_nil, List.append_nil]
      exact parse_seq_stop fun l hl => htail l ((line_at hp).symm.trans hl)
  | cons rest rests ih =>
    cases fuel with
    | zero => exact .inl (by rw [parse_seq])
    | succ fuel =>
      obtain ⟨hdash, hrest⟩ := dash_line rest
      obtain ⟨hne, hkv⟩ := hrests rest List.mem_cons_self
      rw [parse_seq_take (line_at hp) rfl hdash, hrest]
      refine (parse_item_scalar hne hkv).bind fun q hq => ?_
      have hq' : lines.drop q.pos = (rests.map fun rest => ⟨indent, bytes "- " ++ rest⟩) ++ tail := by
        rw [hq]
        exact drop_take hp
      have h : Parses (parse_seq lines fuel indent (acc ++ [.scalar (unquote (trim rest))]) q) _ _ :=
        ih (fun x hx => hrests x (List.mem_cons_of_mem _ hx)) hq'
      have hpos : p.pos + (rest :: rests).length = q.pos + rests.length := by
        have htake : p.take.pos = p.pos + 1 := rfl
        rw [List.length_cons]
        omega
      rw [hpos]
      simpa using h

theorem parse_items (items : List Word) (hitems : ∀ item ∈ items, item.1 ≠ []) {fuel indent : Nat} {acc : List Node}
    {p : Parser} {tail : List Line}
    (hp : lines.drop p.pos = (items.map fun item => ⟨indent, bytes "- " ++ item.1⟩) ++ tail)
    (htail : ∀ l, tail.head? = some l → l.indent < indent) :
    Parses (parse_seq lines fuel indent acc p) (.seq (acc ++ items.map fun item => .scalar item.1))
      (p.pos + items.length) := by
  have h : Parses (parse_seq lines fuel indent acc p) _ _ :=
    parse_dash_lines (items.map Subtype.val) (fun rest hrest => ?_) (by simpa [Function.comp_def] using hp)
      fun l hl hc => absurd hc.1 (ne_of_lt (htail l hl))
  · have hnodes : (items.map Subtype.val).map (fun rest => Node.scalar (unquote (trim rest))) =
        items.map fun item => .scalar item.1 := by
      rw [List.map_map]
      exact List.map_congr_left fun item _ => by rw [Function.comp, trim_word, unquote_word]
    rwa [hnodes, List.length_map] at h
  · obtain ⟨item, hitem, rfl⟩ := List.mem_map.1 hrest
    exact ⟨hitems item hitem, inline_kv_word item⟩

/-- The keys of a mapping are different texts. -/
theorem nodes_keys (entries : List (Word × Value)) : (nodes entries).map Prod.fst = entries.map fun e => e.1.1 := by
  induction entries with
  | nil => rfl
  | cons e entries ih => rw [nodes, List.map_cons, List.map_cons, ih]

theorem nodes_nodup {entries : List (Word × Value)} (h : (entries.map Prod.fst).Nodup) :
    ((nodes entries).map Prod.fst).Nodup := by
  have hkeys : (nodes entries).map Prod.fst = (entries.map Prod.fst).map Subtype.val := by
    rw [nodes_keys, List.map_map]
    rfl
  rw [hkeys]
  exact List.Nodup.map Subtype.val_injective h

/-- The line of a key starts a block, and a mapping. -/
theorem key_line_child (indent : Nat) (key : Word) (v : Value) (h : 0 < indent) :
    starts_child ⟨indent, key_text key v⟩ = true ∧ is_dash (key_text key v) = false := by
  obtain ⟨rest, hrest⟩ := key_text_shape key v
  have hdash : is_dash (key_text key v) = false := by
    rw [hrest]
    exact not_dash_key key rest
  have hsplit : ∃ kv, split_colon false false (key_text key v) = some kv := by
    cases v with
    | scalar text =>
      obtain ⟨kv, hkv, -⟩ := Option.map_eq_some_iff.1 (split_kv_scalar key text)
      exact ⟨kv, hkv⟩
    | seq _ _ =>
      obtain ⟨kv, hkv, -⟩ := Option.map_eq_some_iff.1 (split_kv_block key)
      exact ⟨kv, hkv⟩
    | map _ _ =>
      obtain ⟨kv, hkv, -⟩ := Option.map_eq_some_iff.1 (split_kv_block key)
      exact ⟨kv, hkv⟩
  obtain ⟨kv, hkv⟩ := hsplit
  exact ⟨by simp [starts_child, h, looks_like_kv_of_split hkv], hdash⟩

mutual

theorem parse_under : (v : Value) → v.Wf → ∀ {fuel indent : Nat} {key : Word} {n : Entries} {p : Parser}
    {tail : List Line}, lines.drop p.pos = v.under indent ++ tail →
    (∀ l, tail.head? = some l → l.indent ≤ indent) →
    Parses (parse_kv_into lines fuel n (key_text key v) p) (assign key.1 v.node n) (p.pos + (v.under indent).length)
  | _, _, 0, _, _, _, _, _, _, _ => .inl (by rw [parse_kv_into])
  | .scalar text, hv, fuel + 1, indent, key, n, p, tail, hp, htail => by
    refine .inr ⟨p, ?_, by rw [Value.under]; rfl⟩
    rw [key_text, parse_kv_scalar (split_kv_scalar key text) (by rwa [Value.Wf] at hv), unquote_word, Value.node]
  | .seq extra items, hv, fuel + 1, indent, key, n, p, tail, hp, htail => by
    rw [Value.Wf] at hv
    rw [Value.under] at hp
    have hindent : ∀ l, tail.head? = some l → l.indent < indent + extra + 1 := fun l hl => by
      have := htail l hl
      omega
    -- the items are indented more than the key, and what follows is not
    have hseq : Parses (parse_seq lines fuel _ [] p) _ _ := parse_items items hv.2 hp hindent
    obtain ⟨item, items', rfl⟩ := List.exists_cons_of_ne_nil hv.1
    have hdash : is_dash (bytes "- " ++ item.1) = true := (dash_line item.1).1
    have hchild : starts_child ⟨indent + extra + 1, bytes "- " ++ item.1⟩ = true := by
      simp [starts_child, hdash]
    rw [key_text, parse_kv_child (split_kv_block key) (line_at hp) hchild, if_pos hdash]
    refine hseq.bind fun q hq => .inr ⟨q, ?_, by rw [hq, Value.under, List.length_map]⟩
    rw [Value.node]
    rfl
  | .map extra entries, hv, fuel + 1, indent, key, n, p, tail, hp, htail => by
    rw [Value.Wf] at hv
    rw [Value.under] at hp
    have hindent : ∀ l, tail.head? = some l → l.indent < indent + extra + 1 := fun l hl => by
      have := htail l hl
      omega
    have hmap : Parses (parse_map lines fuel _ [] p) _ _ := parse_block_lines entries hv.2.2 hp hindent
    obtain ⟨⟨key', v⟩, entries', rfl⟩ := List.exists_cons_of_ne_nil hv.1
    obtain ⟨hchild, hdash⟩ := key_line_child (indent + extra + 1) key' v (Nat.succ_pos _)
    have hline : lines[p.pos]? = some ⟨indent + extra + 1, key_text key' v⟩ := by
      rw [line_at hp, block_lines]
      rfl
    rw [key_text, parse_kv_child (split_kv_block key) hline hchild, if_neg (by simp [hdash])]
    refine hmap.bind fun q hq => .inr ⟨q, ?_, by rw [hq, Value.under]⟩
    rw [Value.node, ← foldl_assign (nodes_nodup hv.2.1)]

theorem parse_block_lines : (entries : List (Word × Value)) → EntriesWf entries → ∀ {fuel indent : Nat} {n : Entries}
    {p : Parser} {tail : List Line}, lines.drop p.pos = block_lines indent entries ++ tail →
    (∀ l, tail.head? = some l → l.indent < indent) →
    Parses (parse_map lines fuel indent n p) (.map ((nodes entries).foldl (fun m e => assign e.1 e.2 m) n))
      (p.pos + (block_lines indent entries).length)
  | _, _, 0, _, _, _, _, _, _ => .inl (by rw [parse_map])
  | [], _, fuel + 1, indent, n, p, tail, hp, htail => by
    refine .inr ⟨p, ?_, by rw [block_lines]; rfl⟩
    rw [block_lines, List.nil_append] at hp
    exact parse_map_stop fun l hl => ne_of_lt (htail l ((line_at hp).symm.trans hl))
  | (key, v) :: entries, hv, fuel + 1, indent, n, p, tail, hp, htail => by
    rw [EntriesWf] at hv
    rw [block_lines, List.cons_append, List.cons_append, List.append_assoc] at hp
    obtain ⟨rest, hrest⟩ := key_text_shape key v
    have hdash : is_dash (key_text key v) = false := by
      rw [hrest]
      exact not_dash_key key rest
    -- the next key of the block has this indent, what follows the block has less
    have hnext : ∀ l, (block_lines indent entries ++ tail).head? = some l → l.indent ≤ indent := by
      intro l hl
      cases entries with
      | nil =>
        rw [block_lines, List.nil_append] at hl
        exact (htail l hl).le
      | cons e entries =>
        rw [block_lines, List.cons_append, List.cons_append, List.head?_cons] at hl
        exact le_of_eq (congrArg Line.indent (Option.some.inj hl)).symm
    rw [parse_map_take (line_at hp) rfl hdash]
    refine (parse_under v hv.1 (drop_take hp) hnext).bind fun q hq => ?_
    have hq' : lines.drop q.pos = block_lines indent entries ++ tail := by
      rw [hq, ← List.drop_drop, drop_take hp, List.drop_left]
    have h : Parses (parse_map lines fuel indent (assign key.1 v.node n) q) _ _ := parse_block_lines entries hv.2 hq' htail
    have hpos : p.pos + (block_lines indent ((key, v) :: entries)).length =
        q.pos + (block_lines indent entries).length := by
      have htake : p.take.pos = p.pos + 1 := rfl
      rw [block_lines, List.cons_append, List.length_cons, List.length_append]
      omega
    rw [hpos, nodes, List.foldl_cons]
    exact h

end

end

/-! ## The lines of the file -/

/-- What every line of block style has in common. -/
structure Written (l : Line) : Prop where
  chars : ∀ c ∈ l.text, plain c = true ∨ c = 58 ∨ c = 32
  head : l.text.head? ≠ some 32
  last : l.text.getLast? ≠ some 32
  mark : 58 ∈ l.text ∨ 32 ∈ l.text

/-- A character of a line, other than a space, is one of the few the writer uses. -/
theorem Written.ne {l : Line} (h : Written l) {c d : UInt8} (hc : c ∈ l.text)
    (hd : plain d = false ∧ d ≠ 58 ∧ d ≠ 32) : c ≠ d := by
  rintro rfl
  rcases h.chars c hc with hp | rfl | rfl
  · exact ne_of_plain hp hd.1 rfl
  · exact hd.2.1 rfl
  · exact hd.2.2 rfl

theorem Written.isspace {l : Line} (h : Written l) {c : UInt8} (hc : c ∈ l.text) (hne : c ≠ 32) : isspace c = false := by
  rcases h.chars c hc with hp | rfl | rfl
  · exact isspace_of_plain hp
  · rfl
  · exact absurd rfl hne

theorem Written.raw_ne {l : Line} (h : Written l) {c d : UInt8} (hc : c ∈ l.raw)
    (hd : plain d = false ∧ d ≠ 58 ∧ d ≠ 32) : c ≠ d := by
  rcases List.mem_append.1 hc with hc | hc
  · rw [List.eq_of_mem_replicate hc]
    exact Ne.symm hd.2.2
  · exact h.ne hc hd

/-- A line of spaces and a text that needs no trimming and is not cut at a comment. -/
theorem read_line_text (path : Bytes) {indent : Nat} {text : Bytes}
    (hstrip : strip_comment (List.replicate indent 32 ++ text) = List.replicate indent 32 ++ text)
    (hhead : ∀ c, text.head? = some c → isspace c = false ∧ c ≠ 38 ∧ c ≠ 42 ∧ c ≠ 60)
    (hlast : ∀ c, text.getLast? = some c → isspace c = false)
    (hmark : text ≠ [] ∧ text ≠ bytes "---" ∧ text ≠ bytes "...") :
    read_line path (List.replicate indent 32 ++ text) = .ok (some ⟨indent, text⟩) := by
  have htrim : trim (strip_comment (List.replicate indent 32 ++ text)) = text := by
    rw [hstrip, trim_spaces]
    exact trim_id (fun c hc => (hhead c hc).1) hlast
  obtain ⟨c, rest, rfl⟩ := List.exists_cons_of_ne_nil hmark.1
  obtain ⟨hc, hamp, hstar, hless⟩ := hhead c rfl
  have hspace : c ≠ 32 := fun he => by simp [he, isspace] at hc
  have hindent : (List.replicate indent (32 : UInt8) ++ c :: rest).takeWhile (· = 32) = List.replicate indent 32 := by
    rw [List.takeWhile_append_of_pos (by simp), List.takeWhile_cons_of_neg (by simpa using hspace), List.append_nil]
  -- a tab stands behind the spaces that count
  have htab : ¬ (List.replicate indent (32 : UInt8) ++ c :: rest).idxOf 9 < indent := by
    rw [List.idxOf_append_of_notMem (by simp), List.length_replicate]
    omega
  have hprefix (d : UInt8) (hd : c ≠ d) (s : Bytes) : (d :: s).isPrefixOf (c :: rest) = false := by
    simp [List.isPrefixOf, hd.symm]
  have h₁ : (bytes "&").isPrefixOf (c :: rest) = false := hprefix 38 hamp []
  have h₂ : (bytes "*").isPrefixOf (c :: rest) = false := hprefix 42 hstar []
  have h₃ : (bytes "<<:").isPrefixOf (c :: rest) = false := hprefix 60 hless [60, 58]
  rw [read_line]
  dsimp only
  rw [htrim, if_neg hmark.1, if_neg (not_or.2 hmark.2), hindent, List.length_replicate]
  simp [h₁, h₂, h₃, htab]

theorem read_line_written (path : Bytes) {l : Line} (h : Written l) : read_line path l.raw = .ok (some l) := by
  obtain ⟨indent, text⟩ := l
  have hstrip : strip_comment (List.replicate indent 32 ++ text) = List.replicate indent 32 ++ text :=
    strip_comment_from_id (fun hc => h.raw_ne hc (by decide) rfl) false false true
  have hmark (s : Bytes) (hs : 58 ∉ s ∧ 32 ∉ s) : text ≠ s := by
    rintro rfl
    exact h.mark.elim hs.1 hs.2
  refine read_line_text path hstrip (fun c hc => ?_) (fun c hc => ?_)
    ⟨hmark _ (by decide), hmark _ (by decide), hmark _ (by decide)⟩
  · have hmem := List.mem_of_mem_head? hc
    exact ⟨h.isspace hmem fun he => h.head (he ▸ hc), h.ne hmem (by decide), h.ne hmem (by decide), h.ne hmem (by decide)⟩
  · exact h.isspace (List.mem_of_mem_getLast? hc) fun he => h.last (he ▸ hc)

/-- A line made of two words and a mark between them. -/
theorem written_parts {indent : Nat} {a t : Word} {mid : Bytes}
    (hchars : (mid.all fun c => plain c || c == 58 || c == 32) = true)
    (hhead : mid.head? ≠ some 32) (hlast : t.1 = [] → mid.getLast? ≠ some 32) (hmark : 58 ∈ mid ∨ 32 ∈ mid) :
    Written ⟨indent, a.1 ++ mid ++ t.1⟩ := by
  have hspace (w : Word) : 32 ∉ w.1 := fun hc => ne_of_plain (w.2 32 hc) (by decide) rfl
  have hmid : mid ≠ [] := by
    rintro rfl
    simp at hmark
  constructor
  · intro c hc
    rcases List.mem_append.1 hc with hc | hc
    · refine (List.mem_append.1 hc).elim (fun hc => .inl (a.2 c hc)) fun hc => ?_
      simpa [or_assoc] using List.all_eq_true.1 hchars c hc
    · exact .inl (t.2 c hc)
  · intro h
    cases ha : a.1 with
    | nil =>
      obtain ⟨c, mid', rfl⟩ := List.exists_cons_of_ne_nil hmid
      rw [ha] at h
      exact hhead h
    | cons c a' =>
      rw [ha] at h
      exact hspace a (ha ▸ Option.some.inj h ▸ List.mem_cons_self)
  · intro h
    by_cases ht : t.1 = []
    · rw [ht, List.append_nil, List.getLast?_append_of_ne_nil _ hmid] at h
      exact hlast ht h
    · rw [List.getLast?_append_of_ne_nil _ ht] at h
      exact hspace t (List.mem_of_mem_getLast? h)
  · exact hmark.imp (fun h => by simp [h]) fun h => by simp [h]

theorem key_line_written (indent : Nat) (key : Word) (v : Value) (hv : v.Wf) : Written ⟨indent, key_text key v⟩ := by
  have hblock : Written ⟨indent, key.1 ++ bytes ":"⟩ := by
    have h : Written ⟨indent, key.1 ++ bytes ":" ++ []⟩ :=
      written_parts (t := ⟨[], by simp⟩) (by decide) (by decide) (fun _ => by decide) (by decide)
    rwa [List.append_nil] at h
  cases v with
  | scalar text =>
    rw [Value.Wf] at hv
    exact written_parts (by decide) (by decide) (fun h => absurd h hv) (by decide)
  | seq _ _ => exact hblock
  | map _ _ => exact hblock

mutual

theorem under_written : (v : Value) → v.Wf → ∀ indent, ∀ l ∈ v.under indent, Written l
  | .scalar _, _, indent, l, hl => by
    rw [Value.under] at hl
    cases hl
  | .seq extra items, hv, indent, l, hl => by
    rw [Value.under] at hl
    rw [Value.Wf] at hv
    obtain ⟨item, hitem, rfl⟩ := List.mem_map.1 hl
    exact written_parts (a := ⟨[], by simp⟩) (by decide) (by decide) (fun h => absurd h (hv.2 item hitem)) (by decide)
  | .map extra entries, hv, indent, l, hl => by
    rw [Value.under] at hl
    rw [Value.Wf] at hv
    exact block_lines_written entries hv.2.2 _ l hl

theorem block_lines_written : (entries : List (Word × Value)) → EntriesWf entries →
    ∀ indent, ∀ l ∈ block_lines indent entries, Written l
  | [], _, indent, l, hl => by
    rw [block_lines] at hl
    cases hl
  | (key, v) :: entries, hv, indent, l, hl => by
    rw [EntriesWf] at hv
    rw [block_lines, List.cons_append, List.mem_cons, List.mem_append] at hl
    rcases hl with rfl | hl | hl
    · exact key_line_written indent key v hv.1
    · exact under_written v hv.1 indent l hl
    · exact block_lines_written entries hv.2 indent l hl

end

/-! ## The file -/

/-- The lines of the file, and an empty piece after a final newline. -/
theorem splitAt_file (ended : Bool) {lines : List Line} (hne : lines ≠ []) (h : ∀ l ∈ lines, Written l) :
    splitAt (· = 10) (file_text ended lines) = lines.map Line.raw ++ if ended then [[]] else [] := by
  have hline {l : Line} (hl : Written l) : ∀ c ∈ l.raw, decide (c = 10) = false := fun c hc =>
    decide_eq_false (hl.raw_ne hc (by decide))
  induction lines with
  | nil => exact absurd rfl hne
  | cons l lines ih =>
    have hl := hline (h l List.mem_cons_self)
    cases lines with
    | nil =>
      cases ended with
      | false =>
        have htext : file_text false [l] = l.raw := by simp [file_text]
        rw [htext, splitAt_none hl]
        rfl
      | true => exact splitAt_append hl rfl []
    | cons l' lines =>
      rw [file_text, splitAt_append hl rfl, ih (List.cons_ne_nil _ _) fun x hx => h x (List.mem_cons_of_mem _ hx)]
      · rfl
      · exact List.cons_ne_nil _ _

theorem getlines_file (ended : Bool) {lines : List Line} (hne : lines ≠ []) (h : ∀ l ∈ lines, Written l) :
    getlines (file_text ended lines) = lines.map Line.raw := by
  rw [getlines, splitAt_file ended hne h]
  cases ended with
  | true => simp
  | false =>
    have hlast : (lines.map Line.raw).getLast? ≠ some [] := by
      intro hc
      obtain ⟨l, hl, hraw⟩ := List.mem_map.1 (List.mem_of_mem_getLast? hc)
      have hempty : l.text = [] := (List.append_eq_nil_iff.1 hraw).2
      have hmark := (h l hl).mark
      rw [hempty] at hmark
      simp at hmark
    simp only [Bool.false_eq_true, if_false, List.append_nil, if_neg hlast]

theorem read_lines_file (path : Bytes) (ended : Bool) {lines : List Line} (hne : lines ≠ []) (h : ∀ l ∈ lines, Written l) :
    read_lines path (some (file_text ended lines)) = .ok lines := by
  have hmap : (lines.map Line.raw).mapM (read_line path) = .ok (lines.map some) := by
    clear hne
    induction lines with
    | nil => rfl
    | cons l lines ih =>
      rw [List.map_cons, List.mapM_cons, read_line_written path (h l List.mem_cons_self),
        ih fun x hx => h x (List.mem_cons_of_mem _ hx)]
      rfl
  rw [read_lines, getlines_file ended hne h, hmap]
  have hid : (lines.map some).filterMap id = lines := by simp
  exact congrArg Except.ok hid

def word (s : String) (h : (bytes s).all plain = true) : Word := ⟨bytes s, List.all_eq_true.1 h⟩

end Hostely.Apps
