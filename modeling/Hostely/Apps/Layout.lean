import Hostely.Apps.LoadCompose
import Mathlib.Data.List.Range
/-!
# Which files the parser reads whole

The parser reads some files only up to a line that none of its open loops
takes, and some lines twice. `layout` goes over the lines once, with the blocks
that are open, and says whether each line finds its block; it also gives the
keys of the mappings with their depth. Where it succeeds, and only there, every
line is parsed once and the cursor ends after the last.
-/

open Hostely.Lib

namespace Hostely.Apps

/-! ## Open blocks -/

/-- A loop of the parser that is running, with the indent of its lines. -/
inductive Block where
  | map (indent : Nat)
  | seq (indent : Nat)
  /-- The further keys of an inline map item. -/
  | item (indent : Nat)
deriving DecidableEq, Repr

def Block.takes : Block → Line → Bool
  | map indent, l => l.indent = indent && !is_dash l.text
  | seq indent, l => l.indent = indent && is_dash l.text
  | item indent, l => l.indent = indent && !starts_dash l.text

/-- The block that a line starts. -/
def Line.block (l : Line) : Block := if is_dash l.text then .seq l.indent else .map l.indent

/-- What the next line may start. -/
inductive Wait where
  | nothing
  /-- The block of a key without a value. -/
  | child
  /-- The block under a dash at this indent. -/
  | deeper (indent : Nat)
deriving DecidableEq, Repr

def Wait.opens : Wait → Line → Bool
  | nothing, _ => false
  | child, l => starts_child l
  | deeper indent, l => indent < l.indent

def wait_for (text : Bytes) : Wait :=
  match split_kv text with
  | some (_, []) => .child
  | _ => .nothing

/-- The open blocks after a dash line of a sequence, from what follows the dash. -/
def after_dash (indent : Nat) (below : List Block) (rest : Bytes) : List Block × Wait :=
  if rest = [] then (.seq indent :: below, .deeper indent)
  else if inline_kv rest then (.item (indent + 2) :: .seq indent :: below, wait_for rest)
  else (.seq indent :: below, .nothing)

/-- The open blocks after a line of the block. A further key of an item must
have its value on the line: the cursor still stands there when the block of the
key is looked for. -/
def Block.read (b : Block) (below : List Block) (l : Line) : Option (List Block × Wait) :=
  match b with
  | map _ => some (b :: below, wait_for l.text)
  | seq indent => some (after_dash indent below (dash_rest l.text))
  | item _ => if wait_for l.text = .child then none else some (b :: below, .nothing)

/-- The keys of mappings, each with the depth of its mapping. -/
abbrev Keys := List (Nat × Bytes)

def Block.keys (b : Block) (below : List Block) (l : Line) : Keys :=
  match b, split_kv l.text with
  | map _, some (key, _) => [(below.length + 1, key)]
  | _, _ => []

/-- Blocks that do not take the line are closed. -/
def layout (blocks : List Block) (w : Wait) : List Line → Option Keys
  | [] => some []
  | l :: lines =>
    match (if w.opens l then l.block :: blocks else blocks).dropWhile fun b => !b.takes l with
    | [] => none
    | b :: below => (b.read below l).bind fun next => (layout next.1 next.2 lines).map (b.keys below l ++ ·)

/-! ## The services of a layout -/

def root_indent (lines : List Line) : Nat := (lines.head?.map Line.indent).getD 0

/-- The keys written under a line: of the lines that follow with more indent, the
ones that are indented like the first of them. -/
def keys_under (indent : Nat) (lines : List Line) : List Bytes :=
  let body := lines.takeWhile (indent < ·.indent)
  (body.filter fun l => some l.indent = body.head?.map Line.indent ∧ !is_dash l.text).filterMap fun l =>
    (split_kv l.text).map Prod.fst

/-- The service keys written in a file, under each `services` key at this indent. -/
def written_services (indent : Nat) : List Line → List Bytes
  | [] => []
  | l :: lines =>
    if l.indent = indent ∧ split_kv l.text = some (bytes "services", []) then
      keys_under indent lines ++ written_services indent lines
    else written_services indent lines

/-- One key: whether it is in the block of the last `services` key so far, and
the keys of that block. -/
def service_key (acc : Bool × List Bytes) (key : Nat × Bytes) : Bool × List Bytes :=
  if key.1 = 1 then if key.2 = bytes "services" then (true, []) else (false, acc.2)
  else if key.1 = 2 ∧ acc.1 then (true, acc.2 ++ [key.2])
  else acc

def service_block (keys : Keys) : List Bytes := (keys.foldl service_key (false, [])).2

/-- Every line finds its block, and every service key written in the file is in
the block of the `services` key that counts. -/
def laid_out (lines : List Line) : Bool :=
  match layout [.map (root_indent lines)] .nothing lines with
  | none => false
  | some keys => (written_services (root_indent lines) lines).all (service_block keys).contains

/-! ## Steps of the layout -/

section Steps
variable {b : Block} {blocks : List Block} {w : Wait} {l : Line} {lines : List Line}

@[simp] theorem Wait.nothing_opens (l : Line) : Wait.nothing.opens l = false := rfl

/-- A line that does not start a block finds the next one that takes it. -/
theorem layout_wait (h : ∀ l, lines.head? = some l → w.opens l = false) :
    layout blocks w lines = layout blocks .nothing lines := by
  cases lines with
  | nil => rfl
  | cons l lines => simp [layout, h l rfl]

theorem layout_opens (h : w.opens l = true) :
    layout blocks w (l :: lines) = layout (l.block :: blocks) .nothing (l :: lines) := by
  simp [layout, h]

theorem layout_pop (h : ∀ l, lines.head? = some l → b.takes l = false) :
    layout (b :: blocks) .nothing lines = layout blocks .nothing lines := by
  cases lines with
  | nil => rfl
  | cons l lines => simp [layout, h l rfl]

theorem layout_take (h : b.takes l = true) :
    layout (b :: blocks) .nothing (l :: lines) =
      (b.read blocks l).bind fun next => (layout next.1 next.2 lines).map (b.keys blocks l ++ ·) := by
  simp [layout, h]

end Steps

/-! ## The parser follows the layout -/

section
variable {lines : List Line}

/-- The lines from one cursor to the other were parsed, each once. -/
structure Reads (lines : List Line) (p p' : Parser) : Prop where
  pos : p.pos ≤ p'.pos
  parsed : p'.parsed = p.parsed ++ List.range' p.pos (p'.pos - p.pos)
  bound : p.pos ≤ lines.length → p'.pos ≤ lines.length

theorem Reads.refl (p : Parser) : Reads lines p p := ⟨le_rfl, by simp, id⟩

theorem Reads.trans {p q r : Parser} (h₁ : Reads lines p q) (h₂ : Reads lines q r) : Reads lines p r := by
  refine ⟨h₁.pos.trans h₂.pos, ?_, fun h => h₂.bound (h₁.bound h)⟩
  have hq := h₁.pos
  have hr := h₂.pos
  have hsplit : r.pos - p.pos = (q.pos - p.pos) + (r.pos - q.pos) := by omega
  have hmid : p.pos + (q.pos - p.pos) = q.pos := by omega
  rw [h₂.parsed, h₁.parsed, List.append_assoc, hsplit, ← List.range'_append_1, hmid]

theorem Reads.take {p : Parser} {l : Line} (h : lines[p.pos]? = some l) : Reads lines p p.take := by
  have hlt := (List.getElem?_eq_some_iff.1 h).1
  refine ⟨Nat.le_succ _, ?_, fun _ => hlt⟩
  have hone : p.pos + 1 - p.pos = 1 := by omega
  simp [Parser.take, hone]

/-- Some line was parsed twice. -/
def Twice (lines : List Line) (p : Parser) : Prop := ∃ n, n < lines.length ∧ 2 ≤ p.parsed.count n

theorem Twice.later {p p' : Parser} (h : Twice lines p) (hp : Later p p') : Twice lines p' := by
  obtain ⟨n, hn, hcount⟩ := h
  exact ⟨n, hn, hcount.trans (hp.parsed.sublist.count_le n)⟩

/-- A part of the parser and the layout go from one cursor to the other and
close the blocks above `blocks'`, with keys as `Q` says; or a line was parsed
twice and the layout fails. -/
def Tracked (lines : List Line) (blocks : List Block) (w : Wait) (blocks' : List Block) (Q : Keys → Prop)
    (p p' : Parser) : Prop :=
  (∃ keys, Q keys ∧ Reads lines p p' ∧
    layout blocks w (lines.drop p.pos) = (layout blocks' .nothing (lines.drop p'.pos)).map (keys ++ ·)) ∨
  (Twice lines p' ∧ layout blocks w (lines.drop p.pos) = none)

theorem head_drop {p : Parser} {P : Line → Prop} (h : ∀ l, lines[p.pos]? = some l → P l) (l : Line)
    (hl : (lines.drop p.pos).head? = some l) : P l := by
  rw [List.head?_drop] at hl
  exact h l hl

theorem drop_cons {p : Parser} {l : Line} (h : lines[p.pos]? = some l) :
    lines.drop p.pos = l :: lines.drop (p.pos + 1) := by
  obtain ⟨hlt, rfl⟩ := List.getElem?_eq_some_iff.1 h
  exact List.drop_eq_getElem_cons hlt

section Tracked
variable {b : Block} {blocks blocks' blocks'' : List Block} {w : Wait} {Q Q₁ Q₂ : Keys → Prop} {p p' p₁ : Parser} {l : Line}

theorem Tracked.refl (hQ : Q []) : Tracked lines blocks .nothing blocks Q p p := by
  refine .inl ⟨[], hQ, Reads.refl p, ?_⟩
  simp

/-- The loop of the block on top ends. -/
theorem Tracked.pop (h : ∀ l, lines[p.pos]? = some l → b.takes l = false) (hQ : Q []) :
    Tracked lines (b :: blocks) .nothing blocks Q p p := by
  refine .inl ⟨[], hQ, Reads.refl p, ?_⟩
  rw [layout_pop (head_drop h)]
  simp

theorem Tracked.trans (h₁ : Tracked lines blocks w blocks' Q₁ p p₁) (hp : Later p₁ p')
    (h₂ : Tracked lines blocks' .nothing blocks'' Q₂ p₁ p') (hQ : ∀ a b, Q₁ a → Q₂ b → Q (a ++ b)) :
    Tracked lines blocks w blocks'' Q p p' := by
  rcases h₁ with ⟨a, ha, hread, hlay⟩ | ⟨htwice, hlay⟩
  · rcases h₂ with ⟨b, hb, hread', hlay'⟩ | ⟨htwice, hlay'⟩
    · -- the keys of the first part stand before those of the second
      refine .inl ⟨a ++ b, hQ a b ha hb, hread.trans hread', ?_⟩
      rw [hlay, hlay', Option.map_map]
      congr 1
      funext keys
      simp
    · exact .inr ⟨htwice, by rw [hlay, hlay']; rfl⟩
  · exact .inr ⟨htwice.later hp, hlay⟩

/-- The next line starts no block. -/
theorem Tracked.wait (h : ∀ l, lines[p.pos]? = some l → w.opens l = false)
    (ht : Tracked lines blocks .nothing blocks' Q p p') : Tracked lines blocks w blocks' Q p p' := by
  unfold Tracked at ht ⊢
  rwa [layout_wait (head_drop h)]

/-- The next line starts its block. -/
theorem Tracked.opens (hl : lines[p.pos]? = some l) (h : w.opens l = true)
    (ht : Tracked lines (l.block :: blocks) .nothing blocks' Q p p') : Tracked lines blocks w blocks' Q p p' := by
  unfold Tracked at ht ⊢
  rw [drop_cons hl] at ht ⊢
  rwa [layout_opens h]

/-- The block on top takes the next line. -/
theorem Tracked.take {next : List Block × Wait} (hl : lines[p.pos]? = some l) (h : b.takes l = true)
    (hread : b.read blocks l = some next) (ht : Tracked lines next.1 next.2 blocks' Q₁ p.take p')
    (hQ : ∀ keys, Q₁ keys → Q (b.keys blocks l ++ keys)) : Tracked lines (b :: blocks) .nothing blocks' Q p p' := by
  have hlayout : layout (b :: blocks) .nothing (lines.drop p.pos) =
      (layout next.1 next.2 (lines.drop p.take.pos)).map (b.keys blocks l ++ ·) := by
    rw [drop_cons hl, layout_take h, hread]
    rfl
  rcases ht with ⟨keys, hkeys, hr, hlay⟩ | ⟨htwice, hlay⟩
  · refine .inl ⟨b.keys blocks l ++ keys, hQ keys hkeys, (Reads.take hl).trans hr, ?_⟩
    rw [hlayout, hlay, Option.map_map]
    congr 1
    funext rest
    simp
  · exact .inr ⟨htwice, by rw [hlayout, hlay]; rfl⟩

theorem Tracked.mono (hQ : ∀ keys, Q₁ keys → Q keys) (h : Tracked lines blocks w blocks' Q₁ p p') :
    Tracked lines blocks w blocks' Q p p' :=
  h.imp_left fun ⟨keys, hkeys, h⟩ => ⟨keys, hQ keys hkeys, h⟩

end Tracked

/-! ## What is tracked through the recursion -/

/-- Only keys below this depth. -/
def Below (depth : Nat) (keys : Keys) : Prop := ∀ k ∈ keys, depth < k.1

theorem Below.nil (depth : Nat) : Below depth [] := fun _ hk => by cases hk

theorem Below.append {depth : Nat} {a b : Keys} (ha : Below depth a) (hb : Below depth b) : Below depth (a ++ b) :=
  fun k hk => (List.mem_append.1 hk).elim (ha k) (hb k)

theorem Below.mono {d e : Nat} {keys : Keys} (hde : d ≤ e) (h : Below e keys) : Below d keys :=
  fun k hk => lt_of_le_of_lt hde (h k hk)

/-- The keys of a mapping are the ones given for its depth. -/
def Holds (depth : Nat) (keys : Keys) (entries : Entries) : Prop :=
  ∀ k, k ∈ entries.map Prod.fst ↔ (depth, k) ∈ keys

/-- What a key without a value gets, beside the keys below the mapping. -/
def Child (depth : Nat) (value : Node) (keys : Keys) : Prop :=
  Below depth keys ∧ ∀ entries, value = .map entries → Holds (depth + 1) keys entries

/-- How each function, with this fuel, follows the layout. -/
structure Follows (lines : List Line) (fuel : Nat) : Prop where
  block : ∀ {p r p' l} (blocks : List Block), lines[p.pos]? = some l → parse_block lines fuel l.indent p = .ok (r, p') →
    Tracked lines (l.block :: blocks) .nothing blocks (Below blocks.length) p p'
  seq : ∀ {indent items p r p'} (blocks : List Block), parse_seq lines fuel indent items p = .ok (r, p') →
    ∃ items', r = .seq items' ∧ Tracked lines (.seq indent :: blocks) .nothing blocks (Below (blocks.length + 1)) p p'
  item : ∀ {indent rest p r p'} (blocks : List Block), parse_item lines fuel indent rest p = .ok (r, p') →
    Tracked lines (after_dash indent blocks rest).1 (after_dash indent blocks rest).2 (.seq indent :: blocks)
      (Below (blocks.length + 1)) p p'
  siblings : ∀ {indent item p r p'} (blocks : List Block), 0 < indent →
    parse_siblings lines fuel indent item p = .ok (r, p') →
    Tracked lines (.item indent :: blocks) .nothing blocks (Below blocks.length) p p'
  kv : ∀ {n text p n' p'} (blocks : List Block), parse_kv_into lines fuel n text p = .ok (n', p') →
    ∃ key val value, split_kv text = some (key, val) ∧ n' = assign key value n ∧
      Tracked lines blocks (wait_for text) blocks (Child blocks.length value) p p'
  map : ∀ {indent n p r p'} (blocks : List Block), parse_map lines fuel indent n p = .ok (r, p') →
    ∃ n', r = .map n' ∧ Tracked lines (.map indent :: blocks) .nothing blocks
      (fun keys => Below blocks.length keys ∧
        ∀ k, k ∈ n'.map Prod.fst ↔ k ∈ n.map Prod.fst ∨ (blocks.length + 1, k) ∈ keys) p p'

/-- A line that splits at a colon starts no sequence. -/
theorem not_dash_of_split {text : Bytes} {kv : Bytes × Bytes} (h : split_kv text = some kv)
    (hdash : starts_dash text = false) : is_dash text = false := by
  unfold is_dash
  rw [hdash, Bool.false_or, decide_eq_false_iff_not]
  rintro rfl
  have hnone : split_kv (bytes "-") = none := by decide
  rw [hnone] at h
  cases h

theorem wait_for_child {text key : Bytes} (h : split_kv text = some (key, [])) : wait_for text = .child := by
  simp [wait_for, h]

theorem wait_for_nothing {text key val : Bytes} (h : split_kv text = some (key, val)) (hval : val ≠ []) :
    wait_for text = .nothing := by
  cases val with
  | nil => exact absurd rfl hval
  | cons c val => simp [wait_for, h]

/-- The line of a further key without a value is read again as the first line of
the block of that key. -/
theorem Twice.sibling {fuel : Nat} {p p' : Parser} {l : Line} {r : Node} (hl : lines[p.pos]? = some l)
    (hdash : is_dash l.text = false) (h : parse_map lines fuel l.indent [] p.look = .ok (r, p')) : Twice lines p' := by
  cases fuel with
  | zero =>
    unfold parse_map at h
    cases h
  | succ fuel =>
    rcases parse_map_ok h with ⟨_, _, hstop⟩ | ⟨l', n, q, _, _, _, hkv, hmap⟩
    · exact absurd ⟨rfl, hdash⟩ (hstop l hl)
    · have hagain : Twice lines p.look.take := by
        refine ⟨p.pos, (List.getElem?_eq_some_iff.1 hl).1, ?_⟩
        simp only [Parser.look, Parser.take, List.count_append, List.count_singleton_self]
        omega
      exact (hagain.later ((parse_later fuel).kv hkv)).later ((parse_later fuel).map hmap)

/-- The loop over the further keys of an item. -/
theorem Follows.further_keys {fuel : Nat} (ih : Follows lines fuel) {indent : Nat} {item : Entries} {p p' : Parser}
    {r : Node} (blocks : List Block) (hpos : 0 < indent)
    (h : parse_siblings lines (fuel + 1) indent item p = .ok (r, p')) :
    Tracked lines (.item indent :: blocks) .nothing blocks (Below blocks.length) p p' := by
  rcases parse_siblings_ok h with ⟨rfl, hstop⟩ | ⟨l, item₁, p₁, hl, hi, hd, hkv, hsib⟩
  · refine Tracked.pop (fun l hl => ?_) (Below.nil _)
    simpa [Block.takes] using hstop l hl
  · have htakes : (Block.item indent).takes l = true := by simp [Block.takes, hi, hd]
    cases fuel with
    | zero =>
      unfold parse_kv_into at hkv
      cases hkv
    | succ fuel =>
      obtain ⟨key, val, hsplit, ⟨hval, _, rfl⟩ | ⟨rfl, _, rfl, hstop⟩ | ⟨rfl, l', child, _, hl', _, hblock⟩⟩ :=
        parse_kv_into_ok hkv
      · have hread : (Block.item indent).read blocks l = some (.item indent :: blocks, .nothing) := by
          simp [Block.read, wait_for_nothing hsplit hval]
        exact Tracked.take hl htakes hread (ih.siblings blocks hpos hsib) fun keys hk => hk
      · -- the line itself starts a block, as far as its key can tell
        obtain ⟨kv, hcolon, -⟩ := Option.map_eq_some_iff.1 hsplit
        have hchild : starts_child l = true := by
          simp [starts_child, hi, hpos, looks_like_kv_of_split hcolon]
        exact absurd (hchild.symm.trans (hstop l hl)) (by decide)
      · obtain rfl := Option.some.inj (hl.symm.trans hl')
        have hmap := not_dash_of_split hsplit hd
        have htwice : Twice lines p₁.skip := by
          rcases hblock with ⟨hseq, _⟩ | ⟨_, h⟩
          · exact absurd (hseq.symm.trans hmap) (by decide)
          · exact (Twice.sibling hl hmap h).later ⟨Nat.le_succ _, List.prefix_rfl⟩
        refine .inr ⟨htwice.later ((parse_later _).siblings hsib), ?_⟩
        rw [drop_cons hl, layout_take htakes]
        simp [Block.read, wait_for_child hsplit]

/-- The loop over the entries of a mapping. -/
theorem Follows.entries {fuel : Nat} (ih : Follows lines fuel) {indent : Nat} {n : Entries} {p p' : Parser} {r : Node}
    (blocks : List Block) (h : parse_map lines (fuel + 1) indent n p = .ok (r, p')) :
    ∃ n', r = .map n' ∧ Tracked lines (.map indent :: blocks) .nothing blocks
      (fun keys => Below blocks.length keys ∧
        ∀ k, k ∈ n'.map Prod.fst ↔ k ∈ n.map Prod.fst ∨ (blocks.length + 1, k) ∈ keys) p p' := by
  rcases parse_map_ok h with ⟨rfl, rfl, hstop⟩ | ⟨l, n₁, p₁, hl, hi, hd, hkv, hmap⟩
  · refine ⟨n, rfl, Tracked.pop (fun l hl => ?_) ⟨Below.nil _, by simp⟩⟩
    simpa [Block.takes] using hstop l hl
  · obtain ⟨key, val, value, hsplit, rfl, hfirst⟩ := ih.kv (.map indent :: blocks) hkv
    obtain ⟨n', hr, hrest⟩ := ih.map blocks hmap
    have hlater := (parse_later fuel).map hmap
    have hboth := hfirst.trans hlater hrest (Q := fun keys => ∃ a b, keys = a ++ b ∧ Child (blocks.length + 1) value a ∧
      Below blocks.length b ∧
      ∀ k, k ∈ n'.map Prod.fst ↔ k ∈ (assign key value n).map Prod.fst ∨ (blocks.length + 1, k) ∈ b)
      fun a b ha hb => ⟨a, b, rfl, ha, hb⟩
    refine ⟨n', hr, Tracked.take hl (by simp [Block.takes, hi, hd]) rfl hboth ?_⟩
    rintro _ ⟨a, b, rfl, ha, hb, hkeys⟩
    have hkey : (Block.map indent).keys blocks l = [(blocks.length + 1, key)] := by simp [Block.keys, hsplit]
    -- the keys of the value are deeper than the key itself
    have hnot (k : Bytes) : (blocks.length + 1, k) ∉ a := fun hk => lt_irrefl _ (ha.1 _ hk)
    rw [hkey]
    constructor
    · refine Below.append ?_ ((ha.1.mono (Nat.le_succ _)).append hb)
      intro k hk
      obtain rfl := List.mem_singleton.1 hk
      exact Nat.lt_succ_self _
    · intro k
      rw [hkeys, keys_assign]
      simp only [List.mem_append, List.mem_singleton, Prod.mk.injEq, true_and, hnot, false_or]
      tauto

theorem parse_follows (fuel : Nat) : Follows lines fuel := by
  induction fuel with
  | zero =>
    constructor
    · intro _ _ _ _ _ _ h
      simp [parse_block] at h
    · intro _ _ _ _ _ _ h
      simp [parse_seq] at h
    · intro _ _ _ _ _ _ h
      simp [parse_item] at h
    · intro _ _ _ _ _ _ _ h
      simp [parse_siblings] at h
    · intro _ _ _ _ _ _ h
      simp [parse_kv_into] at h
    · intro _ _ _ _ _ _ h
      simp [parse_map] at h
  | succ fuel ih =>
    constructor
    case block =>
      intro p r p' l blocks hl h
      rcases parse_block_ok h with ⟨hnone, _⟩ | ⟨l', hl', ⟨hd, h⟩ | ⟨hd, h⟩⟩
      · rw [hnone] at hl
        cases hl
      · obtain rfl := Option.some.inj (hl.symm.trans hl')
        obtain ⟨_, _, ht⟩ := ih.seq blocks h
        have hblock : l.block = .seq l.indent := by simp [Line.block, hd]
        rw [hblock]
        exact ht.mono fun keys hk => hk.mono (Nat.le_succ _)
      · obtain rfl := Option.some.inj (hl.symm.trans hl')
        obtain ⟨_, _, ht⟩ := ih.map blocks h
        have hblock : l.block = .map l.indent := by simp [Line.block, hd]
        rw [hblock]
        exact ht.mono fun keys hk => hk.1
    case seq =>
      intro indent items p r p' blocks h
      rcases parse_seq_ok h with ⟨rfl, rfl, hstop⟩ | ⟨l, item, p₁, hl, hi, hd, hitem, hseq⟩
      · refine ⟨items, rfl, Tracked.pop (fun l hl => ?_) (Below.nil _)⟩
        simpa [Block.takes] using hstop l hl
      · obtain ⟨items', hr, hrest⟩ := ih.seq blocks hseq
        refine ⟨items', hr, Tracked.take hl (by simp [Block.takes, hi, hd]) rfl ?_ fun keys hk => hk⟩
        exact (ih.item blocks hitem).trans ((parse_later fuel).seq hseq) hrest fun a b => Below.append
    case item =>
      intro indent rest p r p' blocks h
      rcases parse_item_ok h with ⟨hrest, l, hl, hdeep, h⟩ | ⟨hrest, rfl, hstop⟩ | ⟨hrest, hkv, item, p₁, hfirst, hsib⟩ |
        ⟨hrest, hkv, rfl⟩
      · -- a bare dash with a block under it
        rw [after_dash, if_pos hrest]
        exact Tracked.opens hl (by simpa [Wait.opens] using hdeep) (ih.block _ hl h)
      · -- a bare dash with nothing under it
        rw [after_dash, if_pos hrest]
        refine Tracked.wait (fun l hl => ?_) (Tracked.refl (Below.nil _))
        simpa [Wait.opens] using hstop l hl
      · -- a mapping that starts behind the dash
        rw [after_dash, if_neg hrest, if_pos hkv]
        obtain ⟨key, val, value, _, _, ht⟩ := ih.kv (.item (indent + 2) :: .seq indent :: blocks) hfirst
        refine ht.trans ((parse_later fuel).siblings hsib) (ih.siblings _ (Nat.succ_pos _) hsib) fun a b ha hb => ?_
        exact (ha.1.mono (Nat.le_succ _)).append hb
      · rw [after_dash, if_neg hrest, if_neg (by simp [hkv])]
        exact Tracked.refl (Below.nil _)
    case siblings =>
      intro indent item p r p' blocks hpos h
      exact ih.further_keys blocks hpos h
    case kv =>
      intro n text p n' p' blocks h
      obtain ⟨key, val, hsplit, ⟨hval, rfl, rfl⟩ | ⟨rfl, rfl, rfl, hstop⟩ | ⟨rfl, l, child, rfl, hl, hc, hchild⟩⟩ :=
        parse_kv_into_ok h
      · -- the value is on the line
        refine ⟨key, val, _, hsplit, rfl, ?_⟩
        rw [wait_for_nothing hsplit hval]
        exact Tracked.refl ⟨Below.nil _, fun entries he => by cases he⟩
      · -- the next line starts no block: the value is empty
        refine ⟨key, _, _, hsplit, rfl, ?_⟩
        rw [wait_for_child hsplit]
        exact Tracked.wait hstop (Tracked.refl ⟨Below.nil _, fun entries he => by cases he⟩)
      · refine ⟨key, _, child, hsplit, rfl, ?_⟩
        rw [wait_for_child hsplit]
        refine Tracked.opens hl hc ?_
        rcases hchild with ⟨hd, h⟩ | ⟨hd, h⟩
        · obtain ⟨items, rfl, ht⟩ := ih.seq blocks h
          have hblock : l.block = .seq l.indent := by simp [Line.block, hd]
          rw [hblock]
          exact ht.mono fun keys hk => ⟨hk.mono (Nat.le_succ _), fun entries he => by cases he⟩
        · obtain ⟨n', rfl, ht⟩ := ih.map blocks h
          have hblock : l.block = .map l.indent := by simp [Line.block, hd]
          rw [hblock]
          refine ht.mono fun keys hk => ⟨hk.1, fun entries he k => ?_⟩
          obtain rfl := Node.map.inj he
          simpa using hk.2 k
    case map =>
      intro indent n p r p' blocks h
      exact ih.entries blocks h

/-! ## The services -/

/-- Outside the block of a `services` key nothing below the root counts. -/
theorem service_key_outside {keys : Keys} (h : Below 1 keys) (ks : List Bytes) :
    keys.foldl service_key (false, ks) = (false, ks) := by
  induction keys with
  | nil => rfl
  | cons key keys ih =>
    have hone : key.1 ≠ 1 := ne_of_gt (h key List.mem_cons_self)
    rw [List.foldl_cons, service_key, if_neg hone, if_neg (by simp)]
    exact ih fun k hk => h k (List.mem_cons_of_mem _ hk)

/-- Inside it the keys of the second depth count. -/
theorem service_key_inside {keys : Keys} (h : Below 1 keys) (ks : List Bytes) (k : Bytes) :
    k ∈ (keys.foldl service_key (true, ks)).2 ↔ k ∈ ks ∨ (2, k) ∈ keys := by
  induction keys generalizing ks with
  | nil => simp
  | cons key keys ih =>
    have hone : key.1 ≠ 1 := ne_of_gt (h key List.mem_cons_self)
    have hrest : Below 1 keys := fun k hk => h k (List.mem_cons_of_mem _ hk)
    rw [List.foldl_cons, service_key, if_neg hone]
    by_cases htwo : key.1 = 2
    · rw [if_pos ⟨htwo, rfl⟩, ih hrest, List.mem_append, List.mem_singleton, List.mem_cons]
      simp [Prod.ext_iff, htwo, or_assoc]
    · rw [if_neg (fun hc => htwo hc.1), ih hrest, List.mem_cons]
      simp [Prod.ext_iff, Ne.symm htwo]

/-- The names under `services` are the ones gathered so far. -/
def Gathered (n : Entries) (ks : List Bytes) : Prop :=
  ∀ svcs, n.lookup (bytes "services") = some (.map svcs) → ∀ k, k ∈ svcs.map Prod.fst ↔ k ∈ ks

theorem Gathered.assign {n : Entries} {acc : Bool × List Bytes} {key : Bytes} {value : Node} {a : Keys}
    (hacc : Gathered n acc.2) (ha : Child 1 value a) :
    Gathered (assign key value n) (a.foldl service_key (service_key acc (1, key))).2 := by
  intro svcs hsvcs k
  rw [lookup_assign] at hsvcs
  by_cases hkey : key = bytes "services"
  · subst hkey
    obtain rfl : value = .map svcs := by simpa using hsvcs
    rw [ha.2 svcs rfl k, service_key, if_pos rfl, if_pos rfl, service_key_inside ha.1]
    simp
  · have hne : (bytes "services" == key) = false := beq_eq_false_iff_ne.2 (Ne.symm hkey)
    rw [hne, if_neg (by simp)] at hsvcs
    rw [service_key, if_pos rfl, if_neg hkey, service_key_outside ha.1]
    exact hacc svcs hsvcs k

theorem services_tracked {fuel indent : Nat} {n : Entries} {p p' : Parser} {r : Node} {acc : Bool × List Bytes}
    (h : parse_map lines fuel indent n p = .ok (r, p')) (hacc : Gathered n acc.2) :
    ∃ n', r = .map n' ∧ Tracked lines [.map indent] .nothing []
      (fun keys => Gathered n' (keys.foldl service_key acc).2) p p' := by
  induction fuel generalizing n p acc with
  | zero =>
    unfold parse_map at h
    cases h
  | succ fuel ih =>
    rcases parse_map_ok h with ⟨rfl, rfl, hstop⟩ | ⟨l, n₁, p₁, hl, hi, hd, hkv, hmap⟩
    · refine ⟨n, rfl, Tracked.pop (fun l hl => ?_) hacc⟩
      simpa [Block.takes] using hstop l hl
    · obtain ⟨key, val, value, hsplit, rfl, hfirst⟩ := (parse_follows fuel).kv [.map indent] hkv
      have hkey : (Block.map indent).keys [] l = [(1, key)] := by simp [Block.keys, hsplit]
      have htakes : (Block.map indent).takes l = true := by simp [Block.takes, hi, hd]
      have hlater := (parse_later fuel).map hmap
      rcases hfirst with ⟨a, ha, hread, hlay⟩ | ⟨htwice, hlay⟩
      · obtain ⟨n', hr, hrest⟩ := ih hmap (hacc.assign ha)
        have hchild : Tracked lines [.map indent] (wait_for l.text) [.map indent] (· = a) p.take p₁ :=
          .inl ⟨a, rfl, hread, hlay⟩
        refine ⟨n', hr, Tracked.take hl htakes rfl (hchild.trans hlater hrest (Q := fun keys =>
          Gathered n' (keys.foldl service_key (service_key acc (1, key))).2) ?_) fun keys hk => ?_⟩
        · rintro _ b rfl hb
          rwa [List.foldl_append]
        · rwa [hkey, List.singleton_append, List.foldl_cons]
      · obtain ⟨n', hr, -⟩ := (parse_follows fuel).map [] hmap
        have hlost : Tracked lines [.map indent] (wait_for l.text) [] (fun _ => False) p.take p' :=
          .inr ⟨htwice.later hlater, hlay⟩
        exact ⟨n', hr, Tracked.take hl htakes rfl hlost fun _ hk => hk.elim⟩

theorem parse_root_tracked {r : Node} {p : Parser} (h : parse_root lines = .ok (r, p)) :
    ∃ n, r = .map n ∧ Tracked lines [.map (root_indent lines)] .nothing []
      (fun keys => Gathered n (service_block keys)) ⟨0, []⟩ p :=
  services_tracked h fun svcs hsvcs => by cases hsvcs

/-! ## No line is lost -/

/-- Every line was parsed once, and the cursor is at the end. -/
def Consumed (lines : List Line) (p : Parser) : Prop :=
  p.pos = lines.length ∧ ∀ n < lines.length, p.parsed.count n = 1

theorem Reads.consumed {p : Parser} (h : Reads lines ⟨0, []⟩ p) (hp : p.pos = lines.length) : Consumed lines p := by
  refine ⟨hp, fun n hn => ?_⟩
  have hparsed : p.parsed = List.range lines.length := by
    rw [h.parsed, hp, List.nil_append, Nat.sub_zero, List.range_eq_range']
  rw [hparsed]
  exact List.count_eq_one_of_mem List.nodup_range (List.mem_range.2 hn)

end

/-- A compose file that loads was read line by line to its end, with every service
key written in it among the services, exactly when it is laid out. -/
theorem load_compose_loses_no_line {getenv files : Bytes → Option Bytes} {path : Bytes}
    {extra_env : List (Bytes × Bytes)} {out : ComposeFile} {lines : List Line}
    (hload : load_compose getenv files path extra_env = .ok out) (hlines : read_lines path (files path) = .ok lines) :
    (∃ root p, parse_root lines = .ok (root, p) ∧ Consumed lines p ∧
      ∀ k ∈ written_services (root_indent lines) lines, ∃ s ∈ out.services, s.name = k) ↔
      laid_out lines = true := by
  obtain ⟨lines', env, hlines', hload⟩ := load_compose_ok hload
  obtain rfl := Except.ok.inj (hlines.symm.trans hlines')
  obtain ⟨root, p, hroot, hservices⟩ := load_lines_ok hload
  obtain ⟨n, rfl, htracked⟩ := parse_root_tracked hroot
  obtain ⟨svcs, hsvcs, hnames⟩ := read_services_ok hservices
  have hresult (k : Bytes) : (∃ s ∈ out.services, s.name = k) ↔ k ∈ svcs.map Prod.fst := by
    rw [← hnames, List.mem_map]
  have hiff : (∃ root' p', parse_root lines = .ok (root', p') ∧ Consumed lines p' ∧
      ∀ k ∈ written_services (root_indent lines) lines, ∃ s ∈ out.services, s.name = k) ↔
      Consumed lines p ∧ ∀ k ∈ written_services (root_indent lines) lines, k ∈ svcs.map Prod.fst := by
    simp [hroot, hresult]
  rw [hiff]
  unfold laid_out
  rcases htracked with ⟨keys, hkeys, hread, hlayout⟩ | ⟨⟨m, hm, htwice⟩, hlayout⟩
  · have hkept (k : Bytes) : k ∈ svcs.map Prod.fst ↔ k ∈ service_block keys := hkeys svcs hsvcs k
    rw [List.drop_zero] at hlayout
    by_cases hend : p.pos = lines.length
    · have hnil : lines.drop p.pos = [] := List.drop_of_length_le (le_of_eq hend.symm)
      rw [hnil] at hlayout
      simp [hlayout, layout, hkept, hread.consumed hend]
    · -- the root mapping stopped at a line, so no open block takes it
      obtain ⟨l, rest, hrest⟩ : ∃ l rest, lines.drop p.pos = l :: rest := by
        have hlt : p.pos < lines.length := lt_of_le_of_ne (hread.bound (Nat.zero_le _)) hend
        exact ⟨_, _, List.drop_eq_getElem_cons hlt⟩
      rw [hrest] at hlayout
      simp [hlayout, layout, Consumed, hend]
  · rw [List.drop_zero] at hlayout
    have hlost : ¬ Consumed lines p := fun hc => by
      have := hc.2 m hm
      omega
    simp [hlayout, hlost]

/-! ## Two files -/

def toyPath : Bytes := bytes "shop/compose.yaml"

/-- The machine has one file. -/
def toyFiles (text : String) (path : Bytes) : Option Bytes := if path = toyPath then some (bytes text) else none

def toyFile (services : List (String × String)) : ComposeFile :=
  ⟨toyPath, services.map fun (name, image) => ⟨bytes name, bytes image, [], [], [], [], [], [], []⟩⟩

def toyLines : List Line := [⟨0, bytes "services:"⟩, ⟨2, bytes "db:"⟩, ⟨4, bytes "image: pg"⟩]

/-- The second service has one space of indent too few. -/
def slippedLines : List Line :=
  [⟨0, bytes "services:"⟩, ⟨2, bytes "web:"⟩, ⟨4, bytes "image: nginx"⟩, ⟨1, bytes "db:"⟩, ⟨4, bytes "image: pg"⟩]

theorem load_compose_loses_no_line_shop :
    (∃ root p, parse_root toyLines = .ok (root, p) ∧ Consumed toyLines p ∧
      ∀ k ∈ written_services (root_indent toyLines) toyLines, ∃ s ∈ (toyFile [("db", "pg")]).services, s.name = k) ↔
      laid_out toyLines = true :=
  have hload : load_compose (fun _ => none) (toyFiles "services:\n  db:\n    image: pg\n") toyPath [] =
      .ok (toyFile [("db", "pg")]) := by decide +kernel
  load_compose_loses_no_line hload (by decide +kernel)

/-- The misplaced service is neither loaded nor rejected: its lines are never read. -/
theorem load_compose_loses_a_service :
    let files := toyFiles "services:\n  web:\n    image: nginx\n db:\n    image: pg\n"
    load_compose (fun _ => none) files toyPath [] = .ok (toyFile [("web", "nginx")]) ∧
    read_lines toyPath (files toyPath) = .ok slippedLines ∧
    ¬ ∃ root p, parse_root slippedLines = .ok (root, p) ∧ Consumed slippedLines p := by
  refine ⟨by decide +kernel, by decide +kernel, ?_⟩
  rintro ⟨root, p, hroot, hconsumed⟩
  have hpos : (parse_root slippedLines).map (fun r => r.2.pos) = .ok 3 := by decide +kernel
  rw [hroot] at hpos
  exact absurd (hconsumed.1.symm.trans (Except.ok.inj hpos)) (by decide)

end Hostely.Apps
