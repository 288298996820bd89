import Hostely.Apps.Layout
import Mathlib.Logic.Relation
/-!
# What a key without a value takes for its block

Each function of the parser is called with an indent. `parse_kv_into` does not
look at its own: what a key without a value gets depends on the shape of the
next line alone. The calls of a run are the frames reached from `parse_root`;
the lines of a block are under its key exactly when every line that such a call
finds at the cursor, and that looks like the start of a block, is.
-/

open Hostely.Lib

namespace Hostely.Apps

/-! ## Calls -/

inductive Call where
  | block (indent : Nat)
  | seq (indent : Nat) (items : List Node)
  | item (indent : Nat) (rest : Bytes)
  | siblings (indent : Nat) (item : Entries)
  /-- With the indent that the source passes and the function ignores. -/
  | kv (indent : Nat) (n : Entries) (text : Bytes)
  | map (indent : Nat) (n : Entries)

structure Frame where
  fuel : Nat
  call : Call
  p : Parser

def Frame.run (lines : List Line) (f : Frame) : Except ParseError (Node × Parser) :=
  match f.call with
  | .block indent => parse_block lines f.fuel indent f.p
  | .seq indent items => parse_seq lines f.fuel indent items f.p
  | .item indent rest => parse_item lines f.fuel indent rest f.p
  | .siblings indent item => parse_siblings lines f.fuel indent item f.p
  | .kv _ n text => (parse_kv_into lines f.fuel n text f.p).map fun (n, p) => (.map n, p)
  | .map indent n => parse_map lines f.fuel indent n f.p

/-- The first frame calls the second. A round of a loop calls the next round. -/
inductive Calls (lines : List Line) : Frame → Frame → Prop where
  | block_seq {fuel indent p l} : lines[p.pos]? = some l → is_dash l.text = true →
      Calls lines ⟨fuel + 1, .block indent, p⟩ ⟨fuel, .seq indent [], p⟩
  | block_map {fuel indent p l} : lines[p.pos]? = some l → is_dash l.text = false →
      Calls lines ⟨fuel + 1, .block indent, p⟩ ⟨fuel, .map indent [], p⟩
  | seq_item {fuel indent items p l} : lines[p.pos]? = some l → l.indent = indent → is_dash l.text = true →
      Calls lines ⟨fuel + 1, .seq indent items, p⟩ ⟨fuel, .item indent (dash_rest l.text), p.take⟩
  | seq_next {fuel indent items p l item p₁} : lines[p.pos]? = some l → l.indent = indent → is_dash l.text = true →
      parse_item lines fuel indent (dash_rest l.text) p.take = .ok (item, p₁) →
      Calls lines ⟨fuel + 1, .seq indent items, p⟩ ⟨fuel, .seq indent (items ++ [item]), p₁⟩
  | item_block {fuel indent p l} : lines[p.pos]? = some l → indent < l.indent →
      Calls lines ⟨fuel + 1, .item indent [], p⟩ ⟨fuel, .block l.indent, p⟩
  | item_kv {fuel indent rest p} : rest ≠ [] → inline_kv rest = true →
      Calls lines ⟨fuel + 1, .item indent rest, p⟩ ⟨fuel, .kv (indent + 2) [] rest, p⟩
  | item_siblings {fuel indent rest p item p₁} : rest ≠ [] → inline_kv rest = true →
      parse_kv_into lines fuel [] rest p = .ok (item, p₁) →
      Calls lines ⟨fuel + 1, .item indent rest, p⟩ ⟨fuel, .siblings (indent + 2) item, p₁⟩
  | siblings_kv {fuel indent item p l} : lines[p.pos]? = some l → l.indent = indent → starts_dash l.text = false →
      Calls lines ⟨fuel + 1, .siblings indent item, p⟩ ⟨fuel, .kv indent item l.text, p.look⟩
  | siblings_next {fuel indent item p l item₁ p₁} : lines[p.pos]? = some l → l.indent = indent →
      starts_dash l.text = false → parse_kv_into lines fuel item l.text p.look = .ok (item₁, p₁) →
      Calls lines ⟨fuel + 1, .siblings indent item, p⟩ ⟨fuel, .siblings indent item₁, p₁.skip⟩
  | kv_seq {fuel indent n text p key l} : split_kv text = some (key, []) → lines[p.pos]? = some l →
      starts_child l = true → is_dash l.text = true →
      Calls lines ⟨fuel + 1, .kv indent n text, p⟩ ⟨fuel, .seq l.indent [], p⟩
  | kv_map {fuel indent n text p key l} : split_kv text = some (key, []) → lines[p.pos]? = some l →
      starts_child l = true → is_dash l.text = false →
      Calls lines ⟨fuel + 1, .kv indent n text, p⟩ ⟨fuel, .map l.indent [], p⟩
  | map_kv {fuel indent n p l} : lines[p.pos]? = some l → l.indent = indent → is_dash l.text = false →
      Calls lines ⟨fuel + 1, .map indent n, p⟩ ⟨fuel, .kv indent n l.text, p.take⟩
  | map_next {fuel indent n p l n₁ p₁} : lines[p.pos]? = some l → l.indent = indent → is_dash l.text = false →
      parse_kv_into lines fuel n l.text p.take = .ok (n₁, p₁) →
      Calls lines ⟨fuel + 1, .map indent n, p⟩ ⟨fuel, .map indent n₁, p₁⟩

/-- The call that `parse_root` makes. -/
def root_frame (lines : List Line) : Frame := ⟨8 * lines.length + 8, .map (root_indent lines) [], ⟨0, []⟩⟩

def Reached (lines : List Line) : Frame → Prop := Relation.ReflTransGen (Calls lines) (root_frame lines)

/-! ## The block of a key -/

/-- The line belongs to the block of a key at this indent. -/
def Line.under (indent : Nat) (l : Line) : Bool := indent < l.indent || l.indent = indent && is_dash l.text

/-- A call of `parse_kv_into` for a key on line `k`, with what it leaves. -/
structure OwnBlock (lines : List Line) (indent k : Nat) (key : Bytes) (n n' : Entries) (p p' : Parser) : Prop where
  /-- The lines parsed for the value follow the key's, all of them under it. -/
  only_under : ∃ count, p'.parsed = p.parsed ++ List.range' (k + 1) count ∧
    ∀ j ∈ List.range' (k + 1) count, ∀ l, lines[j]? = some l → l.under indent = true
  /-- A next line that is not under the key is left where it is. -/
  null : (∀ l, lines[k + 1]? = some l → l.under indent = false) → n' = assign key (.scalar []) n ∧ p' = p

/-- Every key without a value keeps to its own block. The line of the key is the
one whose text was parsed last before the call. -/
def Nested (lines : List Line) : Prop :=
  ∀ {fuel indent n text p key n' p'}, Reached lines ⟨fuel, .kv indent n text, p⟩ → split_kv text = some (key, []) →
    parse_kv_into lines fuel n text p = .ok (n', p') →
    ∃ k, p.parsed.getLast? = some k ∧ OwnBlock lines indent k key n n' p p'

/-- A key without a value finds no line that looks like its block and is not. -/
def Placed (lines : List Line) (f : Frame) : Prop :=
  ∀ {indent n text key l}, f.call = .kv indent n text → split_kv text = some (key, []) → lines[f.p.pos]? = some l →
    starts_child l = true → l.under indent = true

section
variable {lines : List Line}

/-! ## The calls of a run -/

theorem kv_returns {fuel indent : Nat} {n : Entries} {text : Bytes} {p : Parser} :
    (∃ r, (Frame.mk fuel (.kv indent n text) p).run lines = .ok r) ↔
      ∃ n' p', parse_kv_into lines fuel n text p = .ok (n', p') := by
  simp only [Frame.run]
  cases parse_kv_into lines fuel n text p with
  | error e => simp [Except.map]
  | ok np => exact ⟨fun _ => ⟨np.1, np.2, rfl⟩, fun _ => ⟨_, rfl⟩⟩

/-- A call that returns got an answer from the calls it made. -/
theorem Calls.returns {f g : Frame} (h : Calls lines f g) {r : Node × Parser} (hf : f.run lines = .ok r) :
    ∃ r', g.run lines = .ok r' := by
  obtain ⟨node, p'⟩ := r
  cases h with
  | block_seq hl hd =>
    rcases parse_block_ok hf with ⟨hnone, _⟩ | ⟨l, hl', ⟨_, h⟩ | ⟨hd', _⟩⟩
    · exact absurd (hl.symm.trans hnone) (by simp)
    · exact ⟨_, h⟩
    · obtain rfl := Option.some.inj (hl.symm.trans hl')
      exact absurd (hd.symm.trans hd') (by decide)
  | block_map hl hd =>
    rcases parse_block_ok hf with ⟨hnone, _⟩ | ⟨l, hl', ⟨hd', _⟩ | ⟨_, h⟩⟩
    · exact absurd (hl.symm.trans hnone) (by simp)
    · obtain rfl := Option.some.inj (hl.symm.trans hl')
      exact absurd (hd'.symm.trans hd) (by decide)
    · exact ⟨_, h⟩
  | seq_item hl hi hd =>
    rcases parse_seq_ok hf with ⟨_, _, hstop⟩ | ⟨l, item, p₁, hl', _, _, hitem, _⟩
    · exact absurd ⟨hi, hd⟩ (hstop _ hl)
    · obtain rfl := Option.some.inj (hl.symm.trans hl')
      exact ⟨_, hitem⟩
  | seq_next hl hi hd hitem =>
    rcases parse_seq_ok hf with ⟨_, _, hstop⟩ | ⟨l, item, p₁, hl', _, _, hitem', hseq⟩
    · exact absurd ⟨hi, hd⟩ (hstop _ hl)
    · obtain rfl := Option.some.inj (hl.symm.trans hl')
      obtain ⟨rfl, rfl⟩ := Prod.mk.inj (Except.ok.inj (hitem.symm.trans hitem'))
      exact ⟨_, hseq⟩
  | item_block hl hi =>
    rcases parse_item_ok hf with ⟨_, l, hl', _, h⟩ | ⟨_, _, hstop⟩ | ⟨hrest, _⟩ | ⟨hrest, _⟩
    · obtain rfl := Option.some.inj (hl.symm.trans hl')
      exact ⟨_, h⟩
    · exact absurd hi (hstop _ hl)
    · exact absurd rfl hrest
    · exact absurd rfl hrest
  | item_kv hrest hinline =>
    rcases parse_item_ok hf with ⟨hnil, _⟩ | ⟨hnil, _⟩ | ⟨_, _, item, p₁, hkv, _⟩ | ⟨_, hno, _⟩
    · exact absurd hnil hrest
    · exact absurd hnil hrest
    · exact kv_returns.2 ⟨_, _, hkv⟩
    · exact absurd (hinline.symm.trans hno) (by decide)
  | item_siblings hrest hinline hkv =>
    rcases parse_item_ok hf with ⟨hnil, _⟩ | ⟨hnil, _⟩ | ⟨_, _, item, p₁, hkv', hsib⟩ | ⟨_, hno, _⟩
    · exact absurd hnil hrest
    · exact absurd hnil hrest
    · obtain ⟨rfl, rfl⟩ := Prod.mk.inj (Except.ok.inj (hkv.symm.trans hkv'))
      exact ⟨_, hsib⟩
    · exact absurd (hinline.symm.trans hno) (by decide)
  | siblings_kv hl hi hd =>
    rcases parse_siblings_ok hf with ⟨_, hstop⟩ | ⟨l, item₁, p₁, hl', _, _, hkv, _⟩
    · exact absurd ⟨hi, hd⟩ (hstop _ hl)
    · obtain rfl := Option.some.inj (hl.symm.trans hl')
      exact kv_returns.2 ⟨_, _, hkv⟩
  | siblings_next hl hi hd hkv =>
    rcases parse_siblings_ok hf with ⟨_, hstop⟩ | ⟨l, item₁, p₁, hl', _, _, hkv', hsib⟩
    · exact absurd ⟨hi, hd⟩ (hstop _ hl)
    · obtain rfl := Option.some.inj (hl.symm.trans hl')
      obtain ⟨rfl, rfl⟩ := Prod.mk.inj (Except.ok.inj (hkv.symm.trans hkv'))
      exact ⟨_, hsib⟩
  | kv_seq hsplit hl hc hd =>
    obtain ⟨n', q, hkv⟩ := kv_returns.1 ⟨_, hf⟩
    rcases parse_kv_into_ok hkv with ⟨key, val, hsplit', ⟨hval, _⟩ | ⟨_, _, _, hstop⟩ | ⟨_, l, child, _, hl', _, h⟩⟩
    · exact absurd (Prod.mk.inj (Option.some.inj (hsplit'.symm.trans hsplit))).2 hval
    · exact absurd (hc.symm.trans (hstop _ hl)) (by decide)
    · obtain rfl := Option.some.inj (hl.symm.trans hl')
      rcases h with ⟨_, h⟩ | ⟨hd', _⟩
      · exact ⟨_, h⟩
      · exact absurd (hd.symm.trans hd') (by decide)
  | kv_map hsplit hl hc hd =>
    obtain ⟨n', q, hkv⟩ := kv_returns.1 ⟨_, hf⟩
    rcases parse_kv_into_ok hkv with ⟨key, val, hsplit', ⟨hval, _⟩ | ⟨_, _, _, hstop⟩ | ⟨_, l, child, _, hl', _, h⟩⟩
    · exact absurd (Prod.mk.inj (Option.some.inj (hsplit'.symm.trans hsplit))).2 hval
    · exact absurd (hc.symm.trans (hstop _ hl)) (by decide)
    · obtain rfl := Option.some.inj (hl.symm.trans hl')
      rcases h with ⟨hd', _⟩ | ⟨_, h⟩
      · exact absurd (hd'.symm.trans hd) (by decide)
      · exact ⟨_, h⟩
  | map_kv hl hi hd =>
    rcases parse_map_ok hf with ⟨_, _, hstop⟩ | ⟨l, n₁, p₁, hl', _, _, hkv, _⟩
    · exact absurd ⟨hi, hd⟩ (hstop _ hl)
    · obtain rfl := Option.some.inj (hl.symm.trans hl')
      exact kv_returns.2 ⟨_, _, hkv⟩
  | map_next hl hi hd hkv =>
    rcases parse_map_ok hf with ⟨_, _, hstop⟩ | ⟨l, n₁, p₁, hl', _, _, hkv', hmap⟩
    · exact absurd ⟨hi, hd⟩ (hstop _ hl)
    · obtain rfl := Option.some.inj (hl.symm.trans hl')
      obtain ⟨rfl, rfl⟩ := Prod.mk.inj (Except.ok.inj (hkv.symm.trans hkv'))
      exact ⟨_, hmap⟩

theorem Reached.returns {f : Frame} (h : Reached lines f) {r : Node × Parser} (hroot : parse_root lines = .ok r) :
    ∃ r', f.run lines = .ok r' := by
  induction h with
  | refl => exact ⟨r, hroot⟩
  | tail _ hcall ih =>
    obtain ⟨r', hr'⟩ := ih
    exact hcall.returns hr'

/-- Where the line of a key is when its value is looked for: behind the cursor,
or, for a further key of an item, still at it. -/
theorem Reached.key_line {fuel indent : Nat} {n : Entries} {text : Bytes} {p : Parser}
    (h : Reached lines ⟨fuel, .kv indent n text, p⟩) :
    ∃ k l, p.parsed.getLast? = some k ∧ lines[k]? = some l ∧
      (p.pos = k + 1 ∧ (text = l.text ∧ l.indent = indent ∨ text = dash_rest l.text ∧ l.indent + 2 = indent) ∨
        p.pos = k ∧ text = l.text ∧ l.indent = indent ∧ starts_dash l.text = false) := by
  rcases h.cases_tail with heq | ⟨f, hf, hcall⟩
  · cases heq
  · cases hcall with
    | map_kv hl hi hd => exact ⟨_, _, by simp [Parser.take], hl, .inl ⟨rfl, .inl ⟨rfl, hi⟩⟩⟩
    | siblings_kv hl hi hd => exact ⟨_, _, by simp [Parser.look], hl, .inr ⟨rfl, rfl, hi, hd⟩⟩
    | item_kv hrest hinline =>
      rcases hf.cases_tail with heq | ⟨g, _, hcall⟩
      · cases heq
      · cases hcall with
        | seq_item hl hi hd => exact ⟨_, _, by simp [Parser.take], hl, .inl ⟨rfl, .inr ⟨rfl, by rw [hi]⟩⟩⟩

/-! ## The lines of a block -/

/-- The lines from one cursor to the other were parsed, each once, and `P` holds
of all of them. -/
structure ReadsOnly (lines : List Line) (P : Line → Prop) (p p' : Parser) : Prop extends Reads lines p p' where
  only : ∀ j l, p.pos ≤ j → j < p'.pos → lines[j]? = some l → P l

section ReadsOnly
variable {P Q : Line → Prop} {p q r : Parser}

theorem ReadsOnly.refl (p : Parser) : ReadsOnly lines P p p :=
  ⟨Reads.refl p, fun _ _ h₁ h₂ => absurd h₁ (Nat.not_le.2 h₂)⟩

theorem ReadsOnly.trans (h₁ : ReadsOnly lines P p q) (h₂ : ReadsOnly lines P q r) : ReadsOnly lines P p r := by
  refine ⟨h₁.toReads.trans h₂.toReads, fun j l hj hj' hl => ?_⟩
  by_cases hq : j < q.pos
  · exact h₁.only j l hj hq hl
  · exact h₂.only j l (Nat.not_lt.1 hq) hj' hl

theorem ReadsOnly.take {l : Line} (hl : lines[p.pos]? = some l) (h : P l) : ReadsOnly lines P p p.take := by
  refine ⟨Reads.take hl, fun j l' hj hj' hl' => ?_⟩
  obtain rfl : j = p.pos := Nat.le_antisymm (Nat.le_of_lt_succ hj') hj
  obtain rfl := Option.some.inj (hl.symm.trans hl')
  exact h

theorem ReadsOnly.mono (h : ReadsOnly lines P p q) (hPQ : ∀ l, P l → Q l) : ReadsOnly lines Q p q :=
  ⟨h.toReads, fun j l hj hj' hl => hPQ l (h.only j l hj hj' hl)⟩

end ReadsOnly

theorem under_iff {indent : Nat} {l : Line} :
    l.under indent = true ↔ indent < l.indent ∨ l.indent = indent ∧ is_dash l.text = true := by
  simp [Line.under]

/-- The frame and all the calls under it are placed. -/
def AllPlaced (lines : List Line) (f : Frame) : Prop := ∀ g, Relation.ReflTransGen (Calls lines) f g → Placed lines g

theorem AllPlaced.calls {f g : Frame} (h : AllPlaced lines f) (hcall : Calls lines f g) : AllPlaced lines g :=
  fun g' hg' => h g' (.head hcall hg')

/-- Which lines each function reads, with this fuel, when all its calls are
placed. -/
structure Indented (lines : List Line) (fuel : Nat) : Prop where
  block : ∀ {p r p' l}, AllPlaced lines ⟨fuel, .block l.indent, p⟩ → lines[p.pos]? = some l →
    parse_block lines fuel l.indent p = .ok (r, p') → ReadsOnly lines (l.indent ≤ ·.indent) p p'
  seq : ∀ {indent items p r p'}, AllPlaced lines ⟨fuel, .seq indent items, p⟩ →
    parse_seq lines fuel indent items p = .ok (r, p') → ReadsOnly lines (·.under indent = true) p p'
  item : ∀ {indent rest p r p'}, AllPlaced lines ⟨fuel, .item indent rest, p⟩ →
    parse_item lines fuel indent rest p = .ok (r, p') → ReadsOnly lines (indent < ·.indent) p p'
  siblings : ∀ {indent item p r p'}, AllPlaced lines ⟨fuel, .siblings indent item, p⟩ →
    parse_siblings lines fuel indent item p = .ok (r, p') → ReadsOnly lines (indent ≤ ·.indent) p p'
  kv : ∀ {indent n text p n' p'}, AllPlaced lines ⟨fuel, .kv indent n text, p⟩ →
    parse_kv_into lines fuel n text p = .ok (n', p') → ReadsOnly lines (·.under indent = true) p p'
  map : ∀ {indent n p r p'}, AllPlaced lines ⟨fuel, .map indent n, p⟩ →
    parse_map lines fuel indent n p = .ok (r, p') → ReadsOnly lines (indent ≤ ·.indent) p p'

/-- A line under a key is indented at least as far. -/
theorem indent_of_under {indent : Nat} {l : Line} (h : l.under indent = true) : indent ≤ l.indent := by
  rcases under_iff.1 h with hlt | ⟨heq, _⟩
  · exact hlt.le
  · exact heq.ge

/-- What is under a sequence that is under the key, is under the key. -/
theorem under_trans {indent : Nat} {l l' : Line} (h : l.under indent = true) (h' : l'.under l.indent = true) :
    l'.under indent = true := by
  rw [under_iff] at *
  rcases h with hlt | ⟨heq, _⟩
  · left
    rcases h' with hlt' | ⟨heq', _⟩ <;> omega
  · rwa [heq] at h'

/-- A key without a value is null, or the lines below are a block of its own. -/
theorem key_only {fuel : Nat} {n n' : Entries} {text key : Bytes} {p p' : Parser}
    (h : parse_kv_into lines fuel n text p = .ok (n', p')) (hsplit : split_kv text = some (key, [])) :
    (n' = assign key (.scalar []) n ∧ p' = p ∧ ∀ l, lines[p.pos]? = some l → starts_child l = false) ∨
      ∃ fuel' l child, n' = assign key child n ∧ lines[p.pos]? = some l ∧ starts_child l = true ∧
        ((is_dash l.text = true ∧ parse_seq lines fuel' l.indent [] p = .ok (child, p')) ∨
          (is_dash l.text = false ∧ parse_map lines fuel' l.indent [] p = .ok (child, p'))) := by
  cases fuel with
  | zero =>
    unfold parse_kv_into at h
    cases h
  | succ fuel =>
    obtain ⟨key', val, hsplit', hcase⟩ := parse_kv_into_ok h
    obtain ⟨rfl, rfl⟩ := Prod.mk.inj (Option.some.inj (hsplit'.symm.trans hsplit))
    rcases hcase with ⟨hval, _⟩ | ⟨_, hn, hp, hstop⟩ | ⟨_, l, child, hblock⟩
    · exact absurd rfl hval
    · exact .inl ⟨hn, hp, hstop⟩
    · exact .inr ⟨fuel, l, child, hblock⟩

/-- A key without a value that finds no block gets none. -/
theorem null_value {fuel : Nat} {n n' : Entries} {text key : Bytes} {p p' : Parser}
    (h : parse_kv_into lines fuel n text p = .ok (n', p')) (hsplit : split_kv text = some (key, []))
    (hstop : ∀ l, lines[p.pos]? = some l → starts_child l = false) : n' = assign key (.scalar []) n ∧ p' = p := by
  rcases key_only h hsplit with ⟨hn, hp, _⟩ | ⟨_, l, _, _, hl, hc, _⟩
  · exact ⟨hn, hp⟩
  · exact absurd (hc.symm.trans (hstop l hl)) (by decide)

/-- The line of a further key of an item does not start the block of that key, if
the key is placed. -/
theorem sibling_starts_nothing {fuel indent : Nat} {item : Entries} {p : Parser} {l : Line} {key : Bytes}
    (hl : lines[p.pos]? = some l) (hi : l.indent = indent) (hd : starts_dash l.text = false)
    (hsplit : split_kv l.text = some (key, [])) (hplaced : Placed lines ⟨fuel, .kv indent item l.text, p⟩) :
    starts_child l = false := by
  by_contra hc
  rcases under_iff.1 (hplaced rfl hsplit hl (by simpa using hc)) with hlt | ⟨_, hdash⟩
  · exact absurd hi (ne_of_gt hlt)
  · exact absurd (hdash.symm.trans (not_dash_of_split hsplit hd)) (by decide)

/-- A further key of an item that is placed leaves the cursor on its line. -/
theorem sibling_stays {fuel indent : Nat} {item item₁ : Entries} {p p₁ : Parser} {l : Line}
    (hl : lines[p.pos]? = some l) (hi : l.indent = indent) (hd : starts_dash l.text = false)
    (hplaced : Placed lines ⟨fuel, .kv indent item l.text, p.look⟩)
    (hkv : parse_kv_into lines fuel item l.text p.look = .ok (item₁, p₁)) : p₁ = p.look := by
  cases fuel with
  | zero =>
    unfold parse_kv_into at hkv
    cases hkv
  | succ fuel =>
    obtain ⟨key, val, hsplit, ⟨_, _, rfl⟩ | ⟨_, _, rfl, _⟩ | ⟨rfl, l', child, _, hl', hc, _⟩⟩ := parse_kv_into_ok hkv
    · rfl
    · rfl
    · obtain rfl := Option.some.inj (hl.symm.trans hl')
      exact absurd (hc.symm.trans (sibling_starts_nothing hl' hi hd hsplit hplaced)) (by decide)

theorem parse_indented (fuel : Nat) : Indented lines fuel := by
  induction fuel with
  | zero =>
    constructor
    · intro _ _ _ _ _ _ h
      simp [parse_block] at h
    · intro _ _ _ _ _ _ h
      simp [parse_seq] at h
    · intro _ _ _ _ _ _ h
      simp [parse_item] at h
    · intro _ _ _ _ _ _ h
      simp [parse_siblings] at h
    · intro _ _ _ _ _ _ _ h
      simp [parse_kv_into] at h
    · intro _ _ _ _ _ _ h
      simp [parse_map] at h
  | succ fuel ih =>
    constructor
    case block =>
      intro p r p' l hplaced hl h
      rcases parse_block_ok h with ⟨hnone, _⟩ | ⟨l', hl', ⟨hd, h⟩ | ⟨hd, h⟩⟩
      · rw [hnone] at hl
        cases hl
      · exact (ih.seq (hplaced.calls (.block_seq hl' hd)) h).mono fun _ => indent_of_under
      · exact ih.map (hplaced.calls (.block_map hl' hd)) h
    case seq =>
      intro indent items p r p' hplaced h
      rcases parse_seq_ok h with ⟨_, rfl, _⟩ | ⟨l, item, p₁, hl, hi, hd, hitem, hseq⟩
      · exact ReadsOnly.refl _
      · have hfirst := ih.item (hplaced.calls (.seq_item hl hi hd)) hitem
        have hrest := ih.seq (hplaced.calls (.seq_next hl hi hd hitem)) hseq
        have hline : l.under indent = true := under_iff.2 (.inr ⟨hi, hd⟩)
        exact (ReadsOnly.take hl hline).trans ((hfirst.mono fun _ hlt => under_iff.2 (.inl hlt)).trans hrest)
    case item =>
      intro indent rest p r p' hplaced h
      rcases parse_item_ok h with ⟨rfl, l, hl, hdeep, h⟩ | ⟨_, rfl, _⟩ | ⟨hrest, hinline, item, p₁, hkv, hsib⟩ |
        ⟨_, _, rfl⟩
      · exact (ih.block (hplaced.calls (.item_block hl hdeep)) hl h).mono fun _ => hdeep.trans_le
      · exact ReadsOnly.refl _
      · -- the keys of the item are two columns behind the dash
        have hfirst := ih.kv (hplaced.calls (.item_kv hrest hinline)) hkv
        have hmore := ih.siblings (hplaced.calls (.item_siblings hrest hinline hkv)) hsib
        have hcolumn (l : Line) (h : indent + 2 ≤ l.indent) : indent < l.indent := by omega
        exact (hfirst.mono fun l hl => hcolumn l (indent_of_under hl)).trans (hmore.mono hcolumn)
      · exact ReadsOnly.refl _
    case siblings =>
      intro indent item p r p' hplaced h
      rcases parse_siblings_ok h with ⟨rfl, _⟩ | ⟨l, item₁, p₁, hl, hi, hd, hkv, hsib⟩
      · exact ReadsOnly.refl _
      · have hsibling : Placed lines ⟨fuel, .kv indent item l.text, p.look⟩ :=
          hplaced _ (.single (.siblings_kv hl hi hd))
        have hmore := ih.siblings (hplaced.calls (.siblings_next hl hi hd hkv)) hsib
        obtain rfl := sibling_stays hl hi hd hsibling hkv
        exact (ReadsOnly.take hl hi.ge).trans hmore
    case kv =>
      intro indent n text p n' p' hplaced h
      obtain ⟨key, val, hsplit, ⟨_, _, rfl⟩ | ⟨_, _, rfl, _⟩ | ⟨rfl, l, child, _, hl, hc, hchild⟩⟩ := parse_kv_into_ok h
      · exact ReadsOnly.refl _
      · exact ReadsOnly.refl _
      · have hunder : l.under indent = true := hplaced _ .refl rfl hsplit hl hc
        rcases hchild with ⟨hd, h⟩ | ⟨hd, h⟩
        · exact (ih.seq (hplaced.calls (.kv_seq hsplit hl hc hd)) h).mono fun _ => under_trans hunder
        · -- a mapping does not start with a dash, so it is indented further than the key
          have hlt : indent < l.indent := (under_iff.1 hunder).resolve_right fun hc => by simp [hd] at hc
          exact (ih.map (hplaced.calls (.kv_map hsplit hl hc hd)) h).mono fun _ hle => under_iff.2 (.inl (hlt.trans_le hle))
    case map =>
      intro indent n p r p' hplaced h
      rcases parse_map_ok h with ⟨_, rfl, _⟩ | ⟨l, n₁, p₁, hl, hi, hd, hkv, hmap⟩
      · exact ReadsOnly.refl _
      · have hfirst := ih.kv (hplaced.calls (.map_kv hl hi hd)) hkv
        have hmore := ih.map (hplaced.calls (.map_next hl hi hd hkv)) hmap
        exact (ReadsOnly.take hl hi.ge).trans ((hfirst.mono fun _ => indent_of_under).trans hmore)

/-! ## Exactly the placed keys keep to their block -/

theorem seq_starts {fuel : Nat} {items : List Node} {p p' : Parser} {r : Node} {l : Line}
    (h : parse_seq lines fuel l.indent items p = .ok (r, p')) (hl : lines[p.pos]? = some l)
    (hd : is_dash l.text = true) : p.parsed ++ [p.pos] <+: p'.parsed := by
  cases fuel with
  | zero =>
    unfold parse_seq at h
    cases h
  | succ fuel =>
    rcases parse_seq_ok h with ⟨_, _, hstop⟩ | ⟨_, item, p₁, _, _, _, hitem, hseq⟩
    · exact absurd ⟨rfl, hd⟩ (hstop l hl)
    · have htake : p.take.parsed <+: p₁.parsed := ((parse_later fuel).item hitem).parsed
      exact htake.trans ((parse_later fuel).seq hseq).parsed

theorem map_starts {fuel : Nat} {n : Entries} {p p' : Parser} {r : Node} {l : Line}
    (h : parse_map lines fuel l.indent n p = .ok (r, p')) (hl : lines[p.pos]? = some l)
    (hd : is_dash l.text = false) : p.parsed ++ [p.pos] <+: p'.parsed := by
  cases fuel with
  | zero =>
    unfold parse_map at h
    cases h
  | succ fuel =>
    rcases parse_map_ok h with ⟨_, _, hstop⟩ | ⟨_, n₁, p₁, _, _, _, hkv, hmap⟩
    · exact absurd ⟨rfl, hd⟩ (hstop l hl)
    · have htake : p.take.parsed <+: p₁.parsed := ((parse_later fuel).kv hkv).parsed
      exact htake.trans ((parse_later fuel).map hmap).parsed

/-- The value of a key starts with the line at the cursor. -/
theorem value_starts {fuel : Nat} {n n' : Entries} {text key : Bytes} {p p' : Parser} {l : Line}
    (h : parse_kv_into lines fuel n text p = .ok (n', p')) (hsplit : split_kv text = some (key, []))
    (hl : lines[p.pos]? = some l) (hc : starts_child l = true) : p.parsed ++ [p.pos] <+: p'.parsed := by
  rcases key_only h hsplit with ⟨_, _, hstop⟩ | ⟨_, l', _, _, hl', _, ⟨hd, h⟩ | ⟨hd, h⟩⟩
  · exact absurd (hc.symm.trans (hstop l hl)) (by decide)
  · exact seq_starts h hl' hd
  · exact map_starts h hl' hd

/-- A key that keeps to its block finds a line of it, or none that looks like it. -/
theorem OwnBlock.placed {fuel indent k : Nat} {n n' : Entries} {text key : Bytes} {p p' : Parser} {l : Line}
    (hown : OwnBlock lines indent k key n n' p p') (hkv : parse_kv_into lines fuel n text p = .ok (n', p'))
    (hsplit : split_kv text = some (key, [])) (hl : lines[p.pos]? = some l) (hc : starts_child l = true) :
    l.under indent = true := by
  obtain ⟨count, hparsed, hunder⟩ := hown.only_under
  have hstart := value_starts hkv hsplit hl hc
  rw [hparsed, List.prefix_append_right_inj] at hstart
  exact hunder p.pos (hstart.subset (List.mem_singleton_self _)) l hl

/-- A placed key, all of whose calls are placed, keeps to its block. -/
theorem AllPlaced.own_block {fuel indent : Nat} {n n' : Entries} {text key : Bytes} {p p' : Parser}
    (hreached : Reached lines ⟨fuel, .kv indent n text, p⟩) (hplaced : AllPlaced lines ⟨fuel, .kv indent n text, p⟩)
    (hsplit : split_kv text = some (key, [])) (hkv : parse_kv_into lines fuel n text p = .ok (n', p')) :
    ∃ k, p.parsed.getLast? = some k ∧ OwnBlock lines indent k key n n' p p' := by
  obtain ⟨k, l, hlast, hl, ⟨hpos, _⟩ | ⟨hpos, rfl, hi, hd⟩⟩ := hreached.key_line
  · have hread := (parse_indented fuel).kv hplaced hkv
    have hparsed := hread.parsed
    rw [hpos] at hparsed
    refine ⟨k, hlast, ⟨_, hparsed, fun j hj l hl => ?_⟩, fun hnext => ?_⟩
    · rw [List.mem_range'_1] at hj
      exact hread.only j l (by omega) (by omega) hl
    · refine null_value hkv hsplit fun l hl => ?_
      by_contra hc
      have hunder := hplaced _ .refl rfl hsplit hl (by simpa using hc)
      rw [hpos] at hl
      exact absurd (hunder.symm.trans (hnext l hl)) (by decide)
  · -- the line of a further key is still at the cursor, and starts no block
    have hstop : ∀ l', lines[p.pos]? = some l' → starts_child l' = false := by
      intro l' hl'
      rw [hpos] at hl'
      obtain rfl := Option.some.inj (hl.symm.trans hl')
      exact sibling_starts_nothing (by rw [hpos, hl]) hi hd hsplit (hplaced _ .refl)
    obtain ⟨hn, rfl⟩ := null_value hkv hsplit hstop
    exact ⟨k, hlast, ⟨0, by simp, by simp⟩, fun _ => ⟨hn, rfl⟩⟩

/-- In a file that parses, every key without a value keeps to its own block
exactly when none of them finds a line that looks like its block and is not
under it. -/
theorem nested_iff {r : Node × Parser} (h : parse_root lines = .ok r) :
    Nested lines ↔ ∀ f, Reached lines f → Placed lines f := by
  constructor
  · rintro hnested ⟨fuel, call, p⟩ hreached indent n text key l rfl hsplit hl hc
    obtain ⟨n', p', hkv⟩ := kv_returns.1 (hreached.returns h)
    obtain ⟨k, _, hown⟩ := hnested hreached hsplit hkv
    exact hown.placed hkv hsplit hl hc
  · intro hplaced fuel indent n text p key n' p' hreached hsplit hkv
    exact AllPlaced.own_block hreached (fun g hg => hplaced g (hreached.trans hg)) hsplit hkv

end

/-- A file whose parse gives an answer. -/
theorem parses {lines : List Line} (h : (parse_root lines).toBool = true) : ∃ r, parse_root lines = .ok r := by
  cases hroot : parse_root lines with
  | error e =>
    rw [hroot] at h
    cases h
  | ok r => exact ⟨r, rfl⟩

theorem nested_iff_shop : Nested toyLines ↔ ∀ f, Reached toyLines f → Placed toyLines f :=
  (parses (by decide +kernel)).elim fun _ h => nested_iff h

/-- The service `web` has a `ports:` with nothing below it, before the next service. -/
def emptyPorts : List Line :=
  [⟨0, bytes "services:"⟩, ⟨2, bytes "web:"⟩, ⟨4, bytes "image: nginx"⟩, ⟨4, bytes "ports:"⟩, ⟨2, bytes "db:"⟩,
    ⟨4, bytes "image: pg"⟩]

/-- From a mapping into the mapping of its next key. -/
theorem Reached.into {lines : List Line} {fuel indent : Nat} {n : Entries} {p : Parser} (l l' : Line) (key : Bytes)
    (h : Reached lines ⟨fuel + 2, .map indent n, p⟩) (hl : lines[p.pos]? = some l) (hi : l.indent = indent)
    (hd : is_dash l.text = false) (hsplit : split_kv l.text = some (key, [])) (hl' : lines[p.pos + 1]? = some l')
    (hc : starts_child l' = true) (hd' : is_dash l'.text = false) :
    Reached lines ⟨fuel, .map l'.indent [], p.take⟩ :=
  (h.tail (.map_kv hl hi hd)).tail (.kv_map hsplit hl' hc hd')

/-- The next service becomes the value of the key. -/
theorem ports_takes_next_service : ¬ ∀ lines r, parse_root lines = .ok r → Nested lines := by
  intro hall
  obtain ⟨r, hr⟩ := parses (show (parse_root emptyPorts).toBool = true by decide +kernel)
  have hservices : Reached emptyPorts ⟨56, .map 0 [], ⟨0, []⟩⟩ := .refl
  have hweb : Reached emptyPorts ⟨54, .map 2 [], ⟨1, [0]⟩⟩ :=
    hservices.into ⟨0, bytes "services:"⟩ ⟨2, bytes "web:"⟩ (bytes "services") (by decide) rfl (by decide) (by decide)
      (by decide) (by decide) (by decide)
  have hkeys : Reached emptyPorts ⟨52, .map 4 [], ⟨2, [0, 1]⟩⟩ :=
    hweb.into ⟨2, bytes "web:"⟩ ⟨4, bytes "image: nginx"⟩ (bytes "web") (by decide) rfl (by decide) (by decide)
      (by decide) (by decide) (by decide)
  have himage : parse_kv_into emptyPorts 51 [] (bytes "image: nginx") ⟨3, [0, 1, 2]⟩ =
      .ok ([(bytes "image", .scalar (bytes "nginx"))], ⟨3, [0, 1, 2]⟩) := by
    unfold parse_kv_into
    rfl
  have hnext : Reached emptyPorts ⟨51, .map 4 [(bytes "image", .scalar (bytes "nginx"))], ⟨3, [0, 1, 2]⟩⟩ :=
    hkeys.tail (.map_next (l := ⟨4, bytes "image: nginx"⟩) (by decide) rfl (by decide) himage)
  have hports : Reached emptyPorts
      ⟨50, .kv 4 [(bytes "image", .scalar (bytes "nginx"))] (bytes "ports:"), ⟨4, [0, 1, 2, 3]⟩⟩ :=
    hnext.tail (.map_kv (l := ⟨4, bytes "ports:"⟩) (by decide) rfl (by decide))
  have hsplit : split_kv (bytes "ports:") = some (bytes "ports", []) := by decide
  have hdb : emptyPorts[4]? = some ⟨2, bytes "db:"⟩ := by decide
  obtain ⟨n', p', hkv⟩ := kv_returns.1 (hports.returns hr)
  obtain ⟨k, _, hown⟩ := hall emptyPorts r hr hports hsplit hkv
  exact absurd (hown.placed hkv hsplit hdb (by decide)) (by decide)

end Hostely.Apps
