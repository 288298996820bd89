import Hostely.Apps.Yaml
import Hostely.Lib.Scan
/-!
# The parser stays in the lines

The parser with every evaluation of `cur()` as a step of its own that fails
behind the last line. The lines may have any indent here, also a negative one.
-/

open Hostely.Lib Hostely.Lib.Scan

namespace Hostely.Apps.Bounds

structure Line where
  indent : Int
  text : Bytes
deriving DecidableEq, Repr

inductive Fault where
  | cannot_parse (text : Bytes)
  /-- `cur()` behind the last line. -/
  | out_of_bounds
  /-- `back()` of an empty text. -/
  | empty_back
  /-- The recursion is cut off. -/
  | fuel
deriving DecidableEq, Repr

/-! ## The parser -/

def back (text : Bytes) : Scan Fault UInt8 :=
  match text.getLast? with
  | some c => pure c
  | none => throw .empty_back

/-- `++pos` -/
def next : Scan Fault Unit := modify (· + 1)

/-- What follows a dash is a key and maybe its value. -/
def inline_map (rest : Bytes) : Scan Fault Bool :=
  either (pure (findSub? (bytes ": ") rest).isSome)
    (both (pure (1 < rest.length : Bool)) (do return (← back rest) = 58))

section
variable (lines : List Line)

/-- `!eof()` -/
def not_eof : Scan Fault Bool := do return (← get) < lines.length

def cur : Scan Fault Line := do
  match lines[(← get)]? with
  | some l => pure l
  | none => throw .out_of_bounds

def on_dash : Scan Fault Bool :=
  either (do return starts_dash (← cur lines).text) (do return (← cur lines).text = bytes "-")

/-- The loop condition of `parse_seq`. -/
def at_item (indent : Int) : Scan Fault Bool :=
  both (not_eof lines) (both (do return (← cur lines).indent = indent) (on_dash lines))

def at_nested (indent : Int) : Scan Fault Bool :=
  both (not_eof lines) (do return indent < (← cur lines).indent)

def at_sibling (indent : Int) : Scan Fault Bool :=
  both (not_eof lines)
    (both (do return (← cur lines).indent = indent) (do return !starts_dash (← cur lines).text))

/-- The loop condition of `parse_map`. -/
def at_key (indent : Int) : Scan Fault Bool :=
  both (not_eof lines)
    (both (do return (← cur lines).indent = indent)
      (both (do return !starts_dash (← cur lines).text) (do return (← cur lines).text ≠ bytes "-")))

/-- The first condition of a key without a value. -/
def at_child : Scan Fault Bool :=
  both (not_eof lines)
    (both (do return 0 < (← cur lines).indent)
      (either (do return starts_dash (← cur lines).text)
        (either (do return (← cur lines).text = bytes "-")
          (either (do return (findSub? (bytes ": ") (← cur lines).text).isSome)
            (do return (← back (← cur lines).text) = 58)))))

/-- The second one. -/
def at_child_seq : Scan Fault Bool :=
  both (not_eof lines)
    (both (do return 0 < (← cur lines).indent) (do return starts_dash (← cur lines).text))

mutual

def parse_block : Nat → Int → Scan Fault Node
  | 0, _ => throw .fuel
  | fuel + 1, indent => do
    if ← not_eof lines then
      if ← on_dash lines then parse_seq fuel indent [] else parse_map fuel indent []
    else return .scalar []

/-- The loop of `parse_seq`, with the items so far. -/
def parse_seq : Nat → Int → List Node → Scan Fault Node
  | 0, _, _ => throw .fuel
  | fuel + 1, indent, items => do
    if ← at_item lines indent then
      let rest := dash_rest (← cur lines).text
      next
      let item ← parse_item fuel indent rest
      parse_seq fuel indent (items ++ [item])
    else return .seq items

/-- One item, from what follows its dash. -/
def parse_item : Nat → Int → Bytes → Scan Fault Node
  | 0, _, _ => throw .fuel
  | fuel + 1, indent, rest => do
    if rest = [] then
      if ← at_nested lines indent then parse_block fuel (← cur lines).indent else return .scalar []
    else if ← inline_map rest then
      let item ← parse_kv_into fuel [] rest
      parse_siblings fuel (indent + 2) item
    else return .scalar (unquote (trim rest))

/-- The further keys of an inline map item; `++pos` comes after the call. -/
def parse_siblings : Nat → Int → Entries → Scan Fault Node
  | 0, _, _ => throw .fuel
  | fuel + 1, indent, item => do
    if ← at_sibling lines indent then
      let item ← parse_kv_into fuel item (← cur lines).text
      next
      parse_siblings fuel indent item
    else return .map item

def parse_kv_into : Nat → Entries → Bytes → Scan Fault Entries
  | 0, _, _ => throw .fuel
  | fuel + 1, n, text => do
    match split_kv text with
    | none => throw (.cannot_parse text)
    | some (key, val) =>
      if val = [] then
        if ← at_child lines then
          if ← on_dash lines then return assign key (← parse_seq fuel (← cur lines).indent []) n
          else return assign key (← parse_map fuel (← cur lines).indent []) n
        else if ← at_child_seq lines then return assign key (← parse_seq fuel (← cur lines).indent []) n
        else return assign key (.scalar []) n
      else return assign key (.scalar (unquote val)) n

/-- The loop of `parse_map`, with the entries so far. -/
def parse_map : Nat → Int → Entries → Scan Fault Node
  | 0, _, _ => throw .fuel
  | fuel + 1, indent, n => do
    if ← at_key lines indent then
      let text := (← cur lines).text
      next
      let n ← parse_kv_into fuel n text
      parse_map fuel indent n
    else return .map n

end

/-! ## Reading the current line -/

/-- On a line the program tells `b` of it and leaves the cursor. -/
structure Tells (m : Scan Fault Bool) (b : Line → Bool) : Prop where
  tells : ∀ {pos l}, lines[pos]? = some l → m.runAt pos = (.ok (b l), pos)

variable {lines}

theorem cur_runAt {pos : Nat} {l : Line} (h : lines[pos]? = some l) : (cur lines).runAt pos = (.ok l, pos) := by
  unfold cur
  rw [runAt_bind_ok (runAt_get pos), h]
  rfl

theorem Tells.cur (b : Line → Bool) : Tells lines (do return b (← cur lines)) b := by
  refine ⟨fun {pos l} h => ?_⟩
  rw [runAt_bind_ok (cur_runAt h)]
  rfl

theorem Tells.both {m m' : Scan Fault Bool} {b b' : Line → Bool} (h : Tells lines m b) (h' : Tells lines m' b') :
    Tells lines (both m m') fun l => b l && b' l := by
  refine ⟨fun {pos l} hl => ?_⟩
  rw [runAt_both (h.tells hl), h'.tells hl]
  cases b l <;> simp

theorem Tells.either {m m' : Scan Fault Bool} {b b' : Line → Bool} (h : Tells lines m b) (h' : Tells lines m' b') :
    Tells lines (either m m') fun l => b l || b' l := by
  refine ⟨fun {pos l} hl => ?_⟩
  rw [runAt_either (h.tells hl), h'.tells hl]
  cases b l <;> simp

theorem not_eof_runAt (pos : Nat) : (not_eof lines).runAt pos = (.ok lines[pos]?.isSome, pos) := by
  unfold not_eof
  rw [runAt_bind_ok (runAt_get pos), runAt_pure]
  rcases Nat.lt_or_ge pos lines.length with h | h
  · simp [h]
  · simp [Nat.not_lt.2 h]

/-- Behind `!eof()` a condition reads only lines that are there. -/
theorem Tells.guarded {m : Scan Fault Bool} {b : Line → Bool} (h : Tells lines m b) (pos : Nat) :
    (Scan.both (not_eof lines) m).runAt pos = (.ok (lines[pos]?.any b), pos) := by
  rw [runAt_both (not_eof_runAt pos)]
  cases hl : lines[pos]? with
  | none => rfl
  | some l => rw [Option.isSome_some, if_pos rfl, h.tells hl, Option.any_some]

theorem on_dash_tells : Tells lines (on_dash lines) fun l => is_dash l.text :=
  (Tells.cur _).either (Tells.cur _)

theorem at_item_runAt (indent : Int) (pos : Nat) :
    (at_item lines indent).runAt pos = (.ok (lines[pos]?.any fun l => l.indent = indent && is_dash l.text), pos) :=
  ((Tells.cur _).both on_dash_tells).guarded pos

theorem at_nested_runAt (indent : Int) (pos : Nat) :
    (at_nested lines indent).runAt pos = (.ok (lines[pos]?.any fun l => indent < l.indent), pos) :=
  (Tells.cur _).guarded pos

theorem at_sibling_runAt (indent : Int) (pos : Nat) :
    (at_sibling lines indent).runAt pos =
      (.ok (lines[pos]?.any fun l => l.indent = indent && !starts_dash l.text), pos) :=
  ((Tells.cur _).both (Tells.cur _)).guarded pos

theorem at_key_runAt (indent : Int) (pos : Nat) :
    (at_key lines indent).runAt pos = (.ok (lines[pos]?.any fun l => l.indent = indent && !is_dash l.text), pos) := by
  have h : Tells lines _ _ := (Tells.cur fun l => l.indent = indent).both
    ((Tells.cur fun l => !starts_dash l.text).both (Tells.cur fun l => l.text ≠ bytes "-"))
  rw [at_key, h.guarded pos]
  simp [is_dash]

/-- `back()` is asked of a text that is not empty. -/
theorem at_child_runAt (hlines : ∀ l ∈ lines, l.text ≠ []) (pos : Nat) :
    (at_child lines).runAt pos =
      (.ok (lines[pos]?.any fun l => 0 < l.indent && (is_dash l.text || looks_like_kv l.text)), pos) := by
  have hback : Tells lines (do return (← back (← cur lines).text) = 58) fun l => l.text.getLast? = some 58 := by
    refine ⟨fun {pos l} h => ?_⟩
    have hlast := List.getLast?_eq_some_getLast (hlines l (List.mem_of_getElem? h))
    rw [runAt_bind_ok (cur_runAt h), back, hlast, runAt_bind_ok (runAt_pure _ _), runAt_pure]
    simp
  have h := ((Tells.cur fun l => 0 < l.indent).both ((Tells.cur fun l => starts_dash l.text).either
    ((Tells.cur fun l => l.text = bytes "-").either ((Tells.cur fun l => (findSub? (bytes ": ") l.text).isSome).either
      hback)))).guarded pos
  rw [at_child, h]
  simp [is_dash, looks_like_kv, Bool.or_assoc]

/-- The second condition of a key without a value asks for less than the first. -/
theorem at_child_seq_runAt {pos : Nat}
    (h : (lines[pos]?.any fun l => 0 < l.indent && (is_dash l.text || looks_like_kv l.text)) = false) :
    (at_child_seq lines).runAt pos = (.ok false, pos) := by
  have hseq : Tells lines _ _ := (Tells.cur fun l => 0 < l.indent).both (Tells.cur fun l => starts_dash l.text)
  rw [at_child_seq, hseq.guarded pos]
  cases hl : lines[pos]? with
  | none => rfl
  | some l =>
    simp only [hl, Option.any_some, is_dash] at h ⊢
    cases hd : starts_dash l.text
    · simp
    · simpa [hd] using h

theorem inline_map_runAt (rest : Bytes) (pos : Nat) :
    (inline_map rest).runAt pos = (.ok (inline_kv rest), pos) := by
  unfold inline_map inline_kv
  rw [runAt_either (runAt_pure _ _), runAt_both (runAt_pure _ _)]
  cases (findSub? (bytes ": ") rest).isSome with
  | true => rfl
  | false =>
    by_cases hlen : 1 < rest.length
    · have hlast := List.getLast?_eq_some_getLast (List.ne_nil_of_length_pos (by omega : 0 < rest.length))
      simp [hlen, back, hlast]
    · simp [hlen]

theorem next_runAt (pos : Nat) : next.runAt pos = (.ok (), pos + 1) := rfl

/-! ## The recursion ends in the lines -/

/-- The exceptions of the parser. -/
def Rejects (e : Fault) : Prop := ∃ text, e = .cannot_parse text

/-- With enough fuel the functions go on from the cursor. The line behind a dash
or a key pays for the calls on the way to the next one. -/
structure Forward (lines : List Line) (fuel : Nat) : Prop where
  block : ∀ {indent pos}, 8 * (lines.length - pos) + 2 ≤ fuel → Goes Rejects (parse_block lines fuel indent) pos
  seq : ∀ {indent items pos}, 8 * (lines.length - pos) + 1 ≤ fuel → Goes Rejects (parse_seq lines fuel indent items) pos
  item : ∀ {indent rest pos}, 8 * (lines.length - pos) + 4 ≤ fuel → Goes Rejects (parse_item lines fuel indent rest) pos
  siblings : ∀ {indent item pos}, 8 * (lines.length - pos) + 3 ≤ fuel →
    Goes Rejects (parse_siblings lines fuel indent item) pos
  kv : ∀ {n text pos}, 8 * (lines.length - pos) + 2 ≤ fuel → Goes Rejects (parse_kv_into lines fuel n text) pos
  map : ∀ {indent n pos}, 8 * (lines.length - pos) + 1 ≤ fuel → Goes Rejects (parse_map lines fuel indent n) pos

theorem parse_forward (hlines : ∀ l ∈ lines, l.text ≠ []) (fuel : Nat) : Forward lines fuel := by
  induction fuel with
  | zero => constructor <;> (intros; omega)
  | succ fuel ih =>
    constructor
    case block =>
      intro indent pos hf
      unfold parse_block
      refine Goes.after (not_eof_runAt pos) (Nat.le_refl _) ?_
      cases hl : lines[pos]? with
      | none => exact Goes.pure _ _
      | some l =>
        refine Goes.after (on_dash_tells.tells hl) (Nat.le_refl _) ?_
        split
        · exact ih.seq (by omega)
        · exact ih.map (by omega)
    case seq =>
      intro indent items pos hf
      unfold parse_seq
      refine Goes.after (at_item_runAt indent pos) (Nat.le_refl _) ?_
      cases hl : lines[pos]? with
      | none => exact Goes.pure _ _
      | some l =>
        have hlt := (List.getElem?_eq_some_iff.1 hl).1
        split
        · refine Goes.after (cur_runAt hl) (Nat.le_refl _) (Goes.after (next_runAt pos) (Nat.le_succ _) ?_)
          exact (ih.item (by omega)).bind fun item pos' hpos => ih.seq (by omega)
        · exact Goes.pure _ _
    case item =>
      intro indent rest pos hf
      unfold parse_item
      split
      · refine Goes.after (at_nested_runAt indent pos) (Nat.le_refl _) ?_
        cases hl : lines[pos]? with
        | none => exact Goes.pure _ _
        | some l =>
          split
          · exact Goes.after (cur_runAt hl) (Nat.le_refl _) (ih.block (by omega))
          · exact Goes.pure _ _
      · refine Goes.after (inline_map_runAt rest pos) (Nat.le_refl _) ?_
        split
        · exact (ih.kv (by omega)).bind fun item pos' hpos => ih.siblings (by omega)
        · exact Goes.pure _ _
    case siblings =>
      intro indent item pos hf
      unfold parse_siblings
      refine Goes.after (at_sibling_runAt indent pos) (Nat.le_refl _) ?_
      cases hl : lines[pos]? with
      | none => exact Goes.pure _ _
      | some l =>
        have hlt := (List.getElem?_eq_some_iff.1 hl).1
        split
        · -- the call has the line still to go, the loop after it does not
          refine Goes.after (cur_runAt hl) (Nat.le_refl _) ((ih.kv (by omega)).bind fun item pos' hpos => ?_)
          exact Goes.after (next_runAt pos') (Nat.le_succ _) (ih.siblings (by omega))
        · exact Goes.pure _ _
    case kv =>
      intro n text pos hf
      unfold parse_kv_into
      cases split_kv text with
      | none => exact Goes.throw ⟨text, rfl⟩ _
      | some kv =>
        dsimp only
        split
        · refine Goes.after (at_child_runAt hlines pos) (Nat.le_refl _) ?_
          split
          · rename_i hc
            obtain ⟨l, hl, -⟩ := (Option.any_eq_true _ _).1 hc
            refine Goes.after (on_dash_tells.tells hl) (Nat.le_refl _) ?_
            split
            · exact Goes.after (cur_runAt hl) (Nat.le_refl _) ((ih.seq (by omega)).bind fun _ _ _ => Goes.pure _ _)
            · exact Goes.after (cur_runAt hl) (Nat.le_refl _) ((ih.map (by omega)).bind fun _ _ _ => Goes.pure _ _)
          · rename_i hc
            exact Goes.after (at_child_seq_runAt (by simpa using hc)) (Nat.le_refl _) (Goes.pure _ _)
        · exact Goes.pure _ _
    case map =>
      intro indent n pos hf
      unfold parse_map
      refine Goes.after (at_key_runAt indent pos) (Nat.le_refl _) ?_
      cases hl : lines[pos]? with
      | none => exact Goes.pure _ _
      | some l =>
        have hlt := (List.getElem?_eq_some_iff.1 hl).1
        split
        · refine Goes.after (cur_runAt hl) (Nat.le_refl _) (Goes.after (next_runAt pos) (Nat.le_succ _) ?_)
          exact (ih.kv (by omega)).bind fun n pos' hpos => ih.map (by omega)
        · exact Goes.pure _ _

/-- One more call deep the functions do the same. -/
structure Steady (lines : List Line) (fuel : Nat) : Prop where
  block : ∀ indent, Answers .fuel (parse_block lines fuel indent) (parse_block lines (fuel + 1) indent)
  seq : ∀ indent items, Answers .fuel (parse_seq lines fuel indent items) (parse_seq lines (fuel + 1) indent items)
  item : ∀ indent rest, Answers .fuel (parse_item lines fuel indent rest) (parse_item lines (fuel + 1) indent rest)
  siblings : ∀ indent item,
    Answers .fuel (parse_siblings lines fuel indent item) (parse_siblings lines (fuel + 1) indent item)
  kv : ∀ n text, Answers .fuel (parse_kv_into lines fuel n text) (parse_kv_into lines (fuel + 1) n text)
  map : ∀ indent n, Answers .fuel (parse_map lines fuel indent n) (parse_map lines (fuel + 1) indent n)

theorem parse_steady (lines : List Line) (fuel : Nat) : Steady lines fuel := by
  induction fuel with
  | zero => constructor <;> (intros; exact Answers.throw _)
  | succ fuel ih =>
    constructor
    case block =>
      intro indent
      unfold parse_block
      refine Answers.bind (Answers.refl _) fun c => ?_
      split
      · refine Answers.bind (Answers.refl _) fun c => ?_
        split
        · exact ih.seq _ _
        · exact ih.map _ _
      · exact Answers.refl _
    case seq =>
      intro indent items
      unfold parse_seq
      refine Answers.bind (Answers.refl _) fun c => ?_
      split
      · refine Answers.bind (Answers.refl _) fun l => Answers.bind (Answers.refl _) fun _ => ?_
        exact Answers.bind (ih.item _ _) fun item => ih.seq _ _
      · exact Answers.refl _
    case item =>
      intro indent rest
      unfold parse_item
      split
      · refine Answers.bind (Answers.refl _) fun c => ?_
        split
        · exact Answers.bind (Answers.refl _) fun l => ih.block _
        · exact Answers.refl _
      · refine Answers.bind (Answers.refl _) fun c => ?_
        split
        · exact Answers.bind (ih.kv _ _) fun item => ih.siblings _ _
        · exact Answers.refl _
    case siblings =>
      intro indent item
      unfold parse_siblings
      refine Answers.bind (Answers.refl _) fun c => ?_
      split
      · refine Answers.bind (Answers.refl _) fun l => Answers.bind (ih.kv _ _) fun item => ?_
        exact Answers.bind (Answers.refl _) fun _ => ih.siblings _ _
      · exact Answers.refl _
    case kv =>
      intro n text
      unfold parse_kv_into
      cases split_kv text with
      | none => exact Answers.refl _
      | some kv =>
        dsimp only
        split
        · refine Answers.bind (Answers.refl _) fun c => ?_
          split
          · refine Answers.bind (Answers.refl _) fun c => ?_
            split
            · refine Answers.bind (Answers.refl _) fun l => ?_
              exact Answers.bind (ih.seq _ _) fun child => Answers.refl _
            · refine Answers.bind (Answers.refl _) fun l => ?_
              exact Answers.bind (ih.map _ _) fun child => Answers.refl _
          · refine Answers.bind (Answers.refl _) fun c => ?_
            split
            · refine Answers.bind (Answers.refl _) fun l => ?_
              exact Answers.bind (ih.seq _ _) fun child => Answers.refl _
            · exact Answers.refl _
        · exact Answers.refl _
    case map =>
      intro indent n
      unfold parse_map
      refine Answers.bind (Answers.refl _) fun c => ?_
      split
      · refine Answers.bind (Answers.refl _) fun l => Answers.bind (Answers.refl _) fun _ => ?_
        exact Answers.bind (ih.kv _ _) fun n => ih.map _ _
      · exact Answers.refl _

/-- From the cursor the function returns a node or throws that it cannot parse a
line, behind the cursor, and how deep it may call does not matter. -/
structure Ends {α : Type} (lines : List Line) (m : Nat → Scan Fault α) (pos : Nat) (r : Except Fault α) (pos' : Nat) : Prop where
  result : ∀ fuel, 8 * (lines.length - pos) + 8 ≤ fuel → (m fuel).runAt pos = (r, pos')
  forward : pos ≤ pos'
  rejects : ∀ e, r = .error e → ∃ text, e = .cannot_parse text

theorem ends_of {α : Type} {lines : List Line} {m : Nat → Scan Fault α} {pos : Nat}
    (hgoes : ∀ fuel, 8 * (lines.length - pos) + 8 ≤ fuel → Goes Rejects (m fuel) pos)
    (hsteady : ∀ fuel, Answers .fuel (m fuel) (m (fuel + 1))) : ∃ r pos', Ends lines m pos r pos' := by
  have hfirst := hgoes _ (Nat.le_refl _)
  refine ⟨_, _, fun fuel hfuel => ?_, hfirst.forward, hfirst.throws⟩
  refine Answers.more hsteady hfuel fun hstuck => ?_
  obtain ⟨text, htext⟩ := hfirst.throws _ hstuck
  cases htext

/-- For all lines that are not empty, from any position and with any indents, the
four functions come to an end and read no line that is not there. -/
theorem parser_ends (hlines : ∀ l ∈ lines, l.text ≠ []) (pos : Nat) :
    (∀ indent, ∃ r pos', Ends lines (fun fuel => parse_block lines fuel indent) pos r pos') ∧
    (∀ indent, ∃ r pos', Ends lines (fun fuel => parse_seq lines fuel indent []) pos r pos') ∧
    (∀ indent, ∃ r pos', Ends lines (fun fuel => parse_map lines fuel indent []) pos r pos') ∧
    (∀ n text, ∃ r pos', Ends lines (fun fuel => parse_kv_into lines fuel n text) pos r pos') := by
  refine ⟨fun indent => ?_, fun indent => ?_, fun indent => ?_, fun n text => ?_⟩
  · exact ends_of (fun fuel hf => (parse_forward hlines fuel).block (by omega)) fun fuel => (parse_steady lines fuel).block indent
  · exact ends_of (fun fuel hf => (parse_forward hlines fuel).seq (by omega)) fun fuel => (parse_steady lines fuel).seq indent []
  · exact ends_of (fun fuel hf => (parse_forward hlines fuel).map (by omega)) fun fuel => (parse_steady lines fuel).map indent []
  · exact ends_of (fun fuel hf => (parse_forward hlines fuel).kv (by omega)) fun fuel => (parse_steady lines fuel).kv n text

end

/-- The cursor is still on the second line when its text is parsed, and the block
below it starts with the line itself. -/
theorem parser_ends_reentry :
    let lines : List Line := [⟨0, bytes "- a: 1"⟩, ⟨2, bytes "b:"⟩, ⟨2, bytes "c"⟩]
    ∃ r, Ends lines (fun fuel => parse_block lines fuel 0) 0 r 3 := by
  intro lines
  obtain ⟨r, pos', hends⟩ := (@parser_ends lines (by decide) 0).1 0
  have hpos : ((parse_block lines 32 0).runAt 0).2 = 3 := by decide
  rw [hends.result 32 (by decide)] at hpos
  exact ⟨r, hpos ▸ hends⟩

/-! ## The parser of the lines of a file -/

/-- A line of a file. -/
def ofLine (l : Apps.Line) : Line := ⟨l.indent, l.text⟩

def faultOf : ParseError → Fault
  | .cannot_parse text => .cannot_parse text
  | .fuel => .fuel

/-- The program at the cursor and the result `r`, which also knows the lines that were parsed. -/
structure Agrees {α : Type} (m : Scan Fault α) (pos : Nat) (r : Except ParseError (α × Parser)) : Prop where
  ok : ∀ a p, r = .ok (a, p) → m.runAt pos = (.ok a, p.pos)
  error : ∀ e, r = .error e → (m.runAt pos).1 = .error (faultOf e)

section
variable {α β : Type}

theorem Agrees.pure (a : α) (p : Parser) : Agrees (Pure.pure a) p.pos (.ok (a, p)) :=
  ⟨fun _ _ h => by cases h; rfl, fun _ h => by cases h⟩

theorem Agrees.throw (e : ParseError) (pos : Nat) : @Agrees α (MonadExcept.throw (faultOf e)) pos (.error e) := by
  constructor
  · intro a p h
    cases h
  · intro e' h
    obtain rfl := Except.error.inj h
    rfl

theorem Agrees.after {m : Scan Fault α} {a : α} {f : α → Scan Fault β} {pos pos' : Nat} {r : Except ParseError (β × Parser)}
    (hm : m.runAt pos = (.ok a, pos')) (hf : Agrees (f a) pos' r) : Agrees (m >>= f) pos r := by
  constructor
  · intro b p h
    rw [runAt_bind_ok hm, hf.ok b p h]
  · intro e h
    rw [runAt_bind_ok hm, hf.error e h]

theorem Agrees.bind {m : Scan Fault α} {f : α → Scan Fault β} {pos : Nat} {r : Except ParseError (α × Parser)}
    {g : α × Parser → Except ParseError (β × Parser)} (hm : Agrees m pos r)
    (hf : ∀ a p, Agrees (f a) p.pos (g (a, p))) : Agrees (m >>= f) pos (r >>= g) := by
  cases r with
  | ok ap => exact Agrees.after (hm.ok ap.1 ap.2 rfl) (hf ap.1 ap.2)
  | error e =>
    have he := hm.error e rfl
    rcases hr : m.runAt pos with ⟨e' | a, pos'⟩ <;> rw [hr] at he
    · refine ⟨fun _ _ h => (by cases h), fun e'' h => ?_⟩
      obtain rfl : e = e'' := Except.error.inj h
      rw [runAt_bind_error hr]
      exact congrArg Except.error (Except.error.inj he)
    · cases he

end

/-- On the lines of a file each function does what the one that keeps the parsed lines does. -/
structure Same (lines : List Apps.Line) (fuel : Nat) : Prop where
  block : ∀ (indent : Nat) p, Agrees (parse_block (lines.map ofLine) fuel indent) p.pos (Apps.parse_block lines fuel indent p)
  seq : ∀ (indent : Nat) items p,
    Agrees (parse_seq (lines.map ofLine) fuel indent items) p.pos (Apps.parse_seq lines fuel indent items p)
  item : ∀ (indent : Nat) rest p,
    Agrees (parse_item (lines.map ofLine) fuel indent rest) p.pos (Apps.parse_item lines fuel indent rest p)
  siblings : ∀ (indent : Nat) item p,
    Agrees (parse_siblings (lines.map ofLine) fuel indent item) p.pos (Apps.parse_siblings lines fuel indent item p)
  kv : ∀ n text p, Agrees (parse_kv_into (lines.map ofLine) fuel n text) p.pos (Apps.parse_kv_into lines fuel n text p)
  map : ∀ (indent : Nat) n p, Agrees (parse_map (lines.map ofLine) fuel indent n) p.pos (Apps.parse_map lines fuel indent n p)

theorem getElem?_ofLine {lines : List Apps.Line} {pos : Nat} {l : Apps.Line} (h : lines[pos]? = some l) :
    (lines.map ofLine)[pos]? = some (ofLine l) := by
  rw [List.getElem?_map, h, Option.map_some]

@[simp] theorem ofLine_text (l : Apps.Line) : (ofLine l).text = l.text := rfl

@[simp] theorem ofLine_indent (l : Apps.Line) (indent : Nat) : (ofLine l).indent = indent ↔ l.indent = indent := Int.ofNat_inj

/-- A condition on the current line, where the other parser looks the line up. -/
theorem Agrees.ifLine {α : Type} {lines : List Apps.Line} {m : Scan Fault Bool} {b : Line → Bool} {c : Apps.Line → Prop}
    [DecidablePred c] {p : Parser} {yes no : Scan Fault α} {x : Apps.Line → Except ParseError (α × Parser)}
    {r : Except ParseError (α × Parser)} (hm : m.runAt p.pos = (.ok ((lines.map ofLine)[p.pos]?.any b), p.pos))
    (hb : ∀ l, b (ofLine l) = true ↔ c l) (hyes : ∀ l, lines[p.pos]? = some l → c l → Agrees yes p.pos (x l))
    (hno : (lines.map ofLine)[p.pos]?.any b = false → Agrees no p.pos r) :
    Agrees (do if ← m then yes else no) p.pos
      (match lines[p.pos]? with
        | none => r
        | some l => if c l then x l else r) := by
  refine Agrees.after hm ?_
  cases hl : lines[p.pos]? with
  | none =>
    rw [List.getElem?_map, hl] at hno ⊢
    exact hno rfl
  | some l =>
    rw [getElem?_ofLine hl, Option.any_some] at hno ⊢
    dsimp only
    by_cases hc : c l
    · rw [if_pos hc, if_pos ((hb l).2 hc)]
      exact hyes l hl hc
    · rw [if_neg hc, if_neg fun h => hc ((hb l).1 h)]
      exact hno (Bool.eq_false_iff.2 fun h => hc ((hb l).1 h))

theorem parse_same {lines : List Apps.Line} (hlines : ∀ l ∈ lines, l.text ≠ []) (fuel : Nat) : Same lines fuel := by
  induction fuel with
  | zero =>
    constructor
    · intro indent p
      unfold parse_block Apps.parse_block
      exact Agrees.throw .fuel _
    · intro indent items p
      unfold parse_seq Apps.parse_seq
      exact Agrees.throw .fuel _
    · intro indent rest p
      unfold parse_item Apps.parse_item
      exact Agrees.throw .fuel _
    · intro indent item p
      unfold parse_siblings Apps.parse_siblings
      exact Agrees.throw .fuel _
    · intro n text p
      unfold parse_kv_into Apps.parse_kv_into
      exact Agrees.throw .fuel _
    · intro indent n p
      unfold parse_map Apps.parse_map
      exact Agrees.throw .fuel _
  | succ fuel ih =>
    constructor
    case block =>
      intro indent p
      unfold parse_block Apps.parse_block
      refine Agrees.after (not_eof_runAt p.pos) ?_
      cases hl : lines[p.pos]? with
      | none =>
        rw [List.getElem?_map, hl]
        exact Agrees.pure _ _
      | some l =>
        rw [getElem?_ofLine hl]
        refine Agrees.after (on_dash_tells.tells (getElem?_ofLine hl)) ?_
        cases hd : is_dash l.text with
        | true => exact (by simpa [ofLine, hd] using ih.seq indent [] p)
        | false => exact (by simpa [ofLine, hd] using ih.map indent [] p)
    case seq =>
      intro indent items p
      unfold parse_seq Apps.parse_seq
      refine Agrees.ifLine (at_item_runAt indent p.pos) (fun l => by simp) (fun l hl _ => ?_) fun _ => Agrees.pure _ _
      refine Agrees.after (cur_runAt (getElem?_ofLine hl)) (Agrees.after (next_runAt p.pos) ?_)
      exact Agrees.bind (ih.item indent _ p.take) fun item p' => ih.seq _ _ _
    case item =>
      intro indent rest p
      unfold parse_item Apps.parse_item
      split
      · refine Agrees.ifLine (at_nested_runAt indent p.pos) (fun l => by simp [ofLine]) (fun l hl _ => ?_) fun _ => Agrees.pure _ _
        exact Agrees.after (cur_runAt (getElem?_ofLine hl)) (ih.block _ _)
      · refine Agrees.after (inline_map_runAt rest p.pos) ?_
        split
        · exact Agrees.bind (ih.kv [] rest p) fun item p' => by simpa using ih.siblings (indent + 2) item p'
        · exact Agrees.pure _ _
    case siblings =>
      intro indent item p
      unfold parse_siblings Apps.parse_siblings
      refine Agrees.ifLine (at_sibling_runAt indent p.pos) (fun l => by simp) (fun l hl _ => ?_) fun _ => Agrees.pure _ _
      refine Agrees.after (cur_runAt (getElem?_ofLine hl)) (Agrees.bind (ih.kv item l.text p.look) fun item p' => ?_)
      exact Agrees.after (next_runAt p'.pos) (ih.siblings _ _ p'.skip)
    case kv =>
      intro n text p
      unfold parse_kv_into Apps.parse_kv_into
      cases split_kv text with
      | none => exact Agrees.throw (.cannot_parse text) _
      | some kv =>
        dsimp only
        split
        · have hchild := @at_child_runAt (lines.map ofLine) (by simpa using hlines) p.pos
          refine Agrees.ifLine hchild (fun l => by simp [starts_child, ofLine]) (fun l hl _ => ?_) fun hnone => ?_
          · refine Agrees.after (on_dash_tells.tells (getElem?_ofLine hl)) ?_
            cases hd : is_dash l.text with
            | true =>
              rw [if_pos (show is_dash (ofLine l).text = true from hd)]
              refine Agrees.after (cur_runAt (getElem?_ofLine hl)) ?_
              exact Agrees.bind (ih.seq l.indent [] p) fun child p' => Agrees.pure _ _
            | false =>
              rw [if_neg (show ¬ is_dash (ofLine l).text = true by simp [hd])]
              refine Agrees.after (cur_runAt (getElem?_ofLine hl)) ?_
              exact Agrees.bind (ih.map l.indent [] p) fun child p' => Agrees.pure _ _
          · exact Agrees.after (at_child_seq_runAt hnone) (Agrees.pure _ _)
        · exact Agrees.pure _ _
    case map =>
      intro indent n p
      unfold parse_map Apps.parse_map
      refine Agrees.ifLine (at_key_runAt indent p.pos) (fun l => by simp) (fun l hl _ => ?_) fun _ => Agrees.pure _ _
      refine Agrees.after (cur_runAt (getElem?_ofLine hl)) (Agrees.after (next_runAt p.pos) ?_)
      exact Agrees.bind (ih.kv n l.text p.take) fun n p' => ih.map _ _ _

/-- No line of a file is empty. -/
theorem read_lines_text {path : Bytes} {file : Option Bytes} {lines : List Apps.Line} (h : read_lines path file = .ok lines) :
    ∀ l ∈ lines, l.text ≠ [] := by
  have hline : ∀ raw o, read_line path raw = .ok o → o.all (fun l => l.text ≠ []) = true := by
    intro raw o ho
    unfold read_line at ho
    dsimp only at ho
    by_cases hs : trim (strip_comment raw) = []
    · rw [if_pos hs] at ho
      cases ho
      rfl
    · rw [if_neg hs] at ho
      split at ho
      · cases ho
        rfl
      · split at ho
        · cases ho
        · split at ho
          · cases ho
          · cases ho
            simpa using hs
  cases file with
  | none => cases h
  | some text =>
    obtain ⟨os, hos, h⟩ := bind_eq_ok h
    obtain rfl := Except.ok.inj h
    intro l hl
    obtain ⟨o, ho, rfl⟩ := List.mem_filterMap.1 hl
    have hall := mapM_names (k := fun _ => true) hline hos
    have hmem := List.mem_map_of_mem (f := fun o : Option Apps.Line => o.all fun l => l.text ≠ []) ho
    rw [hall] at hmem
    obtain ⟨_, -, htrue⟩ := List.mem_map.1 hmem
    simpa using htrue

/-- The parser of a file that was read comes to an end with the node or the
exception of `parse_root`. -/
theorem parse_root_ends {path : Bytes} {file : Option Bytes} {lines : List Apps.Line}
    (h : read_lines path file = .ok lines) :
    let m := fun fuel => parse_map (lines.map ofLine) fuel ((lines.head?.map Apps.Line.indent).getD 0 : Nat) []
    (∀ n p, parse_root lines = .ok (n, p) → Ends (lines.map ofLine) m 0 (.ok n) p.pos) ∧
    (∀ e, parse_root lines = .error e → ∃ text pos', e = .cannot_parse text ∧
      Ends (lines.map ofLine) m 0 (.error (.cannot_parse text)) pos') := by
  intro m
  have hlines := read_lines_text h
  have hsame := (parse_same hlines (8 * lines.length + 8)).map ((lines.head?.map Apps.Line.indent).getD 0) [] ⟨0, []⟩
  obtain ⟨r, pos', hends⟩ := (@parser_ends (lines.map ofLine) (by simpa using hlines) 0).2.2.1
    ((lines.head?.map Apps.Line.indent).getD 0 : Nat)
  have hrun := hends.result (8 * lines.length + 8) (by simp)
  constructor
  · intro n p hroot
    have hok := hrun.symm.trans (hsame.ok n p hroot)
    obtain ⟨rfl, rfl⟩ := Prod.mk.inj hok
    exact hends
  · intro e hroot
    have herr := hsame.error e hroot
    rw [show (m (8 * lines.length + 8)).runAt 0 = (r, pos') from hrun] at herr
    obtain rfl : r = .error (faultOf e) := herr
    obtain ⟨text, htext⟩ := hends.rejects _ rfl
    cases e with
    | cannot_parse text => exact ⟨text, pos', rfl, hends⟩
    | fuel => cases htext

end Hostely.Apps.Bounds
