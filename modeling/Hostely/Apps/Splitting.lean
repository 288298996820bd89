import Hostely.Apps.Interpolation
/-!
# Splitting before interpolation

`load_compose` splits the entries of `ports` and `volumes` at a colon and
interpolates the two halves. `${N:-d}` has a colon of its own, which takes the
place of the one between the parts when the search comes upon it first.
-/

open Hostely.Lib

namespace Hostely.Apps

/-! ## Entries -/

/-- A reference with a default that has no colon. -/
def Reference.InPart : Reference → Prop
  | .bare _ => True
  | .colon_dash _ d | .dash _ d => 58 ∉ d.1
  | .required _ _ => False

inductive Part where
  | literal (text : { text : Bytes // 58 ∉ text ∧ ¬ [36, 123] <:+: text })
  | reference (r : { r : Reference // r.InPart })

namespace Part

def text : Part → Bytes
  | literal text => text.1
  | reference r => r.1.text

def meaning (env : Env) : Part → Bytes
  | literal text => text.1
  | reference r => r.1.meaning env

/-- The part is a `${N:-d}`. -/
def has_colon : Part → Bool
  | reference ⟨.colon_dash _ _, _⟩ => true
  | _ => false

/-- The value of a reference has no colon. -/
def ColonFree (env : Env) : Part → Prop
  | literal _ => True
  | reference r => 58 ∉ env.value_of r.1.name

end Part

/-- A part alone, or parts with colons between them. -/
inductive Entry where
  | one (part : Part)
  | more (first : Part) (middle : List Part) (last : Part)

namespace Entry

def first : Entry → Part
  | one part => part
  | more first _ _ => first

def last : Entry → Part
  | one part => part
  | more _ _ last => last

def text : Entry → Bytes
  | one part => part.text
  | more first middle last => first.text ++ middle.flatMap (fun p => 58 :: p.text) ++ 58 :: last.text

def ColonFree (env : Env) : Entry → Prop
  | one part => part.ColonFree env
  | more first middle last => first.ColonFree env ∧ (∀ p ∈ middle, p.ColonFree env) ∧ last.ColonFree env

end Entry

/-! ## Interpolating parts -/

theorem Reference.InPart.understood {r : Reference} (h : r.InPart) : r.Understood := by
  cases r with
  | bare _ | colon_dash _ _ => trivial
  | dash name d =>
    have hno : ∀ m, ¬ [58, m] <:+: d.1 := fun m hin => h (hin.subset List.mem_cons_self)
    exact ⟨hno 45, hno 63⟩
  | required _ _ => exact h.elim

/-- The text after a part does not complete a reference that the part begins. -/
theorem interpolate_part (env : Env) (p : Part) {rest : Bytes} (h : rest.head? ≠ some 123) :
    interpolate env (p.text ++ rest) = p.meaning env ++ interpolate env rest := by
  cases p with
  | literal t => exact interpolate_literal env t.2.2 fun _ => h
  | reference r =>
    have hr := reference_understood r.2.understood env
    rw [Part.text, interpolate_reference_text, hr]
    rfl

theorem interpolate_part_alone (env : Env) (p : Part) : interpolate env p.text = p.meaning env := by
  have h : interpolate env (p.text ++ []) = _ := interpolate_part env p (by simp)
  have hnil : interpolate env [] = [] := rfl
  rwa [List.append_nil, hnil, List.append_nil] at h

theorem interpolate_char (env : Env) {c : UInt8} (hc : c ≠ 36) (text : Bytes) :
    interpolate env (c :: text) = c :: interpolate env text := by
  simp [interpolate, interpolate_from, hc]

@[simp] theorem interpolate_colon (env : Env) (text : Bytes) : interpolate env (58 :: text) = 58 :: interpolate env text :=
  interpolate_char env (by decide) text

theorem interpolate_middle (env : Env) (middle : List Part) {rest : Bytes} (h : rest.head? ≠ some 123) :
    interpolate env (middle.flatMap (fun p => 58 :: p.text) ++ rest) =
      middle.flatMap (fun p => 58 :: p.meaning env) ++ interpolate env rest := by
  induction middle with
  | nil => rfl
  | cons p middle ih =>
    have hhead : (middle.flatMap (fun p => 58 :: p.text) ++ rest).head? ≠ some 123 := by
      cases middle with
      | nil => exact h
      | cons q middle => simp
    rw [List.flatMap_cons, List.flatMap_cons, List.append_assoc, List.cons_append, interpolate_colon,
      interpolate_part env p hhead, ih, List.append_assoc, List.cons_append]

/-- A part and the middle after it. -/
theorem interpolate_front (env : Env) (p : Part) (middle : List Part) {rest : Bytes} (h : rest.head? ≠ some 123) :
    interpolate env (p.text ++ middle.flatMap (fun p => 58 :: p.text) ++ rest) =
      p.meaning env ++ middle.flatMap (fun p => 58 :: p.meaning env) ++ interpolate env rest := by
  have hhead : (middle.flatMap (fun p => 58 :: p.text) ++ rest).head? ≠ some 123 := by
    cases middle with
    | nil => exact h
    | cons q middle => simp
  rw [List.append_assoc, interpolate_part env p hhead, interpolate_middle env middle h, List.append_assoc]

/-- The beginning of a reference that was cut off stays as it is. -/
theorem interpolate_cut (env : Env) (name : Name) : interpolate env (36 :: 123 :: name.1) = 36 :: 123 :: name.1 := by
  have hend : name.1.idxOf? 125 = none := List.idxOf?_eq_none_iff.2 (not_mem_name name (by decide))
  have hname : interpolate env (123 :: name.1 ++ []) = 123 :: name.1 ++ interpolate env [] := by
    have hno : 36 ∉ (123 : UInt8) :: name.1 := by simp [not_mem_name name (c := 36) (by decide)]
    apply interpolate_literal
    · exact fun hin => hno (hin.subset (by decide))
    · exact fun hlast => absurd (List.mem_of_mem_getLast? hlast) hno
  rw [interpolate, interpolate_from, if_neg (Nat.lt_irrefl 0), if_pos ⟨rfl, rfl⟩, List.tail_cons, hend]
  dsimp only
  have hnil : interpolate env [] = [] := rfl
  rw [List.append_nil, hnil, List.append_nil] at hname
  exact congrArg (36 :: ·) hname

/-! ## Colons -/

theorem part_text_colon {p : Part} (h : p.has_colon = false) : 58 ∉ p.text := by
  match p, h with
  | .literal t, _ => exact t.2.1
  | .reference ⟨.bare name, _⟩, _ =>
    simp [Part.text, Reference.text, Reference.expr, not_mem_name name (c := 58) (by decide)]
  | .reference ⟨.dash name d, hd⟩, _ =>
    have hd : 58 ∉ d.1 := hd
    simp [Part.text, Reference.text, Reference.expr, not_mem_name name (c := 58) (by decide), hd]

/-- Where the colon of `${N:-d}` stands. -/
theorem part_text_cut {p : Part} (h : p.has_colon = true) :
    ∃ (name : Name) (d : Bytes), p.text = (36 :: 123 :: name.1) ++ 58 :: 45 :: (d ++ [125]) ∧ 58 ∉ 45 :: (d ++ [125]) ∧
      ∀ env, p.meaning env = if env.value_of name ≠ [] then env.value_of name else d := by
  match p, h with
  | .reference ⟨.colon_dash name d, hd⟩, _ =>
    have hd : 58 ∉ d.1 := hd
    refine ⟨name, d.1, ?_, by simp [hd], fun env => rfl⟩
    simp [Part.text, Reference.text, Reference.expr]

theorem part_meaning_colon {env : Env} {p : Part} (h : p.ColonFree env) : 58 ∉ p.meaning env := by
  match p, h with
  | .literal t, _ => exact t.2.1
  | .reference ⟨r, hr⟩, h =>
    have hvalue : 58 ∉ env.value_of r.name := h
    have hdflt : 58 ∉ r.dflt := by
      cases r with
      | bare _ => simp [Reference.dflt]
      | colon_dash _ d | dash _ d => exact hr
      | required _ _ => exact hr.elim
    show 58 ∉ r.meaning env
    unfold Reference.meaning
    split
    · exact hvalue
    · exact hdflt

theorem split_first_unmarked {c : UInt8} {text : Bytes} (h : c ∉ text) : split_first c text = none := by
  rw [split_first, List.idxOf?_eq_none_iff.2 h]
  rfl

theorem split_first_mark {c : UInt8} {a : Bytes} (h : c ∉ a) (b : Bytes) : split_first c (a ++ c :: b) = some (a, b) := by
  rw [split_first, idxOf?_mark h]
  simp

theorem split_last_unmarked {c : UInt8} {text : Bytes} (h : c ∉ text) : split_last c text = none := by
  rw [split_last, List.idxOf?_eq_none_iff.2 (by simpa using h)]
  rfl

theorem split_last_mark {c : UInt8} {b : Bytes} (h : c ∉ b) (a : Bytes) : split_last c (a ++ c :: b) = some (a, b) := by
  have hrev : (a ++ c :: b).reverse = b.reverse ++ c :: a.reverse := by simp
  rw [split_last, hrev, idxOf?_mark (by simpa using h), Option.map_some, Option.some.injEq, Prod.mk.injEq]
  have hfront : (a ++ c :: b).length - 1 - b.reverse.length = a.length := by simp
  have hback : (a ++ c :: b).length - b.reverse.length = a.length + 1 := by
    simp only [List.length_append, List.length_cons, List.length_reverse]
    omega
  rw [hfront, hback]
  simp

/-! ## Trimming -/

namespace Part

def trimLeft : Part → Part
  | literal t => literal ⟨t.1.dropWhile isspace, fun h => t.2.1 ((List.dropWhile_sublist _).subset h),
      fun h => t.2.2 (h.trans (List.dropWhile_suffix _).isInfix)⟩
  | reference r => reference r

def trimRight : Part → Part
  | literal t => literal ⟨(t.1.reverse.dropWhile isspace).reverse, fun h => t.2.1 (by
      have := (List.dropWhile_sublist isspace).subset (List.mem_reverse.1 h)
      exact List.mem_reverse.1 this), fun h => t.2.2 (by
      have hpre : (t.1.reverse.dropWhile isspace).reverse <+: t.1 := by
        have := List.reverse_prefix.2 (List.dropWhile_suffix isspace (l := t.1.reverse))
        rwa [List.reverse_reverse] at this
      exact h.trans hpre.isInfix)⟩
  | reference r => reference r

theorem trimLeft_text (p : Part) : p.trimLeft.text = p.text.dropWhile isspace := by
  cases p with
  | literal t => rfl
  | reference r => rfl

theorem trimRight_text (p : Part) : p.trimRight.text = (p.text.reverse.dropWhile isspace).reverse := by
  cases p with
  | literal t => rfl
  | reference r =>
    have hend : r.1.text.reverse.dropWhile isspace = r.1.text.reverse := by
      have hrev : r.1.text.reverse = 125 :: (36 :: 123 :: r.1.expr).reverse := by simp [Reference.text]
      rw [hrev]
      rfl
    show r.1.text = (r.1.text.reverse.dropWhile isspace).reverse
    rw [hend, List.reverse_reverse]

@[simp] theorem trimLeft_has_colon (p : Part) : p.trimLeft.has_colon = p.has_colon := by cases p <;> rfl

@[simp] theorem trimRight_has_colon (p : Part) : p.trimRight.has_colon = p.has_colon := by cases p <;> rfl

@[simp] theorem trimLeft_colonFree (env : Env) (p : Part) : p.trimLeft.ColonFree env ↔ p.ColonFree env := by
  cases p <;> exact Iff.rfl

@[simp] theorem trimRight_colonFree (env : Env) (p : Part) : p.trimRight.ColonFree env ↔ p.ColonFree env := by
  cases p <;> exact Iff.rfl

end Part

/-- What the entry is after `trim`. -/
def Entry.trimmed : Entry → Entry
  | one part => one part.trimLeft.trimRight
  | more first middle last => more first.trimLeft middle last.trimRight

theorem trim_entry (e : Entry) : trim e.text = e.trimmed.text := by
  cases e with
  | one p => rw [trim, Entry.text, Entry.trimmed, Entry.text, Part.trimRight_text, Part.trimLeft_text]
  | more first middle last =>
    -- the colons keep the two ends apart
    have hleft : (middle.flatMap (fun p => 58 :: p.text) ++ 58 :: last.text).dropWhile isspace =
        middle.flatMap (fun p => 58 :: p.text) ++ 58 :: last.text := by
      cases middle <;> rfl
    have hright (a : Bytes) : (a ++ [58]).reverse.dropWhile isspace = (a ++ [58]).reverse := by
      rw [List.reverse_append]
      rfl
    have hshape (p : Part) : p.text ++ (middle.flatMap (fun p => 58 :: p.text) ++ 58 :: last.text) =
        (p.text ++ middle.flatMap (fun p => 58 :: p.text) ++ [58]) ++ last.text := by simp
    rw [trim, Entry.text, List.append_assoc, dropWhile_before hleft, ← Part.trimLeft_text, hshape, List.reverse_append,
      dropWhile_before (hright _), List.reverse_append, List.reverse_reverse, ← Part.trimRight_text]
    simp [Entry.trimmed, Entry.text]

theorem trimmed_first (e : Entry) : e.trimmed.first.has_colon = e.first.has_colon := by
  cases e <;> simp [Entry.trimmed, Entry.first]

theorem trimmed_last (e : Entry) : e.trimmed.last.has_colon = e.last.has_colon := by
  cases e <;> simp [Entry.trimmed, Entry.last]

theorem trimmed_colonFree (env : Env) (e : Entry) : e.trimmed.ColonFree env ↔ e.ColonFree env := by
  cases e <;> simp [Entry.trimmed, Entry.ColonFree]

/-! ## Ports -/

/-- Each half interpolated, as `load_compose` does it. -/
def halves (env : Env) (pair : Bytes × Bytes) : Bytes × Bytes := (interpolate env pair.1, interpolate env pair.2)

theorem interpolate_more (env : Env) (first : Part) (middle : List Part) (last : Part) :
    interpolate env (Entry.more first middle last).text =
      first.meaning env ++ middle.flatMap (fun p => 58 :: p.meaning env) ++ 58 :: last.meaning env := by
  rw [Entry.text, interpolate_front env first middle (by simp), interpolate_colon, interpolate_part_alone]

theorem interpolate_front_alone (env : Env) (p : Part) (middle : List Part) :
    interpolate env (p.text ++ middle.flatMap (fun p => 58 :: p.text)) =
      p.meaning env ++ middle.flatMap (fun p => 58 :: p.meaning env) := by
  have h : interpolate env (p.text ++ middle.flatMap (fun p => 58 :: p.text) ++ []) = _ :=
    interpolate_front env p middle (by simp)
  have hnil : interpolate env [] = [] := rfl
  rwa [List.append_nil, hnil, List.append_nil] at h

/-- A part that is cut inside its reference leaves more in front of the cut. -/
theorem interpolate_front_cut (env : Env) (p : Part) (middle : List Part) (name : Name) :
    interpolate env (p.text ++ middle.flatMap (fun p => 58 :: p.text) ++ 58 :: 36 :: 123 :: name.1) =
      p.meaning env ++ middle.flatMap (fun p => 58 :: p.meaning env) ++ 58 :: 36 :: 123 :: name.1 := by
  rw [interpolate_front env p middle (by simp), interpolate_colon, interpolate_cut]

theorem port_spec_iff (env : Env) {e : Entry} (he : e.ColonFree env) :
    halves env (port_spec e.text) = port_spec (interpolate env e.text) ↔ e.last.has_colon = false := by
  cases e with
  | one p =>
    have hp : 58 ∉ p.meaning env := part_meaning_colon he
    have hwhole : port_spec (interpolate env p.text) = (p.meaning env, p.meaning env) := by
      rw [interpolate_part_alone, port_spec, split_last_unmarked hp]
      rfl
    rw [Entry.text, hwhole, Entry.last]
    cases hc : p.has_colon with
    | false =>
      rw [port_spec, split_last_unmarked (part_text_colon hc), Option.getD_none, halves, interpolate_part_alone]
      exact iff_of_true rfl rfl
    | true =>
      obtain ⟨name, d, htext, hback, -⟩ := part_text_cut hc
      refine iff_of_false (fun h => ?_) (by simp)
      rw [port_spec, htext, split_last_mark hback, Option.getD_some, halves, interpolate_cut,
        interpolate_char env (by decide)] at h
      obtain ⟨hfst, hsnd⟩ := Prod.mk.inj h
      have := hfst.trans hsnd.symm
      simp at this
  | more first middle last =>
    obtain ⟨-, -, hlast⟩ := he
    have hwhole := interpolate_more env first middle last
    rw [hwhole, port_spec, port_spec, split_last_mark (part_meaning_colon hlast), Option.getD_some, Entry.text, Entry.last]
    cases hc : last.has_colon with
    | false =>
      rw [split_last_mark (part_text_colon hc), Option.getD_some, halves, interpolate_front_alone, interpolate_part_alone]
      exact iff_of_true rfl rfl
    | true =>
      obtain ⟨name, d, htext, hback, -⟩ := part_text_cut hc
      refine iff_of_false (fun h => ?_) (by simp)
      have hshape : first.text ++ middle.flatMap (fun p => 58 :: p.text) ++ 58 :: last.text =
          (first.text ++ middle.flatMap (fun p => 58 :: p.text) ++ 58 :: 36 :: 123 :: name.1) ++ 58 :: 45 :: (d ++ [125]) := by
        simp [htext]
      rw [hshape, split_last_mark hback, Option.getD_some, halves, interpolate_front_cut] at h
      have hlen := congrArg List.length (Prod.mk.inj h).1
      simp at hlen

/-! ## Volumes -/

/-- The text without what follows its last colon. -/
def without_mode (dst : Bytes) : Bytes := ((split_last 58 dst).map Prod.fst).getD dst

theorem volume_spec_mark {src : Bytes} (h : 58 ∉ src) (dst : Bytes) :
    volume_spec (src ++ 58 :: dst) = some (src, without_mode dst) := by
  rw [volume_spec, split_first_mark h]
  rfl

theorem volume_spec_unmarked {s : Bytes} (h : 58 ∉ s) : volume_spec s = none := by
  rw [volume_spec, split_first_unmarked h]
  rfl

theorem without_mode_unmarked {dst : Bytes} (h : 58 ∉ dst) : without_mode dst = dst := by
  rw [without_mode, split_last_unmarked h]
  rfl

theorem without_mode_mark {mode : Bytes} (h : 58 ∉ mode) (dst : Bytes) : without_mode (dst ++ 58 :: mode) = dst := by
  rw [without_mode, split_last_mark h]
  rfl

/-- What stands behind the first part and its colon. -/
def behind (text : Part → Bytes) : List Part → Part → Bytes
  | [], last => text last
  | p :: middle, last => text p ++ middle.flatMap (fun p => 58 :: text p) ++ 58 :: text last

theorem more_behind (text : Part → Bytes) (first : Part) (middle : List Part) (last : Part) :
    text first ++ middle.flatMap (fun p => 58 :: text p) ++ 58 :: text last =
      text first ++ 58 :: behind text middle last := by
  cases middle <;> simp [behind]

/-- What is left of the parts behind the first: the last of them is the mode, unless it is alone. -/
theorem interpolate_without_mode {env : Env} {middle : List Part} {last : Part} (h : last.has_colon = false)
    (hlast : last.ColonFree env) :
    interpolate env (without_mode (behind Part.text middle last)) = without_mode (behind (Part.meaning env) middle last) := by
  cases middle with
  | nil =>
    rw [behind, behind, without_mode_unmarked (part_text_colon h), without_mode_unmarked (part_meaning_colon hlast),
      interpolate_part_alone]
  | cons p middle =>
    rw [behind, behind, without_mode_mark (part_text_colon h), without_mode_mark (part_meaning_colon hlast),
      interpolate_front_alone]

theorem volume_spec_eq {env : Env} {e : Entry} (he : e.ColonFree env) (hfirst : e.first.has_colon = false)
    (hlast : e.last.has_colon = false) :
    (volume_spec e.text).map (halves env) = volume_spec (interpolate env e.text) := by
  cases e with
  | one p =>
    simp only [Entry.first] at hfirst
    have hmeaning : 58 ∉ p.meaning env := part_meaning_colon he
    rw [Entry.text, interpolate_part_alone, volume_spec_unmarked hmeaning, volume_spec_unmarked (part_text_colon hfirst)]
    rfl
  | more first middle last =>
    obtain ⟨hfree, -, hfree'⟩ := he
    simp only [Entry.first, Entry.last] at hfirst hlast
    rw [interpolate_more, more_behind (Part.meaning env), volume_spec_mark (part_meaning_colon hfree), Entry.text,
      more_behind Part.text, volume_spec_mark (part_text_colon hfirst), Option.map_some, halves, interpolate_part_alone,
      interpolate_without_mode hlast hfree']

theorem lone_colonFree (name : Name) (p : Part) : p.ColonFree (lone name [120]) := by
  cases p with
  | literal t => trivial
  | reference r =>
    show 58 ∉ (lone name [120]).value_of r.1.name
    simp only [Env.value_of, lone, List.lookup_cons, List.lookup_nil]
    split <;> simp

theorem lone_entry_colonFree (name : Name) (e : Entry) : e.ColonFree (lone name [120]) := by
  cases e with
  | one p => exact lone_colonFree name p
  | more first middle last =>
    exact ⟨lone_colonFree name first, fun p _ => lone_colonFree name p, lone_colonFree name last⟩

/-- A variable with a value, and a part that asks it, have that value. -/
theorem lone_value (name : Name) : (lone name [120]).value_of name = [120] := by
  simp [Env.value_of, lone]

theorem volume_spec_first {e : Entry} (hc : e.first.has_colon = true) :
    ∃ env, e.ColonFree env ∧ (volume_spec e.text).map (halves env) ≠ volume_spec (interpolate env e.text) := by
  obtain ⟨name, d, htext, -, hmeaning⟩ := part_text_cut hc
  refine ⟨lone name [120], lone_entry_colonFree name e, fun h => ?_⟩
  have hcut : 58 ∉ 36 :: 123 :: name.1 := by simp [not_mem_name name (c := 58) (by decide)]
  have hvalue : e.first.meaning (lone name [120]) = [120] := by simp [hmeaning, lone_value]
  cases e with
  | one p =>
    simp only [Entry.first] at htext
    have hp : 58 ∉ p.meaning (lone name [120]) := part_meaning_colon (lone_colonFree name p)
    rw [Entry.text, interpolate_part_alone, volume_spec_unmarked hp, htext, volume_spec_mark hcut] at h
    cases h
  | more first middle last =>
    simp only [Entry.first] at htext
    have hshape : (Entry.more first middle last).text =
        (36 :: 123 :: name.1) ++ 58 :: ((45 :: (d ++ [125])) ++ 58 :: behind Part.text middle last) := by
      rw [Entry.text, more_behind Part.text, htext, List.append_assoc]
      rfl
    rw [interpolate_more, more_behind (Part.meaning _), volume_spec_mark (part_meaning_colon (lone_colonFree name first)),
      hshape, volume_spec_mark hcut, Option.map_some, halves, interpolate_cut] at h
    have hsrc := (Prod.mk.inj (Option.some.inj h)).1.trans hvalue
    cases hsrc

theorem volume_spec_last {e : Entry} (hfirst : e.first.has_colon = false) (hc : e.last.has_colon = true) :
    ∃ env, e.ColonFree env ∧ (volume_spec e.text).map (halves env) ≠ volume_spec (interpolate env e.text) := by
  obtain ⟨name, d, htext, hback, hmeaning⟩ := part_text_cut hc
  refine ⟨lone name [120], lone_entry_colonFree name e, fun h => ?_⟩
  have hvalue : e.last.meaning (lone name [120]) = [120] := by simp [hmeaning, lone_value]
  cases e with
  | one p =>
    have hno : p.has_colon = false := hfirst
    have hyes : p.has_colon = true := hc
    rw [hno] at hyes
    cases hyes
  | more first middle last =>
    simp only [Entry.first, Entry.last] at hfirst htext hvalue
    have hfree := lone_colonFree name
    rw [interpolate_more, more_behind (Part.meaning _), volume_spec_mark (part_meaning_colon (hfree first)), Entry.text,
      more_behind Part.text, volume_spec_mark (part_text_colon hfirst), Option.map_some, halves] at h
    have hdst := (Prod.mk.inj (Option.some.inj h)).2
    cases middle with
    | nil =>
      rw [behind, behind, without_mode_unmarked (part_meaning_colon (hfree last)), htext, without_mode_mark hback,
        interpolate_cut, hvalue] at hdst
      cases hdst
    | cons p middle =>
      have hshape : behind Part.text (p :: middle) last =
          (p.text ++ middle.flatMap (fun p => 58 :: p.text) ++ 58 :: 36 :: 123 :: name.1) ++ 58 :: 45 :: (d ++ [125]) := by
        simp [behind, htext]
      rw [hshape, without_mode_mark hback, interpolate_front_cut, behind,
        without_mode_mark (part_meaning_colon (hfree last))] at hdst
      have hlen := congrArg List.length hdst
      simp at hlen

/-- Splitting an entry of `ports` before interpolation gives what splitting after
it gives exactly when its last part is no `${N:-d}`; an entry of `volumes`, when
neither its first nor its last part is one. -/
theorem split_interpolate_iff (e : Entry) :
    (∀ env, e.ColonFree env →
      ((parse_ports (.seq [.scalar e.text])).map (halves env) = [port_spec (interpolate env (trim e.text))] ↔
        e.last.has_colon = false)) ∧
    ((∀ env, e.ColonFree env →
      (parse_volumes (.seq [.scalar e.text])).map (halves env) = (volume_spec (interpolate env (trim e.text))).toList) ↔
        e.first.has_colon = false ∧ e.last.has_colon = false) := by
  have hports (env : Env) : (parse_ports (.seq [.scalar e.text])).map (halves env) = [halves env (port_spec (trim e.text))] :=
    rfl
  have hvolumes (env : Env) : (parse_volumes (.seq [.scalar e.text])).map (halves env) =
      ((volume_spec (trim e.text)).map (halves env)).toList := by
    have hitem : node_scalar (.scalar e.text) = e.text := rfl
    cases hv : volume_spec (trim e.text) <;> simp [parse_volumes, hitem, hv]
  have hlist (a b : Option (Bytes × Bytes)) : a.toList = b.toList ↔ a = b := by
    cases a <;> cases b <;> simp
  rw [trim_entry] at hports hvolumes ⊢
  constructor
  · intro env he
    rw [hports, List.singleton_inj, port_spec_iff env ((trimmed_colonFree env e).2 he), trimmed_last]
  · rw [← trimmed_first, ← trimmed_last]
    constructor
    · intro h
      have hall : ∀ env, e.trimmed.ColonFree env →
          (volume_spec e.trimmed.text).map (halves env) = volume_spec (interpolate env e.trimmed.text) := by
        intro env he
        have := h env ((trimmed_colonFree env e).1 he)
        rwa [hvolumes, hlist] at this
      have hfirst : e.trimmed.first.has_colon = false := by
        apply Bool.eq_false_iff.2
        intro hc
        obtain ⟨env, he, hne⟩ := volume_spec_first hc
        exact hne (hall env he)
      refine ⟨hfirst, Bool.eq_false_iff.2 fun hc => ?_⟩
      obtain ⟨env, he, hne⟩ := volume_spec_last hfirst hc
      exact hne (hall env he)
    · rintro ⟨hfirst, hlast⟩ env he
      rw [hvolumes, hlist]
      exact volume_spec_eq ((trimmed_colonFree env e).2 he) hfirst hlast

/-- The entry `80:${PORT:-8080}`. -/
def port_entry : Entry :=
  .more (.literal ⟨bytes "80", by decide⟩) []
    (.reference ⟨.colon_dash ⟨bytes "PORT", by decide⟩ ⟨bytes "8080", by decide⟩, show 58 ∉ bytes "8080" by decide⟩)

/-- The container port of `80:${PORT:-8080}` is `-8080}`. -/
theorem default_port_cut :
    ¬ ∀ (env : Env) (e : Entry), e.ColonFree env →
      (parse_ports (.seq [.scalar e.text])).map (halves env) = [port_spec (interpolate env (trim e.text))] := by
  intro h
  have := h ⟨[], fun _ => none⟩ port_entry ⟨trivial, by simp, show 58 ∉ ([] : Bytes) by simp⟩
  exact absurd this (by decide +kernel)

end Hostely.Apps
