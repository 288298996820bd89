import Hostely.Apps.LoadCompose
import Hostely.Apps.RoundTrip
/-!
# What a template means

A template is a list of texts and references. `interpolate` looks for `:-`,
`-` and `:?` one after the other and anywhere between the braces, so a default
that contains one of the marks is cut in the wrong place, and `:?` is never
taken for a mark: the whole expression is then the name.
-/

open Hostely.Lib

namespace Hostely.Apps

/-! ## References -/

def identifier : Bytes → Bool
  | [] => false
  | c :: name => (isalnum c && !isdigit c || c = 95) && name.all fun c => isalnum c || c = 95

abbrev Name := { name : Bytes // identifier name = true }

/-- A text that does not end the reference it stands in. -/
abbrev Inner := { text : Bytes // 125 ∉ text }

inductive Reference where
  /-- `${N}` -/
  | bare (name : Name)
  /-- `${N:-d}` -/
  | colon_dash (name : Name) (dflt : Inner)
  /-- `${N-d}` -/
  | dash (name : Name) (dflt : Inner)
  /-- `${N:?e}` -/
  | required (name : Name) (message : Inner)

namespace Reference

def name : Reference → Name
  | bare name | colon_dash name _ | dash name _ | required name _ => name

def dflt : Reference → Bytes
  | colon_dash _ d | dash _ d => d.1
  | bare _ | required _ _ => []

/-- What stands between the braces. -/
def expr : Reference → Bytes
  | bare name => name.1
  | colon_dash name d => name.1 ++ 58 :: 45 :: d.1
  | dash name d => name.1 ++ 45 :: d.1
  | required name e => name.1 ++ 58 :: 63 :: e.1

def text (r : Reference) : Bytes := 36 :: 123 :: r.expr ++ [125]

end Reference

/-- The value of a variable; an unset one has the empty value. -/
def Env.value_of (env : Env) (name : Name) : Bytes :=
  (env.extra.lookup name.1).getD ((env.getenv name.1).getD [])

def Reference.meaning (env : Env) (r : Reference) : Bytes :=
  if env.value_of r.name ≠ [] then env.value_of r.name else r.dflt

/-! ## Names -/

theorem name_chars (name : Name) : ∀ c ∈ name.1, isalnum c = true ∨ c = 95 := by
  obtain ⟨name, h⟩ := name
  intro c hc
  cases name with
  | nil => cases hc
  | cons d name =>
    simp only [identifier, Bool.and_eq_true, Bool.or_eq_true, List.all_eq_true, decide_eq_true_eq] at h
    rcases List.mem_cons.1 hc with rfl | hc
    · exact h.1.imp (fun h => h.1) id
    · exact h.2 c hc

/-- A character that is no letter, digit or underscore does not occur in a name. -/
theorem not_mem_name (name : Name) {c : UInt8} (hc : (isalnum c || c = 95) = false) : c ∉ name.1 := by
  intro h
  rcases name_chars name c h with ha | rfl
  · simp [ha] at hc
  · simp at hc

theorem trim_name (name : Name) : trim name.1 = name.1 := by
  have hspace : ∀ c ∈ name.1, isspace c = false := by
    intro c hc
    have := name_chars name c hc
    grind [isalnum, isdigit, isspace]
  apply trim_id
  · exact fun c hc => hspace c (List.mem_of_mem_head? hc)
  · exact fun c hc => hspace c (List.mem_of_mem_getLast? hc)

theorem env_value_name (env : Env) (name : Name) : env.value name.1 = env.value_of name := by
  have hc : c_str name.1 = name.1 := by
    apply List.takeWhile_eq_self_iff.2
    intro c hc
    have := not_mem_name name (c := 0) (by decide)
    simp only [ne_eq, decide_eq_true_eq]
    rintro rfl
    exact this hc
  rw [Env.value, Env.value_of, hc]
  cases env.extra.lookup name.1 <;> rfl

/-! ## Which name is asked -/

/-- The name and the default `interpolate` finds in an expression: it looks for
`:-`, then `-`, then `:?`. -/
def asked (expr : Bytes) : Bytes × Bytes :=
  match findSub? [58, 45] expr with
  | some sep => (expr.take sep, expr.drop (sep + 2))
  | none => match expr.idxOf? 45 with
    | some sep => if (findSub? [58, 63] expr).isSome then (expr, []) else (expr.take sep, expr.drop (sep + 1))
    | none => (expr, [])

theorem reference_eq (env : Env) (expr : Bytes) :
    reference env expr =
      if env.value (trim (asked expr).1) ≠ [] then env.value (trim (asked expr).1) else (asked expr).2 := by
  rfl

theorem asked_default_length (expr : Bytes) : (asked expr).2.length ≤ expr.length := by
  unfold asked
  split
  · simp
  · split
    · split <;> simp
    · simp

theorem idxOf?_mark {c : UInt8} {a : Bytes} (h : c ∉ a) (b : Bytes) : (a ++ c :: b).idxOf? c = some a.length := by
  induction a with
  | nil => simp [List.idxOf?_cons]
  | cons d a ih =>
    obtain ⟨hd, ha⟩ := not_or.1 (mt List.mem_cons.2 h)
    simp [List.idxOf?_cons, ih ha, Ne.symm hd]

/-- After a name, a mark that starts with a colon is found where it stands. -/
theorem findSub?_after_name (name : Name) (m : UInt8) (rest : Bytes) :
    findSub? [58, m] (name.1 ++ rest) = (findSub? [58, m] rest).map (· + name.1.length) :=
  findSub?_skip (not_mem_name name (by decide)) rest

theorem findSub?_here {pat : Bytes} (rest : Bytes) : findSub? pat (pat ++ rest) = some 0 :=
  findSub?_of_first (by simp) fun _ hm => absurd hm (Nat.not_lt_zero _)

theorem asked_bare (name : Name) : asked name.1 = (name.1, []) := by
  have hmark : findSub? [58, 45] name.1 = none := by
    rw [findSub?_eq_none]
    exact fun h => not_mem_name name (c := 58) (by decide) (h.subset (by decide))
  have hdash : name.1.idxOf? 45 = none := List.idxOf?_eq_none_iff.2 (not_mem_name name (by decide))
  rw [asked, hmark]
  simp [hdash]

theorem asked_colon_dash (name : Name) (d : Bytes) : asked (name.1 ++ 58 :: 45 :: d) = (name.1, d) := by
  have hmark : findSub? [58, 45] (name.1 ++ 58 :: 45 :: d) = some name.1.length := by
    have hhere : findSub? [58, 45] (58 :: 45 :: d) = some 0 := findSub?_here d
    have h := findSub?_after_name name 45 (58 :: 45 :: d)
    rw [hhere] at h
    simpa using h
  rw [asked, hmark]
  simp

/-- A default with the mark `:-` moves the cut into the default. -/
theorem asked_dash_mark (name : Name) {d : Bytes} {sep : Nat} (h : findSub? [58, 45] d = some sep) :
    asked (name.1 ++ 45 :: d) = (name.1 ++ 45 :: d.take sep, d.drop (sep + 2)) := by
  have hskip : findSub? [58, 45] (45 :: d) = some (sep + 1) := by
    have hs : findSub? [58, 45] ([45] ++ d) = _ := findSub?_skip (by decide) d
    rw [h] at hs
    simpa using hs
  have hmark : findSub? [58, 45] (name.1 ++ 45 :: d) = some (sep + 1 + name.1.length) := by
    have hs := findSub?_after_name name 45 (45 :: d)
    rw [hskip] at hs
    simpa using hs
  have hlen : sep + 1 + name.1.length = (name.1 ++ 45 :: d.take sep).length := by
    have := (findSub?_eq_some h).1
    simp at this ⊢
    omega
  have hshape : name.1 ++ 45 :: d = (name.1 ++ 45 :: d.take sep) ++ d.drop sep := by simp
  rw [asked, hmark]
  dsimp only
  rw [hshape, hlen, List.take_left, List.drop_append, List.drop_of_length_le (Nat.le_add_right _ _)]
  simp [List.drop_drop]

theorem asked_dash (name : Name) {d : Bytes} (h : ¬ [58, 45] <:+: d) :
    asked (name.1 ++ 45 :: d) = if [58, 63] <:+: d then (name.1 ++ 45 :: d, []) else (name.1, d) := by
  have hskip (m : UInt8) : (findSub? [58, m] (name.1 ++ 45 :: d)).isSome = (findSub? [58, m] d).isSome := by
    have hs : findSub? [58, m] ([45] ++ d) = _ := findSub?_skip (by decide) d
    have hs' : findSub? [58, m] (45 :: d) = (findSub? [58, m] d).map (· + 1) := by simpa using hs
    rw [findSub?_after_name, hs']
    simp
  have hnone : findSub? [58, 45] (name.1 ++ 45 :: d) = none := by
    have := hskip 45
    rw [findSub?_eq_none.2 h] at this
    simpa using this
  have hdash : (name.1 ++ 45 :: d).idxOf? 45 = some name.1.length := idxOf?_mark (not_mem_name name (by decide)) d
  have hasks : (findSub? [58, 63] (name.1 ++ 45 :: d)).isSome = (findSub? [58, 63] d).isSome := hskip 63
  rw [asked, hnone]
  dsimp only
  rw [hdash]
  dsimp only
  rw [hasks]
  by_cases hq : [58, 63] <:+: d
  · rw [if_pos (findSub?_isSome.2 hq), if_pos hq]
  · rw [if_neg (mt findSub?_isSome.1 hq), if_neg hq]
    simp

/-- The mark `:?` never ends a name. -/
theorem asked_required (name : Name) (e : Bytes) : 58 ∈ (asked (name.1 ++ 58 :: 63 :: e)).1 := by
  have hask : (findSub? [58, 63] (name.1 ++ 58 :: 63 :: e)).isSome = true :=
    findSub?_isSome.2 ⟨name.1, e, by simp⟩
  have hmark : findSub? [58, 45] (name.1 ++ 58 :: 63 :: e) =
      (findSub? [58, 45] e).map fun n => n + 2 + name.1.length := by
    rw [findSub?_after_name, findSub?, if_neg (by simp [List.isPrefixOf]), findSub?, if_neg (by simp [List.isPrefixOf]),
      Option.map_map, Option.map_map]
    rfl
  unfold asked
  split
  · rename_i sep hsep
    obtain ⟨n, -, rfl⟩ := Option.map_eq_some_iff.1 (hmark.symm.trans hsep)
    have hcut : n + 2 + name.1.length = name.1.length + (n + 2) := Nat.add_comm _ _
    dsimp only
    rw [hcut, List.take_length_add_append]
    simp
  · split
    · rw [if_pos hask]
      simp
    · simp

/-! ## Templates -/

theorem interpolate_skip (env : Env) (n : Nat) (text : Bytes) :
    interpolate_from env n text = interpolate env (text.drop n) := by
  induction n generalizing text with
  | zero => rfl
  | succ n ih =>
    cases text with
    | nil => rfl
    | cons c text => rw [interpolate_from, if_pos (Nat.succ_pos n), Nat.add_sub_cancel, ih, List.drop_succ_cons]

/-- A text in which no reference starts stands for itself. -/
theorem interpolate_literal (env : Env) {t rest : Bytes} (h : ¬ [36, 123] <:+: t)
    (hrest : t.getLast? = some 36 → rest.head? ≠ some 123) : interpolate env (t ++ rest) = t ++ interpolate env rest := by
  induction t with
  | nil => rfl
  | cons c t ih =>
    obtain ⟨hpre, hin⟩ := not_or.1 (mt List.infix_cons_iff.2 h)
    have hstart : ¬ (c = 36 ∧ (t ++ rest).head? = some 123) := by
      rintro ⟨rfl, hhead⟩
      cases t with
      | nil => exact hrest rfl hhead
      | cons d t =>
        obtain rfl : d = 123 := Option.some.inj hhead
        exact hpre ⟨t, rfl⟩
    have hih : interpolate env (t ++ rest) = t ++ interpolate env rest := by
      apply ih hin
      intro hlast
      apply hrest
      cases t with
      | nil => cases hlast
      | cons d t => rwa [List.getLast?_cons_cons]
    rw [List.cons_append, interpolate, interpolate_from, if_neg (Nat.lt_irrefl 0), if_neg hstart, List.cons_append]
    exact congrArg (c :: ·) hih

theorem interpolate_reference (env : Env) {expr : Bytes} (h : 125 ∉ expr) (rest : Bytes) :
    interpolate env (36 :: 123 :: (expr ++ 125 :: rest)) = reference env expr ++ interpolate env rest := by
  have hend : (expr ++ 125 :: rest).idxOf? 125 = some expr.length := idxOf?_mark h rest
  rw [interpolate, interpolate_from, if_neg (Nat.lt_irrefl 0), if_pos ⟨rfl, rfl⟩, List.tail_cons, hend]
  dsimp only
  rw [interpolate_skip, List.take_left]
  congr 2
  rw [List.drop_succ_cons, List.drop_append, List.drop_of_length_le (Nat.le_succ _)]
  simp

/-- A text without `$`. -/
abbrev Literal := { text : Bytes // 36 ∉ text }

inductive Piece where
  | literal (text : Literal)
  | reference (r : Reference)

def Piece.text : Piece → Bytes
  | literal text => text.1
  | reference r => r.text

def Piece.meaning (env : Env) : Piece → Bytes
  | literal text => text.1
  | reference r => r.meaning env

/-- What `interpolate` makes of it. -/
def Piece.found (env : Env) : Piece → Bytes
  | literal text => text.1
  | reference r => Apps.reference env r.expr

def template (pieces : List Piece) : Bytes := pieces.flatMap Piece.text

def meaning (env : Env) (pieces : List Piece) : Bytes := pieces.flatMap (Piece.meaning env)

theorem Reference.expr_inner (r : Reference) : 125 ∉ r.expr := by
  cases r with
  | bare name => exact not_mem_name name (by decide)
  | colon_dash name d | dash name d | required name d =>
    simp [Reference.expr, not_mem_name name (c := 125) (by decide), d.2]

theorem interpolate_reference_text (env : Env) (r : Reference) (rest : Bytes) :
    interpolate env (r.text ++ rest) = reference env r.expr ++ interpolate env rest := by
  rw [← interpolate_reference env r.expr_inner]
  simp [Reference.text]

theorem interpolate_template (env : Env) (pieces : List Piece) :
    interpolate env (template pieces) = pieces.flatMap (Piece.found env) := by
  induction pieces with
  | nil => rfl
  | cons p pieces ih =>
    rw [template, List.flatMap_cons, List.flatMap_cons, ← ih]
    cases p with
    | literal t =>
      have hnone : ¬ [36, 123] <:+: t.1 := fun h => t.2 (h.subset (by decide))
      exact interpolate_literal env hnone fun hlast => absurd (List.mem_of_mem_getLast? hlast) t.2
    | reference r => exact interpolate_reference_text env r _

/-! ## Which references are understood -/

/-- The forms `${N}` and `${N:-d}`, and `${N-d}` when the default has no other mark. -/
def Reference.Understood : Reference → Prop
  | bare _ | colon_dash _ _ => True
  | dash _ d => ¬ [58, 45] <:+: d.1 ∧ ¬ [58, 63] <:+: d.1
  | required _ _ => False

theorem asked_understood {r : Reference} (h : r.Understood) : asked r.expr = (r.name.1, r.dflt) := by
  cases r with
  | bare name => exact asked_bare name
  | colon_dash name d => exact asked_colon_dash name d.1
  | dash name d =>
    rw [Reference.expr, asked_dash name h.1, if_neg h.2]
    rfl
  | required name e => exact h.elim

theorem reference_understood {r : Reference} (h : r.Understood) (env : Env) : reference env r.expr = r.meaning env := by
  rw [reference_eq, asked_understood h, trim_name, env_value_name, Reference.meaning]

theorem mem_trim {c : UInt8} {s : Bytes} (h : c ∈ s) (hc : isspace c = false) : c ∈ trim s := by
  have hdrop {t : Bytes} (ht : c ∈ t) : c ∈ t.dropWhile isspace := by
    rw [← List.takeWhile_append_dropWhile (p := isspace) (l := t)] at ht
    refine (List.mem_append.1 ht).resolve_left fun htake => ?_
    have := List.mem_takeWhile_imp htake
    rw [hc] at this
    cases this
  rw [trim, List.mem_reverse]
  exact hdrop (List.mem_reverse.2 (hdrop h))

/-- For the others, what is asked is the name of no variable. -/
theorem asked_not_understood {r : Reference} (h : ¬ r.Understood) (name : Name) : trim (asked r.expr).1 ≠ name.1 := by
  have hmark {c : UInt8} (hc : c ∈ (asked r.expr).1) (hspace : isspace c = false)
      (hname : (isalnum c || c = 95) = false) : trim (asked r.expr).1 ≠ name.1 := by
    intro he
    exact not_mem_name name hname (he ▸ mem_trim hc hspace)
  cases r with
  | bare _ | colon_dash _ _ => exact absurd trivial h
  | dash n d =>
    refine hmark (c := 45) ?_ rfl rfl
    by_cases hin : [58, 45] <:+: d.1
    · obtain ⟨sep, hsep⟩ := Option.isSome_iff_exists.1 (findSub?_isSome.2 hin)
      rw [Reference.expr, asked_dash_mark n hsep]
      simp
    · have hask : [58, 63] <:+: d.1 := by
        by_contra hno
        exact h ⟨hin, hno⟩
      rw [Reference.expr, asked_dash n hin, if_pos hask]
      simp
  | required n e => exact hmark (asked_required n e.1) rfl rfl

/-! ## The law -/

/-- The environment of one variable. -/
def lone (name : Name) (value : Bytes) : Env := ⟨[(name.1, value)], fun _ => none⟩

theorem lone_other {name : Name} {asked : Bytes} (h : asked ≠ name.1) (value : Bytes) :
    (lone name value).value asked = [] := by
  simp [Env.value, lone, List.lookup_cons, beq_eq_false_iff_ne.2 h]

theorem found_not_understood {r : Reference} (h : ¬ r.Understood) (name : Name) (value : Bytes) :
    (reference (lone name value) r.expr).length ≤ r.text.length := by
  have := asked_default_length r.expr
  rw [reference_eq, lone_other (asked_not_understood h name)]
  simp [Reference.text]
  omega

theorem found_length (name : Name) (value : Bytes) (pieces : List Piece) :
    (pieces.flatMap (Piece.found (lone name value))).length ≤
      (meaning (lone name value) pieces).length + (template pieces).length := by
  induction pieces with
  | nil => simp
  | cons p pieces ih =>
    have hp : (p.found (lone name value)).length ≤ (p.meaning (lone name value)).length + p.text.length := by
      cases p with
      | literal t => exact Nat.le_add_right _ _
      | reference r =>
        by_cases hr : r.Understood
        · exact (congrArg List.length (reference_understood hr _)).le.trans (Nat.le_add_right _ _)
        · exact (found_not_understood hr name value).trans (Nat.le_add_left _ _)
    simp only [meaning, template, List.flatMap_cons, List.length_append] at ih ⊢
    omega

/-- A template means what it says in every environment exactly when all of its
references are understood. -/
theorem interpolate_iff (pieces : List Piece) :
    (∀ env, interpolate env (template pieces) = meaning env pieces) ↔
      ∀ r, .reference r ∈ pieces → r.Understood := by
  constructor
  · intro h r hr
    by_contra hnot
    obtain ⟨front, back, rfl⟩ := List.append_of_mem hr
    -- a value longer than the whole template has no place in what is found
    have hlong := h (lone r.name (List.replicate ((template (front ++ .reference r :: back)).length + 1) 120))
    have hmeans : (r.meaning (lone r.name (List.replicate ((template (front ++ .reference r :: back)).length + 1) 120))).length =
        (template (front ++ .reference r :: back)).length + 1 := by
      simp [Reference.meaning, Env.value_of, lone]
    generalize List.replicate ((template (front ++ .reference r :: back)).length + 1) (120 : UInt8) = value at hlong hmeans
    have hfront := found_length r.name value front
    have hback := found_length r.name value back
    have hfound := found_not_understood hnot r.name value
    rw [interpolate_template] at hlong
    have hlen := congrArg List.length hlong
    simp only [meaning, template, List.flatMap_append, List.flatMap_cons, List.length_append, Piece.found, Piece.meaning,
      Piece.text] at *
    omega
  · intro h env
    rw [interpolate_template, meaning]
    apply List.flatMap_congr
    intro p hp
    cases p with
    | literal t => rfl
    | reference r => exact reference_understood (h r hp) env

def db : Name := ⟨bytes "DB", by decide⟩

/-- `${DB:?no database}` is empty though `DB` is set. -/
theorem required_not_found :
    ¬ ∀ (env : Env) (pieces : List Piece), interpolate env (template pieces) = meaning env pieces := by
  intro h
  have := h (lone db (bytes "pg")) [.reference (.required db ⟨bytes "no database", by decide⟩)]
  exact absurd this (by decide +kernel)

end Hostely.Apps
