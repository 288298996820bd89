import Hostely.Lib.Text
/-!
# Heads of HTTP requests

A head is a request line and header fields, each ended by CR LF, and an empty
line. Its text has a CR only in front of the LF that ends a line, so that a
search for a field name after CR LF finds a field with that name.
-/

namespace Hostely.Lib

def crlf : Bytes := [13, 10]

/-- Text that is part of one line. -/
def Plain (text : Bytes) : Prop := ∀ c ∈ text, c ≠ 13 ∧ c ≠ 10

instance (text : Bytes) : Decidable (Plain text) := inferInstanceAs (Decidable (∀ c ∈ text, c ≠ 13 ∧ c ≠ 10))

structure Field where
  name : Bytes
  value : Bytes
deriving DecidableEq, Repr

namespace Field

def text (f : Field) : Bytes := f.name ++ 58 :: f.value

structure WellFormed (f : Field) : Prop where
  name : Plain f.name
  colon : 58 ∉ f.name
  value : Plain f.value

end Field

structure RequestHead where
  line : Bytes
  fields : List Field
deriving DecidableEq, Repr

namespace RequestHead

structure WellFormed (head : RequestHead) : Prop where
  line : Plain head.line
  fields : ∀ f ∈ head.fields, f.WellFormed

/-- A line, the lines of the fields, the empty line. -/
def lines (line : Bytes) : List Field → Bytes
  | [] => line ++ (crlf ++ crlf)
  | f :: fields => line ++ (crlf ++ lines f.text fields)

def text (head : RequestHead) : Bytes := lines head.line head.fields

end RequestHead

theorem Plain.append {a b : Bytes} (ha : Plain a) (hb : Plain b) : Plain (a ++ b) :=
  List.forall_mem_append.2 ⟨ha, hb⟩

theorem Plain.not_cr {text : Bytes} (h : Plain text) : 13 ∉ text := fun hm => (h 13 hm).1 rfl

theorem Field.WellFormed.plain {f : Field} (h : f.WellFormed) : Plain f.text := by
  intro c hc
  rcases List.mem_append.1 hc with hc | hc
  · exact h.name c hc
  · rcases List.mem_cons.1 hc with rfl | hc
    · decide
    · exact h.value c hc

/-- A line that is not empty is no empty line. -/
theorem Plain.not_crlf {line : Bytes} (h : Plain line) (hne : line ≠ []) (rest : Bytes) : ¬ crlf <+: line ++ rest := by
  intro hpre
  cases line with
  | nil => exact hne rfl
  | cons c line => exact (h c List.mem_cons_self).1 (List.cons_prefix_cons.1 hpre).1.symm

/-- A search that begins with CR LF, over one line. -/
theorem find_after_line {line : Bytes} (h : Plain line) (pat rest : Bytes) :
    findSub? (crlf ++ pat) (line ++ (crlf ++ rest)) =
      if pat <+: rest then some line.length else (findSub? (crlf ++ pat) rest).map (· + (line.length + 2)) := by
  have hskip : findSub? (13 :: 10 :: pat) (line ++ (crlf ++ rest)) =
      (findSub? (13 :: 10 :: pat) (crlf ++ rest)).map (· + line.length) := findSub?_skip h.not_cr _
  have hlf : findSub? (13 :: 10 :: pat) (10 :: rest) = (findSub? (13 :: 10 :: pat) rest).map (· + 1) :=
    findSub?_skip (a := [10]) (by decide) rest
  refine hskip.trans ?_
  by_cases hpat : pat <+: rest
  · have hpre : (13 :: 10 :: pat).isPrefixOf (13 :: 10 :: rest) = true := by
      simpa [List.isPrefixOf] using List.isPrefixOf_iff_prefix.2 hpat
    have hhere : findSub? (13 :: 10 :: pat) (crlf ++ rest) = some 0 := if_pos hpre
    rw [hhere, if_pos hpat]
    simp
  · have hpre : ¬ (13 :: 10 :: pat).isPrefixOf (13 :: 10 :: rest) = true := by
      simpa [List.isPrefixOf] using mt List.isPrefixOf_iff_prefix.1 hpat
    have hlater : findSub? (13 :: 10 :: pat) (crlf ++ rest) = (findSub? (13 :: 10 :: pat) (10 :: rest)).map (· + 1) :=
      if_neg hpre
    rw [hlater, hlf, if_neg hpat, Option.map_map, Option.map_map]
    congr 1
    funext n
    simp only [Function.comp_apply]
    omega

namespace RequestHead

theorem drop_line (line rest : Bytes) (n : Nat) : (line ++ (crlf ++ rest)).drop (line.length + 2 + n) = rest.drop n := by
  have hlen : line.length + 2 = (line ++ crlf).length := by simp [crlf]
  rw [hlen, ← List.append_assoc, List.drop_length_add_append]

theorem lines_split (line : Bytes) (fields : List Field) : ∃ rest, lines line fields = line ++ (crlf ++ rest) := by
  cases fields with
  | nil => exact ⟨crlf, rfl⟩
  | cons f fields => exact ⟨lines f.text fields, rfl⟩

theorem length_snoc (line : Bytes) (fields : List Field) (f : Field) :
    (lines line (fields ++ [f])).length = (lines line fields).length + (f.text.length + 2) := by
  induction fields generalizing line with
  | nil =>
    simp only [List.nil_append, lines, crlf, List.length_append, List.length_cons, List.length_nil]
    omega
  | cons g fields ih =>
    rw [List.cons_append, lines, lines, List.length_append, List.length_append, List.length_append, List.length_append, ih]
    omega

/-- Whether a field comes next. -/
theorem next_field {name : Bytes} (hname : 58 ∉ name) {f : Field} (hf : f.WellFormed) (fields : List Field) :
    name ++ [58] <+: lines f.text fields ↔ name = f.name := by
  obtain ⟨rest, hrest⟩ := lines_split f.text fields
  rw [hrest, Field.text, List.append_assoc, List.cons_append, before_first hname hf.colon]
  exact and_iff_left (List.nil_prefix)

theorem find_none {name : Bytes} (hname : 58 ∉ name) (line : Bytes) (fields : List Field) (hline : Plain line)
    (hfields : ∀ f ∈ fields, f.WellFormed) (hno : ∀ f ∈ fields, f.name ≠ name) :
    findSub? (crlf ++ (name ++ [58])) (lines line fields) = none := by
  induction fields generalizing line with
  | nil =>
    have hcolon : ∀ {pat : Bytes}, 58 ∈ pat → ¬ pat <:+: crlf := fun hm hin => absurd (hin.subset hm) (by decide)
    have hpat : ¬ (name ++ [58]) <+: crlf := fun h => hcolon (by simp) h.isInfix
    have hall : findSub? (crlf ++ (name ++ [58])) crlf = none := findSub?_eq_none.2 (hcolon (by simp))
    rw [lines, find_after_line hline, if_neg hpat, hall]
    rfl
  | cons f fields ih =>
    obtain ⟨hf, hfields⟩ := List.forall_mem_cons.1 hfields
    obtain ⟨hn, hno⟩ := List.forall_mem_cons.1 hno
    rw [lines, find_after_line hline, if_neg fun hpre => hn ((next_field hname hf fields).1 hpre).symm,
      ih f.text hf.plain hfields hno]
    rfl

/-- Searching for a field by its name finds the first field of that name, and its
value behind the place. -/
theorem find_first {name : Bytes} (hname : 58 ∉ name) (line : Bytes) (pre : List Field) {f : Field} (post : List Field)
    (hline : Plain line) (hfields : ∀ g ∈ pre ++ f :: post, g.WellFormed) (hpre : ∀ g ∈ pre, g.name ≠ name)
    (hf : f.name = name) :
    ∃ n rest, findSub? (crlf ++ (name ++ [58])) (lines line (pre ++ f :: post)) = some n ∧ n + 4 = (lines line pre).length ∧
      (lines line (pre ++ f :: post)).drop (n + (name.length + 3)) = f.value ++ (crlf ++ rest) := by
  induction pre generalizing line with
  | nil =>
    obtain ⟨rest, hrest⟩ := lines_split f.text post
    have hnext := (next_field hname (hfields f List.mem_cons_self) post).2 hf.symm
    have hlen : line.length + (name.length + 3) = line.length + 2 + (f.name ++ [58]).length := by
      rw [hf, List.length_append, List.length_singleton]
      omega
    have happend : f.name ++ 58 :: f.value = (f.name ++ [58]) ++ f.value := by simp
    refine ⟨line.length, rest, ?_, by simp [lines, crlf], ?_⟩
    · rw [List.nil_append, lines, find_after_line hline, if_pos hnext]
    · rw [List.nil_append, lines, hlen, drop_line, hrest, Field.text, happend, List.append_assoc, List.drop_left]
  | cons g pre ih =>
    rw [List.cons_append] at hfields ⊢
    obtain ⟨hg, hfields⟩ := List.forall_mem_cons.1 hfields
    obtain ⟨hn, hpre⟩ := List.forall_mem_cons.1 hpre
    obtain ⟨n, rest, hfind, hlen, hdrop⟩ := ih g.text hg.plain hfields hpre
    refine ⟨n + (line.length + 2), rest, ?_, ?_, ?_⟩
    · rw [lines, find_after_line hline, if_neg fun hnext => hn ((next_field hname hg _).1 hnext).symm, hfind]
      rfl
    · rw [lines, List.length_append, List.length_append, ← hlen, crlf]
      simp only [List.length_cons, List.length_nil]
      omega
    · have hlen : n + (line.length + 2) + (name.length + 3) = line.length + 2 + (n + (name.length + 3)) := by omega
      rw [lines, hlen, drop_line, hdrop]

/-- No field has the name, or the first one that has it is found. -/
theorem find_field {name : Bytes} (hname : 58 ∉ name) (line : Bytes) (fields : List Field) (hline : Plain line)
    (hfields : ∀ f ∈ fields, f.WellFormed) :
    ((∀ f ∈ fields, f.name ≠ name) ∧ findSub? (crlf ++ (name ++ [58])) (lines line fields) = none) ∨
      ∃ pre f post, fields = pre ++ f :: post ∧ f.name = name ∧ ∃ n rest,
        findSub? (crlf ++ (name ++ [58])) (lines line fields) = some n ∧ n + 4 = (lines line pre).length ∧
          (lines line fields).drop (n + (name.length + 3)) = f.value ++ (crlf ++ rest) := by
  cases hfind : fields.find? fun f => f.name = name with
  | none =>
    have hno : ∀ f ∈ fields, f.name ≠ name := by simpa using hfind
    exact .inl ⟨hno, find_none hname line fields hline hfields hno⟩
  | some f =>
    obtain ⟨hf, pre, post, rfl, hpre⟩ := List.find?_eq_some_iff_append.1 hfind
    exact .inr ⟨pre, f, post, rfl, by simpa using hf,
      find_first hname line pre post hline hfields (by simpa using hpre) (by simpa using hf)⟩

/-- The head ends where CR LF CR LF first stands. -/
theorem find_end (line : Bytes) (fields : List Field) (hline : Plain line) (hfields : ∀ f ∈ fields, f.WellFormed) :
    ∃ n, findSub? (crlf ++ crlf) (lines line fields) = some n ∧ (lines line fields).length = n + 4 := by
  induction fields generalizing line with
  | nil =>
    refine ⟨line.length, ?_, by simp [lines, crlf]⟩
    rw [lines, find_after_line hline, if_pos (List.prefix_refl _)]
  | cons f fields ih =>
    obtain ⟨hf, hfields⟩ := List.forall_mem_cons.1 hfields
    obtain ⟨n, hfind, hlen⟩ := ih f.text hf.plain hfields
    obtain ⟨rest, hrest⟩ := lines_split f.text fields
    have hpre : ¬ crlf <+: lines f.text fields := by
      rw [hrest]
      exact hf.plain.not_crlf (by simp [Field.text]) _
    refine ⟨n + (line.length + 2), ?_, ?_⟩
    · rw [lines, find_after_line hline, if_neg hpre, hfind]
      rfl
    · rw [lines, List.length_append, List.length_append, hlen, crlf]
      simp only [List.length_cons, List.length_nil]
      omega

end RequestHead

end Hostely.Lib
