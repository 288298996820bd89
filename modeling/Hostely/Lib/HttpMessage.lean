import Hostely.Lib.HttpHead
/-!
# Framed HTTP messages

A message is a first line, header lines, an empty line and a body. Its bytes have at
most one reading of this kind, since CR and LF stand at the end of lines only; it is
framed when one of the header lines, and only one, tells the length of the body.
-/

namespace Hostely.Lib

/-- The name of a header line, in small letters. -/
def header_name (line : Bytes) : Bytes := (line.takeWhile (· ≠ 58)).map tolower

/-- The value of a header line. -/
def header_value (line : Bytes) : Bytes := (line.dropWhile (· ≠ 58)).tail.dropWhile (· = 32)

def is_length (line : Bytes) : Bool := header_name line = bytes "content-length"

/-- The digits of a number. -/
def Says (value : Bytes) (n : Nat) : Prop := value ≠ [] ∧ (∀ c ∈ value, isdigit c = true) ∧ decimal value = n

structure Message where
  start : Bytes
  headers : List Bytes
  body : Bytes
deriving DecidableEq, Repr

namespace Message

def block (headers : List Bytes) (body : Bytes) : Bytes := headers.flatMap (· ++ crlf) ++ (crlf ++ body)

def text (m : Message) : Bytes := m.start ++ (crlf ++ block m.headers m.body)

/-- Every line is one, and a header line is not empty. -/
structure WellFormed (m : Message) : Prop where
  start : Plain m.start
  headers : ∀ l ∈ m.headers, Plain l ∧ 58 ∈ l

/-- One header line tells the length, and it is that of the body. -/
def Measured (m : Message) : Prop := ∃ l, m.headers.filter is_length = [l] ∧ Says (header_value l) m.body.length

end Message

/-- Bytes that are framed, after a first line that begins so. -/
def Framed (version out : Bytes) : Prop :=
  ∃ m : Message, m.text = out ∧ m.WellFormed ∧ version <+: m.start ∧ m.Measured

theorem says_digits (n : Nat) : Says (digits 10 n) n :=
  ⟨mt List.map_eq_nil_iff.1 Nat.toDigits_ne_nil, digits_isdigit n, decimal_digits n⟩

theorem header_name_of {name : Bytes} (h : 58 ∉ name) (rest : Bytes) : header_name (name ++ 58 :: rest) = name.map tolower := by
  rw [header_name, (takeWhile_before h rest).1]

theorem header_value_of {name : Bytes} (h : 58 ∉ name) (rest : Bytes) :
    header_value (name ++ 58 :: rest) = rest.dropWhile (· = 32) := by
  rw [header_value, (takeWhile_before h rest).2, List.tail_cons]

/-- A Content-Length as it is written. -/
theorem written_length (n : Nat) : is_length (bytes "Content-Length: " ++ digits 10 n) = true ∧
    header_value (bytes "Content-Length: " ++ digits 10 n) = digits 10 n := by
  have hname : bytes "Content-Length: " = bytes "Content-Length" ++ [58, 32] := by decide
  have hsplit : bytes "Content-Length: " ++ digits 10 n = bytes "Content-Length" ++ 58 :: (32 :: digits 10 n) := by
    rw [hname, List.append_assoc]
    rfl
  have hcolon : 58 ∉ bytes "Content-Length" := by decide
  rw [hsplit, is_length, header_name_of hcolon, header_value_of hcolon]
  refine ⟨by decide, ?_⟩
  obtain ⟨hne, hall, -⟩ := says_digits n
  obtain ⟨c, rest, heq⟩ := List.exists_cons_of_ne_nil hne
  have hc : c ≠ 32 := by
    rintro rfl
    exact absurd (hall 32 (heq ▸ List.mem_cons_self)) (by decide)
  rw [heq]
  simp [hc]

theorem Says.unique {value : Bytes} {m n : Nat} (hm : Says value m) (hn : Says value n) : m = n :=
  hm.2.2.symm.trans hn.2.2

/-- The first line of a text is read in one way. -/
theorem line_unique {a b x y : Bytes} (ha : Plain a) (hb : Plain b) (h : a ++ (crlf ++ x) = b ++ (crlf ++ y)) :
    a = b ∧ x = y := by
  induction a generalizing b with
  | nil =>
    cases b with
    | nil => exact ⟨rfl, List.append_cancel_left h⟩
    | cons d b => exact absurd (List.cons.inj h).1.symm (hb d List.mem_cons_self).1
  | cons c a ih =>
    obtain ⟨hc, ha⟩ := List.forall_mem_cons.1 ha
    cases b with
    | nil => exact absurd (List.cons.inj h).1 hc.1
    | cons d b =>
      obtain ⟨rfl, htail⟩ := List.cons.inj h
      obtain ⟨rfl, hxy⟩ := ih ha (List.forall_mem_cons.1 hb).2 htail
      exact ⟨rfl, hxy⟩

namespace Message

theorem block_cons (l : Bytes) (headers : List Bytes) (body : Bytes) :
    block (l :: headers) body = l ++ (crlf ++ block headers body) := by
  simp [block]

theorem block_unique {hs hs' : List Bytes} {x y : Bytes} (h : ∀ l ∈ hs, Plain l ∧ 58 ∈ l)
    (h' : ∀ l ∈ hs', Plain l ∧ 58 ∈ l) (heq : block hs x = block hs' y) : hs = hs' ∧ x = y := by
  have hends : ∀ {l : Bytes} {hs : List Bytes} {x y : Bytes}, Plain l ∧ 58 ∈ l → block [] x ≠ block (l :: hs) y := by
    intro l hs x y hl heq
    rw [block_cons] at heq
    have hnil := (line_unique (a := []) (by simp [Plain]) hl.1 heq).1
    exact absurd hl.2 (hnil ▸ List.not_mem_nil)
  induction hs generalizing hs' with
  | nil =>
    cases hs' with
    | nil => exact ⟨rfl, List.append_cancel_left heq⟩
    | cons l hs' => exact absurd heq (hends (h' l List.mem_cons_self))
  | cons l hs ih =>
    obtain ⟨hl, h⟩ := List.forall_mem_cons.1 h
    cases hs' with
    | nil => exact absurd heq.symm (hends hl)
    | cons l' hs' =>
      obtain ⟨hl', hrest⟩ := List.forall_mem_cons.1 h'
      rw [block_cons, block_cons] at heq
      obtain ⟨rfl, htail⟩ := line_unique hl.1 hl'.1 heq
      obtain ⟨rfl, hxy⟩ := ih h hrest htail
      exact ⟨rfl, hxy⟩

/-- The bytes of a message are those of no other. -/
theorem text_unique {m m' : Message} (h : m.WellFormed) (h' : m'.WellFormed) (heq : m.text = m'.text) : m = m' := by
  obtain ⟨hstart, hblock⟩ := line_unique h.start h'.start heq
  obtain ⟨hheaders, hbody⟩ := block_unique h.headers h'.headers hblock
  cases m
  cases m'
  simp_all

theorem framed_measured {m : Message} {version : Bytes} (h : m.WellFormed) (hversion : version <+: m.start) :
    Framed version m.text ↔ m.Measured := by
  refine ⟨?_, fun hm => ⟨m, rfl, h, hversion, hm⟩⟩
  rintro ⟨m', heq, h', -, hm⟩
  exact text_unique h' h heq ▸ hm

/-- Less than the whole of a message that tells its length is not framed. -/
theorem cut_not_framed {m : Message} {version out rest l : Bytes} (h : m.WellFormed) (hl : l ∈ m.headers.filter is_length)
    (htells : Says (header_value l) m.body.length) (hcut : out ++ rest = m.text) (hrest : rest ≠ []) :
    ¬ Framed version out := by
  rintro ⟨m', rfl, h', -, l', hl', htells'⟩
  let whole : Message := ⟨m'.start, m'.headers, m'.body ++ rest⟩
  have hwhole : whole.text = m.text := by
    rw [← hcut]
    simp [whole, text, block]
  obtain rfl : whole = m := text_unique ⟨h'.start, h'.headers⟩ h hwhole
  obtain rfl : l = l' := List.mem_singleton.1 (hl' ▸ hl)
  have hlen : m'.body.length = (m'.body ++ rest).length := htells'.unique htells
  rw [List.length_append] at hlen
  exact hrest (List.length_eq_zero_iff.1 (by omega))

end Message

end Hostely.Lib
