import Hostely.Lib.Substring
import Mathlib.Data.Int.Init
import Mathlib.Data.List.TakeWhile
/-!
# Byte strings

`std::string` as a list of bytes, with the parts of the C and C++ libraries
that read them: `getline`, `operator>>`, `atoi`, the character classes of the C
locale, and the check for UTF-8 of a JSON library that throws on other text.
-/

namespace Hostely.Lib

abbrev Bytes := List UInt8

/-- The bytes of a literal. -/
def bytes (s : String) : Bytes := s.toUTF8.data.toList

theorem bytes_eq_nil (s : String) : bytes s = [] ↔ s = "" := by
  rw [← String.toByteArray_eq_empty_iff]
  simp [bytes, ByteArray.ext_iff]

/-! ## UTF-8 -/

/-- The continuation bytes that a lead byte asks for, each with its range. -/
def utf8_lead (b : UInt8) : Option (List (UInt8 × UInt8)) :=
  let tail : UInt8 × UInt8 := (0x80, 0xBF)
  if b ≤ 0x7F then some []
  else if 0xC2 ≤ b ∧ b ≤ 0xDF then some [tail]
  else if b = 0xE0 then some [(0xA0, 0xBF), tail]
  else if b = 0xED then some [(0x80, 0x9F), tail]
  else if 0xE1 ≤ b ∧ b ≤ 0xEF then some [tail, tail]
  else if b = 0xF0 then some [(0x90, 0xBF), tail, tail]
  else if 0xF1 ≤ b ∧ b ≤ 0xF3 then some [tail, tail, tail]
  else if b = 0xF4 then some [(0x80, 0x8F), tail, tail]
  else none

def utf8_step : List (UInt8 × UInt8) → UInt8 → Option (List (UInt8 × UInt8))
  | [], b => utf8_lead b
  | (lo, hi) :: rest, b => if lo ≤ b ∧ b ≤ hi then some rest else none

/-- `dump()` throws on a string that is not UTF-8. -/
def validUtf8 (text : Bytes) : Bool := text.foldlM utf8_step [] == some []

@[simp] theorem validUtf8_nil : validUtf8 [] = true := rfl

/-- A character that is complete has no say in what follows it. -/
theorem validUtf8_append {a : Bytes} (ha : validUtf8 a = true) (b : Bytes) : validUtf8 (a ++ b) = validUtf8 b := by
  unfold validUtf8 at ha ⊢
  rw [List.foldlM_append, eq_of_beq ha]
  rfl

theorem validUtf8_ascii {text : Bytes} (h : ∀ c ∈ text, c ≤ 0x7F) : validUtf8 text = true := by
  induction text with
  | nil => rfl
  | cons c text ih =>
    have hc : validUtf8 [c] = true := by
      simp [validUtf8, utf8_step, utf8_lead, h c List.mem_cons_self]
    exact (validUtf8_append hc text).trans (ih fun x hx => h x (List.mem_cons_of_mem _ hx))

/-! ## Literals are UTF-8 -/

theorem utf8_tail {lo hi : UInt8} {rest : List (UInt8 × UInt8)} {n : Nat} (text : Bytes) (hn : n < 0x40) (hlo : lo.toNat ≤ n + 0x80)
    (hhi : n + 0x80 ≤ hi.toNat) :
    (UInt8.ofNat (n + 0x80) :: text).foldlM utf8_step ((lo, hi) :: rest) = text.foldlM utf8_step rest := by
  have hbyte : (UInt8.ofNat (n + 0x80)).toNat = n + 0x80 := UInt8.toNat_ofNat_of_lt' (by change n + 0x80 < 256; omega)
  have hstep : utf8_step ((lo, hi) :: rest) (UInt8.ofNat (n + 0x80)) = some rest := by
    refine if_pos ⟨?_, ?_⟩
    · rwa [UInt8.le_iff_toNat_le, hbyte]
    · rwa [UInt8.le_iff_toNat_le, hbyte]
  rw [List.foldlM_cons, hstep]
  rfl

theorem utf8_begins {b : UInt8} {rest : List (UInt8 × UInt8)} (text : Bytes) (h : utf8_lead b = some rest) :
    (b :: text).foldlM utf8_step [] = text.foldlM utf8_step rest := by
  rw [List.foldlM_cons, utf8_step, h]
  rfl

/-- The four lengths of a character, by the bits of its first byte. -/
theorem utf8_char (c : Char) : (String.utf8EncodeChar c).foldlM utf8_step [] = some [] := by
  have hvalid : c.val.toNat < 0xD800 ∨ 0xDFFF < c.val.toNat ∧ c.val.toNat < 0x110000 := c.valid
  have hone : ∀ k < 0x80, utf8_lead (UInt8.ofNat k) = some [] := by decide
  have htwo : ∀ k < 0x20, 2 ≤ k → utf8_lead (UInt8.ofNat (k + 0xC0)) = some [(0x80, 0xBF)] := by decide
  have hthree : ∀ k < 0x10, utf8_lead (UInt8.ofNat (k + 0xE0)) =
      some [(if k = 0 then 0xA0 else 0x80, if k = 13 then 0x9F else 0xBF), (0x80, 0xBF)] := by decide
  have hfour : ∀ k < 5, utf8_lead (UInt8.ofNat (k + 0xF0)) =
      some [(if k = 0 then 0x90 else 0x80, if k = 4 then 0x8F else 0xBF), (0x80, 0xBF), (0x80, 0xBF)] := by decide
  have hlast (n : Nat) : n % 0x40 < 0x40 ∧ (0x80 : UInt8).toNat ≤ n % 0x40 + 0x80 ∧ n % 0x40 + 0x80 ≤ (0xBF : UInt8).toNat := by
    have h := Nat.mod_lt n (by decide : 0x40 > 0)
    exact ⟨h, Nat.le_add_left _ _, by change n % 0x40 + 128 ≤ 191; omega⟩
  unfold String.utf8EncodeChar
  generalize c.val.toNat = v at *
  dsimp only
  split
  · rw [utf8_begins _ (hone v (by omega))]
    rfl
  · split
    · rw [utf8_begins _ (htwo _ (by omega) (by omega)), utf8_tail _ (hlast v).1 (hlast v).2.1 (hlast v).2.2]
      rfl
    · split
      · have hlo : (if v / 4096 % 0x10 = 0 then 0xA0 else 0x80 : UInt8).toNat ≤ v / 64 % 0x40 + 0x80 := by
          split
          · change 160 ≤ _
            omega
          · exact (hlast _).2.1
        have hhi : v / 64 % 0x40 + 0x80 ≤ (if v / 4096 % 0x10 = 13 then 0x9F else 0xBF : UInt8).toNat := by
          split
          · change _ ≤ 159
            omega
          · exact (hlast _).2.2
        rw [utf8_begins _ (hthree _ (by omega)), utf8_tail _ (hlast _).1 hlo hhi, utf8_tail _ (hlast v).1 (hlast v).2.1 (hlast v).2.2]
        rfl
      · have hlo : (if v / 262144 % 8 = 0 then 0x90 else 0x80 : UInt8).toNat ≤ v / 4096 % 0x40 + 0x80 := by
          split
          · change 144 ≤ _
            omega
          · exact (hlast _).2.1
        have hhi : v / 4096 % 0x40 + 0x80 ≤ (if v / 262144 % 8 = 4 then 0x8F else 0xBF : UInt8).toNat := by
          split
          · change _ ≤ 143
            omega
          · exact (hlast _).2.2
        rw [utf8_begins _ (hfour _ (by omega)), utf8_tail _ (hlast _).1 hlo hhi, utf8_tail _ (hlast _).1 (hlast _).2.1 (hlast _).2.2,
          utf8_tail _ (hlast v).1 (hlast v).2.1 (hlast v).2.2]
        rfl

/-- A literal can be written by a JSON library. -/
@[simp] theorem validUtf8_bytes (s : String) : validUtf8 (bytes s) = true := by
  obtain ⟨cs, hcs⟩ := s.isValidUTF8
  have hbytes : bytes s = cs.flatMap String.utf8EncodeChar := by
    unfold bytes String.toUTF8
    rw [hcs]
    simp [List.utf8Encode]
  rw [hbytes]
  clear hbytes hcs
  induction cs with
  | nil => rfl
  | cons c cs ih =>
    rw [List.flatMap_cons, validUtf8_append _ _]
    · exact ih
    · unfold validUtf8
      rw [utf8_char]
      rfl

/-! ## Characters -/

def isspace (c : UInt8) : Bool := c = 32 ∨ (9 ≤ c ∧ c ≤ 13)

def isdigit (c : UInt8) : Bool := 48 ≤ c ∧ c ≤ 57

def isalnum (c : UInt8) : Bool := isdigit c ∨ (65 ≤ c ∧ c ≤ 90) ∨ (97 ≤ c ∧ c ≤ 122)

def toupper (c : UInt8) : UInt8 := if 97 ≤ c ∧ c ≤ 122 then c - 32 else c

def tolower (c : UInt8) : UInt8 := if 65 ≤ c ∧ c ≤ 90 then c + 32 else c

/-- A fact about every byte, from all of them. -/
theorem forall_byte {p : UInt8 → Bool} (h : ((List.range 256).all fun n => p n.toUInt8) = true) (c : UInt8) : p c = true := by
  have hc := List.all_eq_true.1 h c.toNat (List.mem_range.2 c.toNat_lt)
  simpa using hc

theorem tolower_tolower (c : UInt8) : tolower (tolower c) = tolower c := by
  have hall : ((List.range 256).all fun n => tolower (tolower n.toUInt8) == tolower n.toUInt8) = true := by decide +kernel
  exact eq_of_beq (forall_byte (p := fun c => tolower (tolower c) == tolower c) hall c)

@[simp] theorem map_tolower_tolower (text : Bytes) : (text.map tolower).map tolower = text.map tolower := by
  rw [List.map_map]
  exact List.map_congr_left fun c _ => tolower_tolower c

/-- What is left of a character asks for no letters. -/
def AboveLetters (state : List (UInt8 × UInt8)) : Prop := ∀ r ∈ state, 0x80 ≤ r.1

theorem utf8_lead_above (b : UInt8) : AboveLetters ((utf8_lead b).getD []) := by
  have hall : ((List.range 256).all fun n => ((utf8_lead n.toUInt8).getD []).all fun r => 0x80 ≤ r.1) = true := by
    decide +kernel
  have hb := forall_byte (p := fun b => ((utf8_lead b).getD []).all fun r => 0x80 ≤ r.1) hall b
  exact fun r hr => of_decide_eq_true (List.all_eq_true.1 hb r hr)

theorem utf8_step_tolower {state : List (UInt8 × UInt8)} (hs : AboveLetters state) (b : UInt8) :
    utf8_step state (tolower b) = utf8_step state b := by
  have hall : ((List.range 256).all fun n => (tolower n.toUInt8 == n.toUInt8 || (n.toUInt8 < 0x80 && tolower n.toUInt8 < 0x80)) &&
      utf8_lead (tolower n.toUInt8) == utf8_lead n.toUInt8) = true := by decide +kernel
  have hb := forall_byte (p := fun b => (tolower b == b || (b < 0x80 && tolower b < 0x80)) &&
      utf8_lead (tolower b) == utf8_lead b) hall b
  simp only [Bool.and_eq_true, Bool.or_eq_true, beq_iff_eq, decide_eq_true_eq] at hb
  cases state with
  | nil => exact hb.2
  | cons r rest =>
    obtain ⟨lo, hi⟩ := r
    rcases hb.1 with hsame | ⟨hlow, hlow'⟩
    · rw [hsame]
    · have hlo : 0x80 ≤ lo := hs (lo, hi) List.mem_cons_self
      have hno : ¬ lo ≤ b := fun h => absurd (UInt8.lt_of_le_of_lt (UInt8.le_trans hlo h) hlow) (UInt8.lt_irrefl _)
      have hno' : ¬ lo ≤ tolower b := fun h => absurd (UInt8.lt_of_le_of_lt (UInt8.le_trans hlo h) hlow') (UInt8.lt_irrefl _)
      rw [utf8_step, utf8_step, if_neg fun h => hno' h.1, if_neg fun h => hno h.1]

theorem utf8_step_above {state state' : List (UInt8 × UInt8)} {b : UInt8} (hs : AboveLetters state)
    (h : utf8_step state b = some state') : AboveLetters state' := by
  cases state with
  | nil =>
    have hlead := utf8_lead_above b
    rw [show utf8_lead b = some state' from h] at hlead
    exact hlead
  | cons r rest =>
    obtain ⟨lo, hi⟩ := r
    rw [utf8_step] at h
    split at h
    · obtain rfl := Option.some.inj h
      exact fun r hr => hs r (List.mem_cons_of_mem _ hr)
    · cases h

/-- Letter case has no say in whether a text is UTF-8. -/
theorem validUtf8_tolower (text : Bytes) : validUtf8 (text.map tolower) = validUtf8 text := by
  have hfold : ∀ {state}, AboveLetters state → (text.map tolower).foldlM utf8_step state = text.foldlM utf8_step state := by
    induction text with
    | nil => exact fun _ => rfl
    | cons b text ih =>
      intro state hs
      rw [List.map_cons, List.foldlM_cons, List.foldlM_cons, utf8_step_tolower hs]
      cases hb : utf8_step state b with
      | none => rfl
      | some state' => exact ih (utf8_step_above hs hb)
  unfold validUtf8
  rw [hfold (fun r hr => by cases hr)]

/-- The bytes that complete a character that is begun. -/
theorem utf8_complete {state : List (UInt8 × UInt8)} {text : Bytes} (h : text.foldlM utf8_step state = some []) :
    ∃ tail rest, text = tail ++ rest ∧ tail.length = state.length ∧ tail.foldlM utf8_step state = some [] ∧
      validUtf8 rest = true := by
  induction state generalizing text with
  | nil => exact ⟨[], text, rfl, rfl, rfl, beq_of_eq h⟩
  | cons r state ih =>
    cases text with
    | nil => cases h
    | cons b text =>
      rw [List.foldlM_cons] at h
      obtain ⟨state', hb, h⟩ := Option.bind_eq_some_iff.1 h
      rw [utf8_step] at hb
      split at hb
      · rename_i hrange
        obtain rfl := Option.some.inj hb
        obtain ⟨tail, rest, rfl, hlen, htail, hrest⟩ := ih h
        refine ⟨b :: tail, rest, rfl, congrArg (· + 1) hlen, ?_, hrest⟩
        rw [List.foldlM_cons, utf8_step, if_pos hrange]
        exact htail
      · cases hb

/-- A text is its first character, of as many bytes as its lead byte asks for, and
a text. -/
theorem validUtf8_first {c : UInt8} {text : Bytes} (h : validUtf8 (c :: text) = true) :
    ∃ state tail rest, utf8_lead c = some state ∧ text = tail ++ rest ∧ tail.length = state.length ∧
      validUtf8 (c :: tail) = true ∧ validUtf8 rest = true := by
  unfold validUtf8 at h
  rw [beq_iff_eq, List.foldlM_cons] at h
  obtain ⟨state, hlead, h⟩ := Option.bind_eq_some_iff.1 h
  obtain ⟨tail, rest, rfl, hlen, htail, hrest⟩ := utf8_complete h
  refine ⟨state, tail, rest, hlead, rfl, hlen, ?_, hrest⟩
  unfold validUtf8
  rw [beq_iff_eq, List.foldlM_cons]
  exact Option.bind_eq_some_iff.2 ⟨state, hlead, htail⟩

/-- A letter is a character, whatever is around it. -/
theorem validUtf8_around {a b : Bytes} {c : UInt8} (hc : c ≤ 0x7F) (h : validUtf8 (a ++ c :: b) = true) :
    validUtf8 a = true ∧ validUtf8 b = true := by
  have hfold : ∀ {state}, AboveLetters state → (a ++ c :: b).foldlM utf8_step state = some [] →
      a.foldlM utf8_step state = some [] ∧ b.foldlM utf8_step [] = some [] := by
    clear h
    induction a with
    | nil =>
      intro state hs h
      obtain ⟨state', hstep, h⟩ := Option.bind_eq_some_iff.1 h
      cases state with
      | nil =>
        rw [utf8_step, utf8_lead, if_pos hc] at hstep
        obtain rfl := Option.some.inj hstep
        exact ⟨rfl, h⟩
      | cons r state =>
        obtain ⟨lo, hi⟩ := r
        have hlo : 0x80 ≤ lo := hs (lo, hi) List.mem_cons_self
        rw [utf8_step, if_neg] at hstep
        · cases hstep
        · exact fun hrange => absurd (UInt8.le_trans (UInt8.le_trans hlo hrange.1) hc) (by decide)
    | cons d a ih =>
      intro state hs h
      obtain ⟨state', hstep, h⟩ := Option.bind_eq_some_iff.1 h
      obtain ⟨ha, hb⟩ := ih (utf8_step_above hs hstep) h
      exact ⟨Option.bind_eq_some_iff.2 ⟨state', hstep, ha⟩, hb⟩
  obtain ⟨ha, hb⟩ := hfold (fun r hr => by cases hr) (eq_of_beq h)
  exact ⟨beq_of_eq ha, beq_of_eq hb⟩

/-! ## Pieces of a text -/

/-- Cuts at every `sep`; the last piece is what follows the last of them. -/
def splitAt (sep : UInt8 → Bool) : Bytes → List Bytes
  | [] => [[]]
  | c :: text =>
    if sep c then [] :: splitAt sep text
    else match splitAt sep text with
      | [] => [[c]]
      | piece :: rest => (c :: piece) :: rest

theorem splitAt_none {sep : UInt8 → Bool} {text : Bytes} (h : ∀ c ∈ text, sep c = false) : splitAt sep text = [text] := by
  induction text with
  | nil => rfl
  | cons c text ih =>
    simp [splitAt, h c List.mem_cons_self, ih fun d hd => h d (List.mem_cons_of_mem _ hd)]

/-- The first cut is at the first separator. -/
theorem splitAt_append {sep : UInt8 → Bool} {a : Bytes} {c : UInt8} (h : ∀ d ∈ a, sep d = false) (hc : sep c = true)
    (rest : Bytes) : splitAt sep (a ++ c :: rest) = a :: splitAt sep rest := by
  induction a with
  | nil => simp [splitAt, hc]
  | cons d a ih =>
    simp [splitAt, h d List.mem_cons_self, ih fun e he => h e (List.mem_cons_of_mem _ he)]

/-- The pieces have no separator. -/
theorem mem_splitAt {sep : UInt8 → Bool} {text piece : Bytes} (h : piece ∈ splitAt sep text) : ∀ c ∈ piece, sep c = false := by
  induction text generalizing piece with
  | nil =>
    obtain rfl := List.mem_singleton.1 h
    exact fun c hc => by cases hc
  | cons d text ih =>
    unfold splitAt at h
    split at h
    · rcases List.mem_cons.1 h with rfl | h
      · exact fun c hc => by cases hc
      · exact ih h
    · rename_i hd
      have hd : sep d = false := by simpa using hd
      cases hs : splitAt sep text with
      | nil =>
        rw [hs] at h
        obtain rfl := List.mem_singleton.1 h
        exact fun c hc => by rwa [List.mem_singleton.1 hc]
      | cons first rest =>
        rw [hs] at h ih
        rcases List.mem_cons.1 h with rfl | h
        · intro c hc
          rcases List.mem_cons.1 hc with rfl | hc
          · exact hd
          · exact ih List.mem_cons_self c hc
        · exact ih (List.mem_cons_of_mem _ h)

/-- The pieces with their separators are the text. -/
theorem splitAt_text (c : UInt8) (text : Bytes) :
    ∃ first rest, splitAt (· = c) text = first :: rest ∧ first ++ rest.flatMap (c :: ·) = text := by
  induction text with
  | nil => exact ⟨[], [], rfl, rfl⟩
  | cons d text ih =>
    obtain ⟨first, rest, hs, htext⟩ := ih
    by_cases hd : d = c
    · subst hd
      exact ⟨[], first :: rest, by simp [splitAt, hs], by simp [htext]⟩
    · exact ⟨d :: first, rest, by simp [splitAt, hs, hd], by simp [htext]⟩

/-- Lines that are put together are the pieces of the text. -/
theorem splitAt_lines {c : UInt8} {first : Bytes} {rest : List Bytes} (hfirst : c ∉ first) (hrest : ∀ l ∈ rest, c ∉ l) :
    splitAt (· = c) (first ++ rest.flatMap (c :: ·)) = first :: rest := by
  have hsep : ∀ {l : Bytes}, c ∉ l → ∀ d ∈ l, decide (d = c) = false := by
    intro l hl d hd
    exact decide_eq_false fun he => hl (he ▸ hd)
  induction rest generalizing first with
  | nil =>
    rw [List.flatMap_nil, List.append_nil]
    exact splitAt_none (hsep hfirst)
  | cons l rest ih =>
    obtain ⟨hl, hrest⟩ := List.forall_mem_cons.1 hrest
    rw [List.flatMap_cons, List.cons_append, splitAt_append (hsep hfirst) (decide_eq_true rfl), ih hl hrest]

/-- The lines `getline` reads: a final newline opens no line after it. -/
def getlines (text : Bytes) : List Bytes :=
  let pieces := splitAt (· = 10) text
  if pieces.getLast? = some [] then pieces.dropLast else pieces

/-- What reads nothing from an empty line does not see the difference. -/
theorem filterMap_getlines {α : Type} {f : Bytes → Option α} (h : f [] = none) (text : Bytes) :
    (getlines text).filterMap f = (splitAt (· = 10) text).filterMap f := by
  unfold getlines
  dsimp only
  split
  · rename_i hlast
    obtain ⟨init, hinit⟩ := List.getLast?_eq_some_iff.1 hlast
    rw [hinit]
    simp [h]
  · rfl

/-- The words `operator>>` reads. -/
def words (text : Bytes) : List Bytes := (splitAt isspace text).filter (· ≠ [])

/-- One `operator>>`: the word, which is empty at the end of the text, and what
follows it. -/
def next_word (text : Bytes) : Bytes × Bytes :=
  ((text.dropWhile isspace).takeWhile fun c => !isspace c, (text.dropWhile isspace).dropWhile fun c => !isspace c)

theorem next_word_eq_nil {text : Bytes} : (next_word text).1 = [] ↔ ∀ c ∈ text, isspace c = true := by
  rw [← List.dropWhile_eq_nil_iff, next_word]
  constructor
  · intro h
    cases hs : text.dropWhile isspace with
    | nil => rfl
    | cons c rest =>
      have hc : isspace c = false := by
        have hne : text.dropWhile isspace ≠ [] := by simp [hs]
        have hhead := List.head_dropWhile_not isspace hne
        simpa [hs] using hhead
      simp [hs, hc] at h
  · intro h
    rw [h]
    rfl

theorem next_word_rest {text : Bytes} (h : (next_word text).1 = []) : (next_word text).2 = [] := by
  rw [next_word, List.dropWhile_eq_nil_iff.2 (next_word_eq_nil.1 h)]
  rfl

/-- What follows a word is the end of the text, beginning with a space if there is any. -/
theorem next_word_end (text : Bytes) : (next_word text).2 <:+ text ∧ ∀ c ∈ (next_word text).2.head?, isspace c = true := by
  refine ⟨(List.dropWhile_suffix _).trans (List.dropWhile_suffix _), fun c hc => ?_⟩
  have hhead := List.head?_dropWhile_not (fun c => !isspace c) (text.dropWhile isspace)
  rw [next_word, Option.mem_def] at hc
  rw [hc] at hhead
  simpa using hhead

/-- A word that begins in `a` ends there, if a space or nothing follows `a`. -/
theorem next_word_append {a b : Bytes} (ha : (next_word a).1 ≠ []) (hb : ∀ c ∈ b.head?, isspace c = true) :
    next_word (a ++ b) = ((next_word a).1, (next_word a).2 ++ b) := by
  have hne : a.dropWhile isspace ≠ [] := by
    rw [ne_eq, List.dropWhile_eq_nil_iff, ← next_word_eq_nil]
    exact ha
  have hskip : (a ++ b).dropWhile isspace = a.dropWhile isspace ++ b := by
    rw [List.dropWhile_append, if_neg (by simpa using hne)]
  have hword (l : Bytes) : ((l ++ b).takeWhile fun c => !isspace c) = (l.takeWhile fun c => !isspace c) ∧
      ((l ++ b).dropWhile fun c => !isspace c) = (l.dropWhile fun c => !isspace c) ++ b := by
    induction l with
    | nil =>
      cases b with
      | nil => exact ⟨rfl, rfl⟩
      | cons c b => simp [hb c rfl]
    | cons c l ih => by_cases hc : isspace c = true <;> simp [hc, ih]
  rw [next_word, hskip, (hword _).1, (hword _).2]
  rfl

/-- No second word in a text: it is a word, maybe empty, with spaces around it. -/
theorem one_word_iff {text : Bytes} :
    (next_word (next_word text).2).1 = [] ↔
      ∃ a w b, text = a ++ (w ++ b) ∧ (∀ c ∈ a, isspace c = true) ∧ (∀ c ∈ w, isspace c = false) ∧
        ∀ c ∈ b, isspace c = true := by
  constructor
  · intro h
    refine ⟨text.takeWhile isspace, (next_word text).1, (next_word text).2, ?_, ?_, ?_, next_word_eq_nil.1 h⟩
    · rw [next_word, List.takeWhile_append_dropWhile, List.takeWhile_append_dropWhile]
    · exact fun c hc => List.mem_takeWhile_imp hc
    · intro c hc
      simpa using List.mem_takeWhile_imp hc
  · rintro ⟨a, w, b, rfl, ha, hw, hb⟩
    have hskip : (a ++ (w ++ b)).dropWhile isspace = (w ++ b).dropWhile isspace := List.dropWhile_append_of_pos ha
    cases w with
    | nil =>
      have hnil : (next_word (a ++ ([] ++ b))).2 = [] := by
        refine next_word_rest (next_word_eq_nil.2 fun c hc => ?_)
        exact (List.mem_append.1 hc).elim (ha c) (hb c)
      rw [hnil]
      rfl
    | cons d w =>
      have hd : isspace d = false := hw d List.mem_cons_self
      have hpos : ∀ c ∈ d :: w, (!isspace c) = true := fun c hc => by rw [hw c hc]; rfl
      rw [next_word_eq_nil, next_word, hskip, List.cons_append, List.dropWhile_cons_of_neg (by simp [hd]), ← List.cons_append,
        List.dropWhile_append_of_pos hpos]
      exact fun c hc => hb c ((List.dropWhile_sublist _).subset hc)

/-- What has a second word still has it with more text in between. -/
theorem second_word_sublist {a text : Bytes} (h : a.Sublist text) (ha : (next_word (next_word a).2).1 ≠ []) :
    (next_word (next_word text).2).1 ≠ [] := by
  refine mt (fun htext => ?_) ha
  obtain ⟨s, w, e, rfl, hs, hw, he⟩ := one_word_iff.1 htext
  obtain ⟨s', rest, rfl, hs', hrest⟩ := List.sublist_append_iff.1 h
  obtain ⟨w', e', rfl, hw', he'⟩ := List.sublist_append_iff.1 hrest
  exact one_word_iff.2 ⟨s', w', e', rfl, fun c hc => hs c (hs'.subset hc), fun c hc => hw c (hw'.subset hc),
    fun c hc => he c (he'.subset hc)⟩

theorem takeWhile_before {c : UInt8} {a : Bytes} (h : c ∉ a) (rest : Bytes) :
    (a ++ c :: rest).takeWhile (· ≠ c) = a ∧ (a ++ c :: rest).dropWhile (· ≠ c) = c :: rest := by
  have hall : ∀ d ∈ a, decide (d ≠ c) = true := fun d hd => decide_eq_true fun he => h (he ▸ hd)
  constructor
  · rw [List.takeWhile_append_of_pos hall, List.takeWhile_cons_of_neg (by simp), List.append_nil]
  · rw [List.dropWhile_append_of_pos hall, List.dropWhile_cons_of_neg (by simp)]

theorem findIdx?_before {c : UInt8} {a : Bytes} (h : c ∉ a) (rest : Bytes) :
    (a ++ c :: rest).findIdx? (· = c) = some a.length := by
  have hnone : a.findIdx? (· = c) = none := by
    rw [List.findIdx?_eq_none_iff]
    exact fun d hd => decide_eq_false fun he => h (he ▸ hd)
  rw [List.findIdx?_append, hnone, List.findIdx?_cons]
  simp

/-- What is dropped is dropped from the first text, when something else stops it there. -/
theorem dropWhile_before {p : UInt8 → Bool} {a rest : Bytes} (h : rest.dropWhile p = rest) :
    (a ++ rest).dropWhile p = a.dropWhile p ++ rest := by
  rw [List.dropWhile_append, h]
  split
  · rename_i hempty
    rw [List.isEmpty_iff.1 hempty, List.nil_append]
  · rfl

/-- What follows the last `c`, the whole text when there is none. -/
def afterLast (c : UInt8) (text : Bytes) : Bytes := (text.reverse.takeWhile (· ≠ c)).reverse

/-- What comes before the last `c`, the whole text when there is none:
`substr(0, rfind(c))`. -/
def beforeLast (c : UInt8) (text : Bytes) : Bytes :=
  if c ∈ text then (text.reverse.dropWhile (· ≠ c)).tail.reverse else text

theorem beforeLast_none {c : UInt8} {text : Bytes} (h : c ∉ text) : beforeLast c text = text := if_neg h

theorem beforeLast_append {c : UInt8} {rest : Bytes} (h : c ∉ rest) (a : Bytes) : beforeLast c (a ++ c :: rest) = a := by
  have hback := (takeWhile_before (mt List.mem_reverse.1 h) a.reverse).2
  unfold beforeLast
  rw [if_pos (List.mem_append_right _ List.mem_cons_self), List.reverse_append, List.reverse_cons, List.append_assoc,
    List.singleton_append, hback, List.tail_cons, List.reverse_reverse]

/-- Nothing comes before it: the text is empty, or it has the only `c` in front. -/
theorem beforeLast_eq_nil {c : UInt8} {text : Bytes} :
    beforeLast c text = [] ↔ text = [] ∨ ∃ rest, text = c :: rest ∧ c ∉ rest := by
  constructor
  · intro h
    by_cases hc : c ∈ text
    · obtain ⟨after, before, hrev, hafter⟩ := List.eq_append_cons_of_mem (List.mem_reverse.2 hc)
      have htext : text = before.reverse ++ c :: after.reverse := by
        rw [← List.reverse_reverse text, hrev]
        simp
      have hno : c ∉ after.reverse := mt List.mem_reverse.1 hafter
      rw [htext, beforeLast_append hno] at h
      exact .inr ⟨after.reverse, by rw [htext, h]; rfl, hno⟩
    · rw [beforeLast_none hc] at h
      exact .inl h
  · rintro (rfl | ⟨rest, rfl, hrest⟩)
    · rfl
    · exact beforeLast_append hrest []

theorem afterLast_append {c : UInt8} {rest : Bytes} (h : c ∉ rest) (a : Bytes) : afterLast c (a ++ c :: rest) = rest := by
  have hback := (takeWhile_before (mt List.mem_reverse.1 h) a.reverse).1
  unfold afterLast
  rw [List.reverse_append, List.reverse_cons, List.append_assoc, List.singleton_append, hback, List.reverse_reverse]

/-- The text around the last `c`. -/
theorem around_last {c : UInt8} {text : Bytes} (h : c ∈ text) :
    text = beforeLast c text ++ c :: afterLast c text ∧ c ∉ afterLast c text := by
  obtain ⟨after, before, hrev, hafter⟩ := List.eq_append_cons_of_mem (List.mem_reverse.2 h)
  have htext : text = before.reverse ++ c :: after.reverse := by
    rw [← List.reverse_reverse text, hrev]
    simp
  have hno : c ∉ after.reverse := mt List.mem_reverse.1 hafter
  rw [htext, beforeLast_append hno, afterLast_append hno]
  exact ⟨rfl, hno⟩

/-- What stands before the first `c`, and after it. -/
theorem before_first {c : UInt8} {a b x y : Bytes} (ha : c ∉ a) (hb : c ∉ b) : a ++ c :: x <+: b ++ c :: y ↔ a = b ∧ x <+: y := by
  induction a generalizing b with
  | nil =>
    cases b with
    | nil => simp [List.cons_prefix_cons]
    | cons d b =>
      have hd : ¬ c = d := fun hd => hb (hd ▸ List.mem_cons_self)
      simp [List.cons_prefix_cons, hd]
  | cons e a ih =>
    obtain ⟨he, ha⟩ := not_or.1 (mt List.mem_cons.2 ha)
    cases b with
    | nil => simp [List.cons_prefix_cons, Ne.symm he]
    | cons d b =>
      have hb : c ∉ b := fun hm => hb (List.mem_cons_of_mem _ hm)
      rw [List.cons_append, List.cons_append, List.cons_prefix_cons, ih ha hb, List.cons.injEq, and_assoc]

/-! ## Numbers -/

def INT_MAX : Int := 2147483647

/-- `(int)strtol(text, nullptr, 10)`: the value is cut to a `long`, then to its
low 32 bits. -/
def atoi (text : Bytes) : Int :=
  let text := text.dropWhile isspace
  let (negative, digits) := match text with
    | 45 :: rest => (true, rest)
    | 43 :: rest => (false, rest)
    | _ => (false, text)
  let n : Int := (digits.takeWhile isdigit).foldl (fun n c => 10 * n + (c.toNat - 48 : Nat)) 0
  let long := if negative then max (-n) (-9223372036854775808) else min n 9223372036854775807
  Int.bmod long 4294967296

/-- The number that digits stand for. -/
def decimal (digits : Bytes) : Nat := digits.foldl (fun n c => 10 * n + (c.toNat - 48)) 0

/-- A sign and a number at the start of a text, after spaces; `none` when there is
no digit. -/
def number (text : Bytes) : Option (Bool × Nat) :=
  let text := text.dropWhile isspace
  let (negative, rest) := match text with
    | 45 :: rest => (true, rest)
    | 43 :: rest => (false, rest)
    | _ => (false, text)
  let digits := rest.takeWhile isdigit
  if digits = [] then none else some (negative, decimal digits)

/-- `std::stoi`; `none` when it throws. -/
def stoi (text : Bytes) : Option Int :=
  (number text).bind fun (negative, n) =>
    let i : Int := if negative then -n else n
    if -2147483648 ≤ i ∧ i ≤ INT_MAX then some i else none

/-- `std::stoull`; `none` when it throws. A minus sign is taken modulo 2^64. -/
def stoull (text : Bytes) : Option UInt64 :=
  (number text).bind fun (negative, n) =>
    if n < 18446744073709551616 then some (if negative then -n.toUInt64 else n.toUInt64) else none

def digits (base n : Nat) : Bytes := (Nat.toDigits base n).map fun c => c.toNat.toUInt8

/-- `std::to_string` -/
def to_string (n : Int) : Bytes := if n < 0 then 45 :: digits 10 n.natAbs else digits 10 n.natAbs

theorem digits_ascii (base n : Nat) : ∀ c ∈ digits base n, c ≤ 0x7F := by
  have hchar (d : Nat) : (Nat.digitChar d).toNat.toUInt8 ≤ 0x7F := by
    by_cases h : d < 16
    · have hall : ∀ d < 16, (Nat.digitChar d).toNat.toUInt8 ≤ 0x7F := by decide
      exact hall d h
    · rw [Nat.digitChar_eq_star.2 (Nat.le_of_not_lt h)]
      decide
  have hcore (fuel n : Nat) (ds : List Char) (hds : ∀ c ∈ ds, c.toNat.toUInt8 ≤ 0x7F) :
      ∀ c ∈ Nat.toDigitsCore base fuel n ds, c.toNat.toUInt8 ≤ 0x7F := by
    induction fuel generalizing n ds with
    | zero => exact hds
    | succ fuel ih =>
      have hcons : ∀ c ∈ (n % base).digitChar :: ds, c.toNat.toUInt8 ≤ 0x7F := by
        simpa using ⟨hchar _, hds⟩
      unfold Nat.toDigitsCore
      dsimp only
      split
      · exact hcons
      · exact ih _ _ hcons
  intro c hc
  obtain ⟨d, hd, rfl⟩ := List.mem_map.1 hc
  exact hcore _ _ [] (by simp) d hd

theorem to_string_valid (n : Int) : validUtf8 (to_string n) = true := by
  apply validUtf8_ascii
  intro c hc
  unfold to_string at hc
  split at hc
  · rcases List.mem_cons.1 hc with rfl | hc
    · decide
    · exact digits_ascii _ _ c hc
  · exact digits_ascii _ _ c hc

theorem atoi_le (text : Bytes) : atoi text ≤ INT_MAX := by
  have hlt : ∀ n : Int, n.bmod 4294967296 ≤ INT_MAX := fun n => Int.le_of_lt_add_one (Int.bmod_lt (by decide))
  exact hlt _

/-- A digit as a character and as a byte. -/
theorem digit_byte {c : Char} (h : c.isDigit = true) : isdigit c.toNat.toUInt8 = true ∧ c.toNat.toUInt8.toNat = c.toNat := by
  have hc : 48 ≤ c.toNat ∧ c.toNat ≤ 57 := by
    simpa [Char.isDigit, UInt32.le_iff_toNat_le] using h
  have hn : c.toNat.toUInt8.toNat = c.toNat := Nat.mod_eq_of_lt (by omega)
  refine ⟨?_, hn⟩
  simp only [isdigit, decide_eq_true_eq, UInt8.le_iff_toNat_le, hn]
  exact hc

theorem digits_isdigit (n : Nat) : ∀ c ∈ digits 10 n, isdigit c = true := by
  intro c hc
  obtain ⟨d, hd, rfl⟩ := List.mem_map.1 hc
  exact (digit_byte (Nat.isDigit_of_mem_toDigits (by decide) (by decide) hd)).1

theorem to_string_newline (n : Int) : 10 ∉ to_string n := by
  have hdigits : (10 : UInt8) ∉ digits 10 n.natAbs := fun hm => absurd (digits_isdigit _ _ hm) (by decide)
  unfold to_string
  split
  · simpa using hdigits
  · exact hdigits

/-- What `atoi` adds up. -/
theorem value_of_digits (n : Nat) :
    (digits 10 n).foldl (fun (m : Int) c => 10 * m + (c.toNat - 48 : Nat)) 0 = n := by
  have hfold (l : List Char) (hl : ∀ c ∈ l, c.isDigit = true) (m : Nat) :
      (l.map fun c => c.toNat.toUInt8).foldl (fun (m : Int) c => 10 * m + (c.toNat - 48 : Nat)) m =
        (Nat.ofDigitChars 10 l m : Nat) := by
    induction l generalizing m with
    | nil => simp
    | cons c l ih =>
      obtain ⟨hc, hl⟩ := List.forall_mem_cons.1 hl
      rw [Nat.ofDigitChars_cons, ← ih hl, List.map_cons, List.foldl_cons, (digit_byte hc).2]
      simp
  have hall : ∀ c ∈ Nat.toDigits 10 n, c.isDigit = true := fun _ => Nat.isDigit_of_mem_toDigits (by decide) (by decide)
  exact (hfold _ hall 0).trans (congrArg Nat.cast Nat.ofDigitChars_ten_toDigits)

/-- What `stoull` makes of a number without a minus sign. -/
theorem stoull_eq {text : Bytes} {n : Nat} (h : number text = some (false, n)) :
    (stoull text).map UInt64.toNat = if n < 18446744073709551616 then some n else none := by
  rw [stoull, h, Option.bind_some]
  dsimp only
  split
  · rename_i hlt
    have hmod : n.toUInt64.toNat = n := Nat.mod_eq_of_lt hlt
    rw [if_neg Bool.false_ne_true, Option.map_some, hmod]
  · rfl

/-- When `stoull` throws. -/
theorem stoull_isSome {text : Bytes} :
    (stoull text).isSome = true ↔ ∃ negative n, number text = some (negative, n) ∧ n < 18446744073709551616 := by
  rw [stoull]
  cases hnum : number text with
  | none => simp
  | some a =>
    obtain ⟨negative, n⟩ := a
    by_cases hn : n < 18446744073709551616 <;> simp [hn]

theorem decimal_cast (text : Bytes) :
    text.foldl (fun (m : Int) c => 10 * m + (c.toNat - 48 : Nat)) 0 = (decimal text : Nat) := by
  have hfold (l : Bytes) (m : Nat) : l.foldl (fun (m : Int) c => 10 * m + (c.toNat - 48 : Nat)) m =
      (l.foldl (fun n c => 10 * n + (c.toNat - 48)) m : Nat) := by
    induction l generalizing m with
    | nil => rfl
    | cons c l ih =>
      rw [List.foldl_cons, List.foldl_cons, ← ih]
      simp
  exact hfold text 0

theorem decimal_digits (n : Nat) : decimal (digits 10 n) = n :=
  Int.ofNat.inj ((decimal_cast _).symm.trans (value_of_digits n))

/-! ### Digits at the start of a text -/

theorem isdigit_plain {c : UInt8} (h : isdigit c = true) : isspace c = false ∧ c ≠ 45 ∧ c ≠ 43 := by
  simp only [isdigit, decide_eq_true_eq, UInt8.le_iff_toNat_le] at h
  change 48 ≤ c.toNat ∧ c.toNat ≤ 57 at h
  refine ⟨?_, ?_, ?_⟩
  · simp only [isspace, decide_eq_false_iff_not, UInt8.le_iff_toNat_le, ← UInt8.toNat_inj]
    change ¬ (c.toNat = 32 ∨ 9 ≤ c.toNat ∧ c.toNat ≤ 13)
    omega
  all_goals
    rintro rfl
    exact absurd h (by decide)

section
variable {d rest : Bytes} (hd : ∀ c ∈ d, isdigit c = true) (hrest : ∀ c ∈ rest.head?, isdigit c = false)
include hd hrest

theorem takeWhile_digits : (d ++ rest).takeWhile isdigit = d := by
  rw [List.takeWhile_append_of_pos hd]
  cases rest with
  | nil => simp
  | cons e rest => rw [List.takeWhile_cons_of_neg (by simp [hrest e rfl]), List.append_nil]

theorem dropWhile_digits : (d ++ rest).dropWhile isdigit = rest := by
  rw [List.dropWhile_append_of_pos hd]
  cases rest with
  | nil => rfl
  | cons e rest => rw [List.dropWhile_cons_of_neg (by simp [hrest e rfl])]

omit hrest in
/-- Neither a space nor a sign is in front of a digit. -/
theorem digits_first (hne : d ≠ []) :
    (d ++ rest).dropWhile isspace = d ++ rest ∧ ∀ t, d ++ rest ≠ 45 :: t ∧ d ++ rest ≠ 43 :: t := by
  cases d with
  | nil => exact absurd rfl hne
  | cons c d =>
    obtain ⟨hspace, hminus, hplus⟩ := isdigit_plain (hd c List.mem_cons_self)
    refine ⟨List.dropWhile_cons_of_neg (by simp [hspace]), fun t => ⟨fun h => ?_, fun h => ?_⟩⟩
    · exact hminus (List.cons.inj h).1
    · exact hplus (List.cons.inj h).1

theorem number_digits (hne : d ≠ []) : number (d ++ rest) = some (false, decimal d) := by
  obtain ⟨hspace, hsign⟩ := @digits_first d rest hd hne
  unfold number
  rw [hspace]
  dsimp only
  split
  · exact absurd ‹_› (hsign _).1
  · exact absurd ‹_› (hsign _).2
  · dsimp only
    rw [takeWhile_digits hd hrest, if_neg hne]

/-- `atoi` reads the digits at the start of a text. -/
theorem atoi_digits (hne : d ≠ []) (h : decimal d ≤ 2147483647) : atoi (d ++ rest) = decimal d := by
  obtain ⟨hspace, hsign⟩ := @digits_first d rest hd hne
  unfold atoi
  rw [hspace]
  dsimp only
  split
  · exact absurd ‹_› (hsign _).1
  · exact absurd ‹_› (hsign _).2
  · dsimp only
    rw [takeWhile_digits hd hrest, decimal_cast, if_neg Bool.false_ne_true, Int.min_eq_left (by omega)]
    exact Int.bmod_eq_of_le (by omega) (by omega)

end

/-- `atoi` reads back a number that `to_string` wrote. -/
theorem atoi_to_string {n : Int} (h0 : 0 ≤ n) (h : n ≤ INT_MAX) : atoi (to_string n) = n := by
  obtain ⟨k, rfl⟩ := Int.eq_ofNat_of_zero_le h0
  have htext : to_string (k : Int) = digits 10 k ++ [] := (if_neg (by omega)).trans (List.append_nil _).symm
  have hne : digits 10 k ≠ [] := fun hnil => Nat.toDigits_ne_nil (List.map_eq_nil_iff.1 hnil)
  unfold INT_MAX at h
  rw [htext, atoi_digits (digits_isdigit k) (by simp) hne (by rw [decimal_digits]; omega), decimal_digits]

end Hostely.Lib
