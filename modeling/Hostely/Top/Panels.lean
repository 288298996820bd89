import Hostely.Lib.Text
import Mathlib.Data.Nat.Find
/-!
# Panels

Texts by the columns they take on a terminal, and the rounded boxes drawn around
them. A box's top and bottom are as wide as asked, and its lines one column less.
-/

open Hostely.Lib

namespace Hostely.Top

/-! ## Glyphs -/

def kDots : Bytes := bytes "…"

def kBTopL : Bytes := bytes "╭"
def kBTopR : Bytes := bytes "╮"
def kBBotL : Bytes := bytes "╰"
def kBBotR : Bytes := bytes "╯"
def kBHorz : Bytes := bytes "─"
def kBVert : Bytes := bytes "│"

def kFrame : Bytes := bytes "\x1b[2;36m"
def kTitle : Bytes := bytes "\x1b[1;36m"
def kReset : Bytes := bytes "\x1b[0m"

/-- The bytes of a glyph, by its first. -/
def glyph_len (c : UInt8) : Nat :=
  if c < 0x80 then 1 else if c >>> 5 = 0x6 then 2 else if c >>> 4 = 0xE then 3 else 4

/-- What follows an escape sequence that has begun. -/
def after_escape (s : Bytes) : Bytes := (s.dropWhile (· ≠ 109)).tail

theorem after_escape_length (s : Bytes) : (after_escape s).length ≤ s.length := by
  have hdrop : (s.dropWhile (· ≠ 109)).length ≤ s.length := (List.dropWhile_sublist _).length_le
  unfold after_escape
  rw [List.length_tail]
  omega

/-- Escape sequences take no column, every glyph takes one. -/
def disp_width : Bytes → Nat
  | [] => 0
  | c :: s => if c = 27 then disp_width (after_escape s) else disp_width (s.drop (glyph_len c - 1)) + 1
termination_by s => s.length
decreasing_by
  · exact Nat.lt_succ_of_le (after_escape_length s)
  · rw [List.length_drop]
    exact Nat.lt_succ_of_le (Nat.sub_le _ _)

/-- The walk of `clip` and of `clip_cols`, in which escape sequences are glyphs like others. -/
def clip_walk (cols : Int) (w : Int) : Bytes → Bytes
  | [] => []
  | c :: s =>
    if w + 1 > cols - 1 ∧ cols ≥ 1 then []
    else c :: s.take (glyph_len c - 1) ++ clip_walk cols (w + 1) (s.drop (glyph_len c - 1))
termination_by s => s.length
decreasing_by
  rw [List.length_drop]
  exact Nat.lt_succ_of_le (Nat.sub_le _ _)

def clip_cols (s : Bytes) (cols : Int) : Bytes := if disp_width s ≤ cols then s else clip_walk cols 0 s ++ kDots

/-- Pads to columns, not to bytes. -/
def pad (s : Bytes) (w : Nat) : Bytes := if disp_width s < w then s ++ List.replicate (w - disp_width s) 32 else s

def clip (s : Bytes) (w : Nat) : Bytes :=
  if disp_width s ≤ w then s
  else if w ≤ 1 then s.take w
  else clip_walk w 0 s ++ kDots

def colorize (text code : Bytes) (color : Bool) : Bytes := if color then code ++ text ++ kReset else text

def dim (text : Bytes) (color : Bool) : Bytes := colorize text (bytes "\x1b[2m") color

/-! ## Boxes -/

/-- `code` when there is color. -/
def paint (code : Bytes) (color : Bool) : Bytes := if color then code else []

def repeated (n : Int) (glyph : Bytes) : Bytes := (List.replicate n.toNat glyph).flatten

def panel_top (title : Bytes) (width : Int) (color : Bool) : Bytes :=
  -- the source has the loop of `disp_width` written out here
  let tw : Int := disp_width title
  let inner := max (width - 2 - tw - 2 - 1) 1
  paint kFrame color ++ kBTopL ++ kBHorz ++ paint kReset color ++ paint kTitle color ++ bytes " " ++ title ++ bytes " " ++
    paint kReset color ++ paint kFrame color ++ repeated inner kBHorz ++ kBTopR ++ paint kReset color

def panel_bottom (width : Int) (color : Bool) : Bytes :=
  paint kFrame color ++ kBBotL ++ repeated (width - 2) kBHorz ++ kBBotR ++ paint kReset color

def panel_line (text : Bytes) (width : Int) (color : Bool) : Bytes :=
  let inner := max (width - 4) 1
  let body := clip_cols text inner
  let pad_n := inner - disp_width body
  paint kFrame color ++ kBVert ++ paint kReset color ++ bytes " " ++ body ++ repeated pad_n (bytes " ") ++
    paint kFrame color ++ kBVert ++ paint kReset color

/-! ## Complete texts -/

/-- UTF-8 in which every escape sequence ends. -/
structure Complete (s : Bytes) : Prop where
  utf8 : validUtf8 s = true
  closed : ∀ b, 27 :: b <:+ s → 109 ∈ b

instance (s : Bytes) : Decidable (Complete s) :=
  decidable_of_iff (validUtf8 s = true ∧ ∀ t ∈ s.tails, t.head? = some 27 → 109 ∈ t.tail)
    ⟨fun h => ⟨h.1, fun b hb => h.2 (27 :: b) ((List.mem_tails _ _).2 hb) rfl⟩,
      fun h => ⟨h.utf8, fun t ht hhead => by
        obtain ⟨b, rfl⟩ := List.head?_eq_some_iff.1 hhead
        exact h.closed b ((List.mem_tails _ _).1 ht)⟩⟩

theorem complete_nil : Complete [] := by decide

theorem Complete.append {a b : Bytes} (ha : Complete a) (hb : Complete b) : Complete (a ++ b) := by
  refine ⟨(validUtf8_append ha.utf8 b).trans hb.utf8, fun y ⟨x, hxy⟩ => ?_⟩
  rcases List.append_eq_append_iff.1 hxy with ⟨z, rfl, hz⟩ | ⟨z, rfl, hz⟩
  · cases z with
    | nil => exact hb.closed y ⟨[], hz⟩
    | cons c z =>
      obtain ⟨rfl, rfl⟩ := List.cons.inj hz
      exact List.mem_append_left _ (ha.closed z (List.suffix_append x _))
  · exact hb.closed y ⟨z, hz.symm⟩

theorem Complete.suffix {a b : Bytes} (h : Complete (a ++ b)) (hb : validUtf8 b = true) : Complete b :=
  ⟨hb, fun y hy => h.closed y (hy.trans (List.suffix_append a b))⟩

theorem glyph_len_lead {c : UInt8} {state : List (UInt8 × UInt8)} (h : utf8_lead c = some state) :
    glyph_len c = state.length + 1 := by
  have hall : ((List.range 256).all fun n => (utf8_lead n.toUInt8).elim true fun state => glyph_len n.toUInt8 == state.length + 1) =
      true := by decide +kernel
  have hc := forall_byte (p := fun c => (utf8_lead c).elim true fun state => glyph_len c == state.length + 1) hall c
  rw [h] at hc
  exact eq_of_beq hc

/-- A text is its first glyph and a text. -/
theorem first_glyph {c : UInt8} {s : Bytes} (h : validUtf8 (c :: s) = true) :
    ∃ tail rest, s = tail ++ rest ∧ tail.length = glyph_len c - 1 ∧ validUtf8 (c :: tail) = true ∧ validUtf8 rest = true := by
  obtain ⟨state, tail, rest, hlead, hs, hlen, htail, hrest⟩ := validUtf8_first h
  exact ⟨tail, rest, hs, by rw [glyph_len_lead hlead, hlen, Nat.add_sub_cancel], htail, hrest⟩

/-- A complete text that begins with an escape sequence is the sequence and a complete text. -/
theorem first_sequence {s : Bytes} (h : Complete (27 :: s)) :
    ∃ code rest, s = code ++ 109 :: rest ∧ 109 ∉ code ∧ validUtf8 (27 :: code) = true ∧ Complete rest := by
  obtain ⟨code, rest, rfl, hcode⟩ := List.eq_append_cons_of_mem (h.closed s (List.suffix_refl _))
  obtain ⟨hbegin, hrest⟩ := validUtf8_around (a := 27 :: code) (by decide) h.utf8
  refine ⟨code, rest, rfl, hcode, hbegin, ?_⟩
  have hwhole : Complete ((27 :: code ++ [109]) ++ rest) := by
    rw [List.append_assoc]
    exact h
  exact hwhole.suffix hrest

/-- Induction on a complete text by its glyphs and its escape sequences. -/
theorem Complete.parts {P : Bytes → Prop} (nil : P [])
    (sequence : ∀ code rest, 109 ∉ code → validUtf8 (27 :: code) = true → Complete rest → P rest → P (27 :: (code ++ 109 :: rest)))
    (glyph : ∀ c tail rest, c ≠ 27 → tail.length = glyph_len c - 1 → validUtf8 (c :: tail) = true → Complete rest → P rest →
      P (c :: (tail ++ rest)))
    {s : Bytes} (h : Complete s) : P s := by
  induction hn : s.length using Nat.strong_induction_on generalizing s with
  | _ n ih =>
    cases s with
    | nil => exact nil
    | cons c s =>
      by_cases hc : c = 27
      · subst hc
        obtain ⟨code, rest, rfl, hcode, hbegin, hrest⟩ := first_sequence h
        refine sequence code rest hcode hbegin hrest (ih rest.length ?_ hrest rfl)
        rw [← hn, List.length_cons, List.length_append, List.length_cons]
        omega
      · obtain ⟨tail, rest, rfl, hlen, htail, hrest⟩ := first_glyph h.utf8
        have hcomplete : Complete rest := Complete.suffix (a := c :: tail) h hrest
        refine glyph c tail rest hc hlen htail hcomplete (ih rest.length ?_ hcomplete rfl)
        rw [← hn, List.length_cons, List.length_append]
        omega

/-! ### Their columns -/

@[simp] theorem disp_width_nil : disp_width [] = 0 := by rw [disp_width]

theorem disp_width_sequence {code : Bytes} (hcode : 109 ∉ code) (rest : Bytes) :
    disp_width (27 :: (code ++ 109 :: rest)) = disp_width rest := by
  have hne : ∀ b ∈ code, decide (b ≠ 109) = true := fun b hb => decide_eq_true fun he => hcode (he ▸ hb)
  rw [disp_width, if_pos rfl, after_escape, List.dropWhile_append_of_pos hne]
  rfl

theorem disp_width_unended {code : Bytes} (hcode : 109 ∉ code) : disp_width (27 :: code) = 0 := by
  have hne : ∀ b ∈ code, decide (b ≠ 109) = true := fun b hb => decide_eq_true fun he => hcode (he ▸ hb)
  rw [disp_width, if_pos rfl, after_escape, List.dropWhile_eq_nil_iff.2 hne]
  exact disp_width_nil

theorem disp_width_glyph {c : UInt8} (hc : c ≠ 27) {tail : Bytes} (htail : tail.length = glyph_len c - 1) (rest : Bytes) :
    disp_width (c :: (tail ++ rest)) = disp_width rest + 1 := by
  rw [disp_width, if_neg hc, List.drop_left' htail]

/-- A complete text takes the same columns whatever follows it. -/
theorem Complete.disp_width_append {a : Bytes} (h : Complete a) (b : Bytes) :
    disp_width (a ++ b) = disp_width a + disp_width b := by
  refine Complete.parts (P := fun a => disp_width (a ++ b) = disp_width a + disp_width b) ?_ ?_ ?_ h
  · rw [List.nil_append, disp_width_nil, Nat.zero_add]
  · intro code rest hcode _ _ ih
    rw [List.cons_append, List.append_assoc, List.cons_append, disp_width_sequence hcode, disp_width_sequence hcode, ih]
  · intro c tail rest hc htail _ _ ih
    rw [List.cons_append, List.append_assoc, disp_width_glyph hc htail, disp_width_glyph hc htail, ih, Nat.add_right_comm]

/-! ## Cut texts -/

/-- The columns counted by `clip_walk`. -/
def glyphs : Bytes → Nat
  | [] => 0
  | c :: s => glyphs (s.drop (glyph_len c - 1)) + 1
termination_by s => s.length
decreasing_by
  rw [List.length_drop]
  exact Nat.lt_succ_of_le (Nat.sub_le _ _)

@[simp] theorem glyphs_nil : glyphs [] = 0 := by rw [glyphs]

theorem glyphs_cons {c : UInt8} {tail : Bytes} (htail : tail.length = glyph_len c - 1) (rest : Bytes) :
    glyphs (c :: (tail ++ rest)) = glyphs rest + 1 := by
  rw [glyphs, List.drop_left' htail]

theorem glyphs_append {a : Bytes} (ha : validUtf8 a = true) (b : Bytes) : glyphs (a ++ b) = glyphs a + glyphs b := by
  induction hn : a.length using Nat.strong_induction_on generalizing a with
  | _ n ih =>
    cases a with
    | nil => rw [List.nil_append, glyphs_nil, Nat.zero_add]
    | cons c a =>
      obtain ⟨tail, rest, rfl, hlen, -, hrest⟩ := first_glyph ha
      have hshorter : rest.length < n := by
        rw [← hn, List.length_cons, List.length_append]
        omega
      rw [List.cons_append, List.append_assoc, glyphs_cons hlen, glyphs_cons hlen, ih rest.length hshorter hrest rfl,
        Nat.add_right_comm]

theorem Complete.disp_width_le {s : Bytes} (h : Complete s) : disp_width s ≤ glyphs s := by
  refine Complete.parts (P := fun s => disp_width s ≤ glyphs s) ?_ ?_ ?_ h
  · rw [disp_width_nil]
    exact Nat.zero_le _
  · intro code rest hcode hbegin _ ih
    have hend : validUtf8 [109] = true := by decide
    have hsplit : 27 :: (code ++ 109 :: rest) = (27 :: code) ++ ([109] ++ rest) := rfl
    rw [disp_width_sequence hcode, hsplit, glyphs_append hbegin, glyphs_append hend]
    omega
  · intro c tail rest hc htail _ _ ih
    rw [disp_width_glyph hc htail, glyphs_cons htail]
    exact Nat.succ_le_succ ih

theorem clip_walk_utf8 (cols w : Int) {s : Bytes} (hs : validUtf8 s = true) : validUtf8 (clip_walk cols w s) = true := by
  fun_induction clip_walk cols w s with
  | case1 => rfl
  | case2 => rfl
  | case3 w c s _ ih =>
    obtain ⟨tail, rest, rfl, hlen, htail, hrest⟩ := first_glyph hs
    rw [List.take_left' hlen, List.drop_left' hlen] at *
    rw [validUtf8_append htail]
    exact ih hrest

theorem glyphs_clip_walk {cols w : Int} (hcols : 1 ≤ cols) (hw : w ≤ cols - 1) (s : Bytes) :
    w + glyphs (clip_walk cols w s) ≤ cols - 1 := by
  fun_induction clip_walk cols w s with
  | case1 w => simpa using hw
  | case2 w => simpa using hw
  | case3 w c s hgo ih =>
    have hroom : w + 1 ≤ cols - 1 := by omega
    have hrest := ih hroom
    have hdrop : (s.take (glyph_len c - 1) ++ clip_walk cols (w + 1) (s.drop (glyph_len c - 1))).drop (glyph_len c - 1) =
        clip_walk cols (w + 1) (s.drop (glyph_len c - 1)) := by
      rcases Nat.le_total (glyph_len c - 1) s.length with hlong | hshort
      · exact List.drop_left' (List.length_take_of_le hlong)
      · have hnone : clip_walk cols (w + 1) (s.drop (glyph_len c - 1)) = [] := by
          rw [List.drop_eq_nil_of_le hshort, clip_walk]
        rw [hnone, List.append_nil, List.drop_eq_nil_of_le]
        exact (List.length_take_le _ _)
    rw [List.cons_append, glyphs, hdrop]
    push_cast
    omega

/-- A beginning with room for all of it is kept. -/
theorem clip_walk_keeps {cols w : Int} {a : Bytes} (ha : validUtf8 a = true) (hroom : w + glyphs a ≤ cols - 1) (rest : Bytes) :
    a <+: clip_walk cols w (a ++ rest) := by
  induction hn : a.length using Nat.strong_induction_on generalizing a w with
  | _ n ih =>
    cases a with
    | nil => exact List.nil_prefix
    | cons c a =>
      obtain ⟨tail, b, rfl, hlen, -, hb⟩ := first_glyph ha
      have hshorter : b.length < n := by
        rw [← hn, List.length_cons, List.length_append]
        omega
      rw [glyphs_cons hlen] at hroom
      push_cast at hroom
      have hgo : ¬ (w + 1 > cols - 1 ∧ cols ≥ 1) := by omega
      rw [List.cons_append, List.append_assoc, clip_walk, if_neg hgo, List.take_left' hlen, List.drop_left' hlen, List.cons_append]
      exact List.cons_prefix_cons.2 ⟨rfl, (List.prefix_append_right_inj tail).2 (ih b.length hshorter hb (by omega) rfl)⟩

/-- In UTF-8 that is not complete an escape sequence does not end; the text before the
first such is complete. -/
theorem first_unended {s : Bytes} (hs : validUtf8 s = true) (h : ¬ Complete s) :
    ∃ a code, s = a ++ 27 :: code ∧ 109 ∉ code ∧ Complete a := by
  have hexists : ∃ n a code, a.length = n ∧ s = a ++ 27 :: code ∧ 109 ∉ code := by
    by_contra hnone
    refine h ⟨hs, fun code ⟨a, ha⟩ => ?_⟩
    by_contra hcode
    exact hnone ⟨a.length, a, code, rfl, ha.symm, hcode⟩
  classical
  obtain ⟨a, code, hlen, rfl, hcode⟩ := Nat.find_spec hexists
  refine ⟨a, code, rfl, hcode, (validUtf8_around (by decide) hs).1, ?_⟩
  rintro y ⟨x, rfl⟩
  -- an earlier sequence ends, and not after the escape of this one
  by_contra hy
  have hearlier := Nat.find_min' hexists ⟨x, y ++ 27 :: code, rfl, by simp, by simp [hy, hcode]⟩
  rw [← hlen, List.length_append, List.length_cons] at hearlier
  omega

/-- A text that is cut begins like the text, or with the dots. -/
theorem clip_cols_head (text : Bytes) (cols : Int) :
    (clip_cols text cols).head? = text.head? ∨ (clip_cols text cols).head? = kDots.head? := by
  unfold clip_cols
  split
  · exact .inl rfl
  · cases text with
    | nil => exact .inr (by rw [clip_walk]; rfl)
    | cons c s =>
      rw [clip_walk]
      split
      · exact .inr rfl
      · exact .inl rfl

/-! ## The width of a box -/

/-- The glyphs of a box take one column each. -/
theorem one_column : ∀ g ∈ [kBTopL, kBTopR, kBBotL, kBBotR, kBHorz, kBVert, kDots, bytes " "], Complete g ∧ disp_width g = 1 := by
  decide +kernel

/-- The colors take none. -/
theorem no_column : ∀ code ∈ [kFrame, kTitle, kReset], Complete code ∧ disp_width code = 0 := by decide +kernel

theorem paint_complete {code : Bytes} (h : code ∈ [kFrame, kTitle, kReset]) (color : Bool) : Complete (paint code color) := by
  cases color with
  | true => exact (no_column code h).1
  | false => exact complete_nil

theorem paint_width {code : Bytes} (h : code ∈ [kFrame, kTitle, kReset]) (color : Bool) : disp_width (paint code color) = 0 := by
  cases color with
  | true => exact (no_column code h).2
  | false => exact disp_width_nil

theorem frame_complete (color : Bool) : Complete (paint kFrame color) := paint_complete (by simp) color
theorem title_complete (color : Bool) : Complete (paint kTitle color) := paint_complete (by simp) color
theorem reset_complete (color : Bool) : Complete (paint kReset color) := paint_complete (by simp) color

@[simp] theorem frame_width (color : Bool) : disp_width (paint kFrame color) = 0 := paint_width (by simp) color
@[simp] theorem title_width (color : Bool) : disp_width (paint kTitle color) = 0 := paint_width (by simp) color
@[simp] theorem reset_width (color : Bool) : disp_width (paint kReset color) = 0 := paint_width (by simp) color

theorem repeated_complete {glyph : Bytes} (h : Complete glyph) (n : Int) : Complete (repeated n glyph) := by
  unfold repeated
  induction n.toNat with
  | zero => exact complete_nil
  | succ n ih =>
    rw [List.replicate_succ, List.flatten_cons]
    exact h.append ih

theorem repeated_width {glyph : Bytes} (h : Complete glyph) (hone : disp_width glyph = 1) (n : Int) :
    disp_width (repeated n glyph) = n.toNat := by
  unfold repeated
  induction n.toNat with
  | zero => exact disp_width_nil
  | succ n ih => rw [List.replicate_succ, List.flatten_cons, h.disp_width_append, hone, ih, Nat.add_comm]

theorem horz : Complete kBHorz ∧ disp_width kBHorz = 1 := one_column kBHorz (by simp)
theorem vert : Complete kBVert ∧ disp_width kBVert = 1 := one_column kBVert (by simp)
theorem blank : Complete (bytes " ") ∧ disp_width (bytes " ") = 1 := one_column (bytes " ") (by simp)
theorem dots : Complete kDots ∧ disp_width kDots = 1 := one_column kDots (by simp)

theorem panel_top_width {title : Bytes} (htitle : Complete title) {width : Int} (hwidth : disp_width title ≤ width - 6)
    (color : Bool) : disp_width (panel_top title width color) = width := by
  obtain ⟨hcorner, hcorner_width⟩ := one_column kBTopL (by simp)
  obtain ⟨hend, hend_width⟩ := one_column kBTopR (by simp)
  unfold panel_top
  simp only [List.append_assoc]
  rw [(frame_complete color).disp_width_append, hcorner.disp_width_append, horz.1.disp_width_append,
    (reset_complete color).disp_width_append, (title_complete color).disp_width_append, blank.1.disp_width_append,
    htitle.disp_width_append, blank.1.disp_width_append, (reset_complete color).disp_width_append,
    (frame_complete color).disp_width_append, (repeated_complete horz.1 _).disp_width_append, hend.disp_width_append,
    repeated_width horz.1 horz.2, frame_width, title_width, reset_width, hcorner_width, horz.2, blank.2,
    hend_width]
  omega

theorem panel_bottom_width {width : Int} (hwidth : 2 ≤ width) (color : Bool) : disp_width (panel_bottom width color) = width := by
  obtain ⟨hcorner, hcorner_width⟩ := one_column kBBotL (by simp)
  obtain ⟨hend, hend_width⟩ := one_column kBBotR (by simp)
  unfold panel_bottom
  simp only [List.append_assoc]
  rw [(frame_complete color).disp_width_append, hcorner.disp_width_append, (repeated_complete horz.1 _).disp_width_append,
    hend.disp_width_append, repeated_width horz.1 horz.2, frame_width, reset_width, hcorner_width, hend_width]
  omega

theorem blanks_unended (n : Int) : 109 ∉ repeated n (bytes " ") := by
  have hblank : (109 : UInt8) ∉ bytes " " := by decide +kernel
  unfold repeated
  rw [List.mem_flatten]
  rintro ⟨glyph, hglyph, hmem⟩
  rw [List.eq_of_mem_replicate hglyph] at hmem
  exact hblank hmem

def right_border (color : Bool) : Bytes := paint kFrame color ++ kBVert ++ paint kReset color

/-- The left border of a line is followed by a blank. -/
def left_border (color : Bool) : Bytes := right_border color ++ bytes " "

theorem right_border_complete (color : Bool) : Complete (right_border color) :=
  ((frame_complete color).append vert.1).append (reset_complete color)

theorem left_border_complete (color : Bool) : Complete (left_border color) := (right_border_complete color).append blank.1

theorem right_border_width (color : Bool) : disp_width (right_border color) = 1 := by
  rw [right_border, ((frame_complete color).append vert.1).disp_width_append, (frame_complete color).disp_width_append,
    frame_width, vert.2, reset_width]

theorem left_border_width (color : Bool) : disp_width (left_border color) = 2 := by
  rw [left_border, (right_border_complete color).disp_width_append, right_border_width, blank.2]

theorem panel_line_eq (text : Bytes) (width : Int) (color : Bool) :
    panel_line text width color = left_border color ++ (clip_cols text (max (width - 4) 1) ++
      (repeated (max (width - 4) 1 - disp_width (clip_cols text (max (width - 4) 1))) (bytes " ") ++ right_border color)) := by
  unfold panel_line left_border right_border
  simp only [List.append_assoc]

theorem inner_columns {width : Int} (hwidth : 5 ≤ width) : max (width - 4) 1 = width - 4 := by omega

/-- The two borders take three columns, with one blank after the left one and none
before the right one. -/
theorem panel_line_whole {text : Bytes} {width : Int} (hwidth : 5 ≤ width) (hbody : Complete (clip_cols text (width - 4)))
    (hfits : disp_width (clip_cols text (width - 4)) ≤ width - 4) (color : Bool) :
    disp_width (panel_line text width color) = width - 1 := by
  rw [panel_line_eq, inner_columns hwidth, (left_border_complete color).disp_width_append, hbody.disp_width_append,
    (repeated_complete blank.1 _).disp_width_append, repeated_width blank.1 blank.2, left_border_width,
    right_border_width]
  omega

/-- An escape sequence that is cut takes the rest of the line, up to the next end of one. -/
theorem right_border_cut {code : Bytes} (hcode : 109 ∉ code) (color : Bool) :
    disp_width (27 :: (code ++ right_border color)) ≤ 1 := by
  cases color with
  | true =>
    have hborder : right_border true = bytes "\x1b[2;36" ++ 109 :: (kBVert ++ kReset) := by decide +kernel
    have hnone : 109 ∉ code ++ bytes "\x1b[2;36" := by
      rw [List.mem_append, not_or]
      exact ⟨hcode, by decide +kernel⟩
    have hone : disp_width (kBVert ++ kReset) = 1 := by decide +kernel
    rw [hborder, ← List.append_assoc, disp_width_sequence hnone, hone]
  | false =>
    have hnone : 109 ∉ code ++ right_border false := by
      rw [List.mem_append, not_or]
      exact ⟨hcode, by decide +kernel⟩
    rw [disp_width_unended hnone]
    exact Nat.zero_le _

/-- The text is shown whole, or cut between complete glyphs and complete escape sequences. -/
def CleanCut (text : Bytes) (cols : Int) : Prop := disp_width text ≤ cols ∨ Complete (clip_walk cols 0 text)

/-- A box whose three kinds of line are as wide as asked. -/
structure Straight (title text : Bytes) (width : Int) (color : Bool) : Prop where
  top : disp_width (panel_top title width color) = width
  line : disp_width (panel_line text width color) = width
  bottom : disp_width (panel_bottom width color) = width
  cut : CleanCut text (width - 4)

theorem panel_line_clean {text : Bytes} (htext : Complete text) {width : Int} (hwidth : 5 ≤ width) (hcut : CleanCut text (width - 4))
    (color : Bool) : disp_width (panel_line text width color) = width - 1 := by
  refine panel_line_whole hwidth ?_ ?_ color
  all_goals
    unfold clip_cols
    split
  · exact htext
  · rename_i hlong
    exact (hcut.resolve_left hlong).append dots.1
  · assumption
  · rename_i hlong
    have hwalk := hcut.resolve_left hlong
    have hglyphs := @glyphs_clip_walk (width - 4) 0 (by omega) (by omega) text
    have hle := hwalk.disp_width_le
    rw [hwalk.disp_width_append, dots.2]
    omega

theorem panel_line_unclean {text : Bytes} (htext : Complete text) {width : Int} (hwidth : 5 ≤ width)
    (hcut : ¬ CleanCut text (width - 4)) (color : Bool) : disp_width (panel_line text width color) < width - 1 := by
  obtain ⟨hlong, hwalk⟩ := not_or.1 hcut
  obtain ⟨a, code, hsplit, hcode, ha⟩ := first_unended (clip_walk_utf8 (width - 4) 0 htext.utf8) hwalk
  have hglyphs := @glyphs_clip_walk (width - 4) 0 (by omega) (by omega) text
  have hle := ha.disp_width_le
  have hescape : 1 ≤ glyphs (27 :: code) := by
    rw [glyphs]
    omega
  rw [hsplit, glyphs_append ha.utf8] at hglyphs
  have hbody : clip_cols text (width - 4) = a ++ 27 :: (code ++ kDots) := by
    rw [clip_cols, if_neg hlong, hsplit, List.append_assoc]
    rfl
  rw [panel_line_eq, inner_columns hwidth, (left_border_complete color).disp_width_append, left_border_width, hbody]
  have hnone : 109 ∉ code ++ (kDots ++ repeated (width - 4 - disp_width (a ++ 27 :: (code ++ kDots))) (bytes " ")) := by
    rw [List.mem_append, List.mem_append, not_or, not_or]
    exact ⟨hcode, by decide +kernel, blanks_unended _⟩
  have hrest : a ++ 27 :: (code ++ kDots) ++ (repeated (width - 4 - disp_width (a ++ 27 :: (code ++ kDots))) (bytes " ") ++
        right_border color) =
      a ++ 27 :: (code ++ (kDots ++ repeated (width - 4 - disp_width (a ++ 27 :: (code ++ kDots))) (bytes " ")) ++
        right_border color) := by
    simp only [List.append_assoc, List.cons_append]
  rw [hrest, ha.disp_width_append]
  have hone := right_border_cut hnone color
  omega

/-- A box of any width is not straight: its lines are one column short, or more than one
where an escape sequence is cut. -/
theorem panels_not_straight {width : Int} {title text : Bytes} (hwidth : 8 ≤ width) (htitle : disp_width title ≤ width - 6)
    (htext : Complete text) (color : Bool) :
    (Complete title → disp_width (panel_top title width color) = width) ∧ disp_width (panel_bottom width color) = width ∧
      (disp_width (panel_line text width color) = width - 1 ↔ CleanCut text (width - 4)) ∧
      disp_width (panel_line text width color) < width ∧ ¬ Straight title text width color := by
  have hclean := @panel_line_clean text htext width (by omega)
  have hunclean := @panel_line_unclean text htext width (by omega)
  have hline : disp_width (panel_line text width color) = width - 1 ↔ CleanCut text (width - 4) :=
    ⟨fun h => by_contra fun hcut => Int.ne_of_lt (hunclean hcut color) h, fun hcut => hclean hcut color⟩
  have hshort : disp_width (panel_line text width color) < width := by
    by_cases hcut : CleanCut text (width - 4)
    · have hwhole := hclean hcut color
      omega
    · have hless := hunclean hcut color
      omega
  exact ⟨fun h => panel_top_width h htitle color, panel_bottom_width (by omega) color, hline, hshort,
    fun h => absurd h.line (by omega)⟩

theorem panels_not_straight_ten : ¬ Straight (bytes "net") (bytes "rx 1.0K/s") 10 true :=
  (panels_not_straight (by decide) (by decide +kernel) (by decide +kernel) true).2.2.2.2

/-- Nothing in a box of eight columns. -/
theorem empty_box_crooked :
    disp_width (panel_top [] 8 false) = 8 ∧ disp_width (panel_line [] 8 false) = 7 ∧
    ¬ ∀ width title text color, 8 ≤ width → (disp_width title : Int) ≤ width - 6 → Complete title → Complete text →
      Straight title text width color := by
  have hline : disp_width (panel_line [] 8 false) = 7 := by decide +kernel
  refine ⟨by decide +kernel, hline, fun h => ?_⟩
  have hstraight := (h 8 [] [] false (by decide) (by decide +kernel) (by decide +kernel) (by decide +kernel)).line
  rw [hline] at hstraight
  exact absurd hstraight (by decide)

end Hostely.Top
