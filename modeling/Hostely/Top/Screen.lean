import Hostely.Top.Render
/-!
# What fits on the screen

The selected row is among the rows shown, whatever the terminal is like. A frame has
no more lines than the terminal, except with color and two panels side by side when
rows are left below.
-/

open Hostely.Lib

namespace Hostely.Top

/-! ## Scrolling -/

theorem clamp_selected_bounds {size : Int} (hsize : 0 < size) (selected : Int) :
    0 ≤ clamp_selected size selected ∧ clamp_selected size selected < size := by
  unfold clamp_selected
  dsimp only
  split <;> split <;> omega

theorem visible_rows_pos (height : Int) : 1 ≤ visible_rows height := by
  unfold visible_rows graph_h
  dsimp only
  split <;> omega

/-- The five corrections come to these. -/
theorem scroll_eq {size selected visible : Int} (h0 : 0 ≤ selected) (hsize : selected < size) (hvisible : 1 ≤ visible)
    (view_offset : Int) : scroll size selected visible view_offset = max (max (min view_offset selected) (selected - visible + 1)) 0 := by
  unfold scroll
  dsimp only
  omega

theorem scroll_range (size selected visible view_offset : Int) :
    0 ≤ scroll size selected visible view_offset ∧ scroll size selected visible view_offset ≤ max (size - 1) 0 := by
  unfold scroll
  dsimp only
  omega

section
variable {size selected visible : Int} (h0 : 0 ≤ selected) (hsize : selected < size) (hvisible : 1 ≤ visible) (view_offset : Int)
include h0 hsize hvisible

/-- The selected row is one of the visible ones. -/
theorem scroll_bounds : 0 ≤ scroll size selected visible view_offset ∧ scroll size selected visible view_offset ≤ selected ∧
    selected < scroll size selected visible view_offset + visible := by
  rw [scroll_eq h0 hsize hvisible]
  omega

/-- Rows are left below. -/
theorem scroll_more : scroll size selected visible view_offset + visible < size ↔
    visible < size ∧ selected < size - 1 ∧ (view_offset < size - visible ∨ selected < size - visible) := by
  rw [scroll_eq h0 hsize hvisible]
  omega

end

/-! ## The lines of a frame -/

section
variable {F : Type} (D : Printed F)

/-- The lines of a frame before its rows and after them. -/
def lines_above (h : GraphHistory F) (snap : HostSnapshot F) (rows : List (Row F)) (width : Int) (color : Bool) : List Bytes :=
  (if color then [bytes "\x1b[?25l"] else []) ++ host_panels D snap.host h width color ++ net_panels D snap.host rows h width color ++
    pressure_panel D snap.host width color ++
    [panel_top (bytes "containers") width color, panel_line (dim (table_header (name_width width)) color) width color]

def lines_below (snap : HostSnapshot F) (sort_key : SortKey) (confirm_kill : Bytes) (width : Int) (color : Bool) : List Bytes :=
  [panel_bottom width color, status_bar D snap sort_key confirm_kill width color]

variable {D} {h : GraphHistory F} {snap : HostSnapshot F}

theorem sort_rows_ne_nil (hrows : snap.rows ≠ []) (key : SortKey) : sort_rows D key snap.rows ≠ [] := by
  rw [← List.length_pos_iff_ne_nil, sort_rows_length]
  exact List.length_pos_iff_ne_nil.2 hrows

theorem row_lines_length (rows : List (Row F)) (selected visible offset width : Int) (color : Bool) :
    (row_lines D rows selected visible offset width color).length = min visible.toNat (rows.length - offset.toNat) := by
  unfold row_lines
  rw [List.length_map, List.length_take, List.length_drop, List.length_zipIdx]

theorem row_lines_get (rows : List (Row F)) (selected visible offset width : Int) (color : Bool) (i : Nat) :
    (row_lines D rows selected visible offset width color)[i]? = if i < visible.toNat then
      rows[offset.toNat + i]?.map fun r =>
        panel_line (render_row_line D r (name_width width) width.toNat color (((offset.toNat + i : Nat) : Int) = selected)) width color
      else none := by
  unfold row_lines
  rw [List.getElem?_map, List.getElem?_take]
  split
  · rw [List.getElem?_drop, List.getElem?_zipIdx]
    cases rows[offset.toNat + i]? with
    | none => rfl
    | some r => simp
  · rfl

theorem beside_length (left right : List Bytes) : (beside left right).length = left.length := by
  unfold beside
  rw [List.length_map, List.length_zipIdx]

theorem graph_panel_length (title : String) (values : List F) (code text : Bytes) (width : Int) (color : Bool) :
    (graph_panel D title values code text width color).length = 5 := by
  unfold graph_panel
  simp

theorem host_panels_length (host : HostSummary F) {width : Int} (hwidth : 0 < width) (color : Bool) :
    (host_panels D host h width color).length = if 80 ≤ width then 5 else 4 := by
  unfold host_panels
  dsimp only
  by_cases hwide : 80 ≤ width
  · have hnarrow : ¬ width < 80 := by omega
    have hhalf : width / 2 < width := by omega
    rw [if_neg hnarrow, if_pos hhalf, if_pos hwide, beside_length, graph_panel_length]
  · have hnarrow : width < 80 := by omega
    rw [if_pos hnarrow, if_neg (Int.lt_irrefl width), if_neg hwide]
    rfl

theorem net_panels_length (host : HostSummary F) (rows : List (Row F)) (width : Int) (color : Bool) :
    (net_panels D host rows h width color).length = 5 := by
  unfold net_panels
  dsimp only
  rw [beside_length, graph_panel_length]

theorem more_lines_length (size shown : Nat) (offset width : Int) (color : Bool) :
    (more_lines size shown offset width color).length = if offset + shown < size then 1 else 0 := by
  unfold more_lines
  split <;> rfl

theorem containers_panel_rows {rows : List (Row F)} (hrows : rows ≠ []) (selected visible offset width : Int) (color : Bool) :
    containers_panel D rows selected visible offset width color =
      [panel_top (bytes "containers") width color, panel_line (dim (table_header (name_width width)) color) width color] ++
        (row_lines D rows selected visible offset width color ++
          more_lines rows.length (row_lines D rows selected visible offset width color).length offset width color) ++
        [panel_bottom width color] := by
  unfold containers_panel
  rw [if_neg hrows]
  simp only [List.append_assoc, List.cons_append, List.nil_append]

/-! ## The selected row -/

/-- What the selected row begins with. -/
def mark (color : Bool) : Bytes := if color then bytes "\x1b[1m" ++ kMarker else bytes ">"

/-- The line has the mark after its border. -/
def Marked (color : Bool) (line : Bytes) : Prop := left_border color ++ mark color <+: line

theorem marked_iff {text : Bytes} {width : Int} {color : Bool} : Marked color (panel_line text width color) ↔
    mark color <+: clip_cols text (max (width - 4) 1) ++
      (repeated (max (width - 4) 1 - disp_width (clip_cols text (max (width - 4) 1))) (bytes " ") ++ right_border color) := by
  unfold Marked
  rw [panel_line_eq, List.prefix_append_right_inj]

theorem mark_head (color : Bool) : (mark color).head? ≠ some 32 ∧ (mark color).head? ≠ kDots.head? ∧ mark color ≠ [] := by
  cases color <;> decide +kernel

/-- A text that begins with a blank is not taken for the selected row. -/
theorem blank_unmarked {text : Bytes} (htext : text.head? = some 32) (width : Int) (color : Bool) :
    ¬ Marked color (panel_line text width color) := by
  obtain ⟨hblank, hdots, hne⟩ := mark_head color
  rw [marked_iff]
  rintro ⟨rest, hrest⟩
  obtain ⟨c, m, hm⟩ := List.exists_cons_of_ne_nil hne
  have hhead := congrArg List.head? hrest
  rw [hm, List.cons_append, List.head?_cons] at hhead
  rw [hm, List.head?_cons] at hblank hdots
  rcases clip_cols_head text (max (width - 4) 1) with hbody | hbody
  · rw [List.head?_append, hbody, htext, Option.some_or] at hhead
    exact hblank hhead
  · rw [List.head?_append, hbody] at hhead
    exact hdots hhead

theorem mark_glyphs (color : Bool) : validUtf8 (mark color) = true ∧ glyphs (mark color) = if color then 5 else 1 := by
  cases color <;> decide +kernel

/-- The mark is seen where there are columns for it. -/
theorem mark_kept {text : Bytes} {color : Bool} (htext : mark color <+: text) {width : Int}
    (hwidth : (if color then 10 else 6) ≤ width) : Marked color (panel_line text width color) := by
  obtain ⟨rest, rfl⟩ := htext
  obtain ⟨hutf8, hglyphs⟩ := mark_glyphs color
  have hroom : 0 + (glyphs (mark color) : Int) ≤ max (width - 4) 1 - 1 := by
    rw [hglyphs]
    cases color with
    | true =>
      rw [if_pos rfl] at hwidth ⊢
      omega
    | false =>
      rw [if_neg Bool.false_ne_true] at hwidth ⊢
      omega
  rw [marked_iff]
  refine List.IsPrefix.trans ?_ (List.prefix_append _ _)
  unfold clip_cols
  split
  · exact List.prefix_append _ _
  · exact (clip_walk_keeps hutf8 hroom rest).trans (List.prefix_append _ _)

/-- A row begins with the mark if it is selected, else with a blank. -/
theorem render_row_line_mark (r : Row F) (name_w total_width : Nat) (color : Bool) :
    mark color <+: render_row_line D r name_w total_width color true ∧
      (render_row_line D r name_w total_width color false).head? = some 32 := by
  have hbegin (selected : Bool) : row_marker color selected <+: render_row_line D r name_w total_width color selected :=
    ⟨_, rfl⟩
  have hmark : mark color <+: row_marker color true := by cases color <;> decide +kernel
  have hblank : (row_marker color false).head? = some 32 := by cases color <;> decide +kernel
  refine ⟨hmark.trans (hbegin true), ?_⟩
  obtain ⟨rest, hrest⟩ := hbegin false
  rw [← hrest, List.head?_append, hblank, Option.some_or]

/-- The rows of a frame: those from the first one on that are visible, the selected one
among them and no other marked, and a line more if there are rows below. -/
structure ShowsSelection (D : Printed F) (rows : List (Row F)) (sel visible width : Int) (color : Bool) (offset : Int)
    (shown more : List Bytes) : Prop where
  offset_nonneg : 0 ≤ offset
  offset_le : offset ≤ sel
  sel_visible : sel < offset + visible
  sel_row : sel < rows.length
  length : (shown.length : Int) = min visible (rows.length - offset)
  row : ∀ (i : Nat) line, shown[i]? = some line → ∃ r, rows[offset.toNat + i]? = some r ∧
    line = panel_line (render_row_line D r (name_width width) width.toNat color (offset + i = sel)) width color
  unmarked : ∀ (i : Nat) line, shown[i]? = some line → Marked color line → offset + i = sel
  marked : (if color then 10 else 6) ≤ width → ∃ (i : Nat) (line : Bytes), shown[i]? = some line ∧ Marked color line ∧ offset + i = sel
  more : more.length = if offset + shown.length < rows.length then 1 else 0

theorem row_lines_show {rows : List (Row F)} {sel visible offset : Int} (h0 : 0 ≤ offset) (hle : offset ≤ sel)
    (hvisible : sel < offset + visible) (hrow : sel < rows.length) (width : Int) (color : Bool) :
    ShowsSelection D rows sel visible width color offset (row_lines D rows sel visible offset width color)
      (more_lines rows.length (row_lines D rows sel visible offset width color).length offset width color) := by
  have hget (i : Nat) (line : Bytes) (hline : (row_lines D rows sel visible offset width color)[i]? = some line) :
      ∃ r, rows[offset.toNat + i]? = some r ∧
        line = panel_line (render_row_line D r (name_width width) width.toNat color (offset + i = sel)) width color := by
    rw [row_lines_get] at hline
    split at hline
    · obtain ⟨r, hr, hline⟩ := Option.map_eq_some_iff.1 hline
      have hindex : ((offset.toNat + i : Nat) : Int) = offset + i := by omega
      rw [hindex] at hline
      exact ⟨r, hr, hline.symm⟩
    · cases hline
  constructor
  case offset_nonneg => exact h0
  case offset_le => exact hle
  case sel_visible => exact hvisible
  case sel_row => exact hrow
  case row => exact hget
  case length =>
    rw [row_lines_length]
    omega
  case unmarked =>
    intro i line hline hmarked
    obtain ⟨r, -, rfl⟩ := hget i line hline
    by_contra hother
    rw [decide_eq_false hother] at hmarked
    exact blank_unmarked (render_row_line_mark r _ _ color).2 width color hmarked
  case marked =>
    intro hwidth
    have hindex : offset.toNat + (sel - offset).toNat < rows.length := by omega
    have hroom : (sel - offset).toNat < visible.toNat := by omega
    have hsel : offset + ((sel - offset).toNat : Int) = sel := by omega
    have hselected : ((offset.toNat + (sel - offset).toNat : Nat) : Int) = sel := by omega
    have hline : (row_lines D rows sel visible offset width color)[(sel - offset).toNat]? =
        some (panel_line (render_row_line D rows[offset.toNat + (sel - offset).toNat] (name_width width) width.toNat color true)
          width color) := by
      rw [row_lines_get, if_pos hroom, List.getElem?_eq_getElem hindex, Option.map_some, decide_eq_true hselected]
    exact ⟨_, _, hline, mark_kept (render_row_line_mark _ _ _ color).1 hwidth, hsel⟩
  case more => exact more_lines_length _ _ _ _ _

theorem render_screen_lines (h : GraphHistory F) (hrows : snap.rows ≠ []) (sort_key : SortKey) (selected : Int) (confirm_kill : Bytes)
    (size : TermSize) (color : Bool) (view_offset : Int) :
    let frame := render_screen D h snap sort_key selected confirm_kill size color view_offset
    let rows := sort_rows D sort_key snap.rows
    let shown := row_lines D rows (clamp_selected rows.length selected) (visible_rows size.height) frame.view_offset size.width color
    frame.lines = lines_above D (h.push D snap) snap rows size.width color ++
        (shown ++ more_lines rows.length shown.length frame.view_offset size.width color) ++
      lines_below D snap sort_key confirm_kill size.width color := by
  unfold render_screen lines_above lines_below
  simp only [containers_panel_rows (sort_rows_ne_nil hrows sort_key), List.append_assoc, List.cons_append, List.nil_append]

theorem view_offset_bounds (h : GraphHistory F) (hrows : snap.rows ≠ []) (sort_key : SortKey) (selected : Int) (confirm_kill : Bytes)
    (size : TermSize) (color : Bool) (view_offset : Int) :
    let offset := (render_screen D h snap sort_key selected confirm_kill size color view_offset).view_offset
    let sel := clamp_selected (sort_rows D sort_key snap.rows).length selected
    0 ≤ offset ∧ offset ≤ sel ∧ sel < offset + visible_rows size.height ∧ sel < (sort_rows D sort_key snap.rows).length := by
  have hsize : 0 < ((sort_rows D sort_key snap.rows).length : Int) :=
    Int.natCast_pos.2 (List.length_pos_iff_ne_nil.2 (sort_rows_ne_nil hrows sort_key))
  obtain ⟨hsel, hrow⟩ := clamp_selected_bounds hsize selected
  obtain ⟨h0, hle, hvisible⟩ := scroll_bounds hsel hrow (visible_rows_pos size.height) view_offset
  exact ⟨h0, hle, hvisible, hrow⟩

/-- Whatever the terminal, the selection and the offset before, the rows drawn are those
from the new offset on, and the selected row is one of them. -/
theorem selection_shown (D : Printed F) (h : GraphHistory F) {snap : HostSnapshot F} (hrows : snap.rows ≠ []) (sort_key : SortKey)
    (selected : Int) (confirm_kill : Bytes) (size : TermSize) (color : Bool) (view_offset : Int) :
    ∃ shown more, (render_screen D h snap sort_key selected confirm_kill size color view_offset).lines =
        lines_above D (h.push D snap) snap (sort_rows D sort_key snap.rows) size.width color ++ (shown ++ more) ++
          lines_below D snap sort_key confirm_kill size.width color ∧
      ShowsSelection D (sort_rows D sort_key snap.rows) (clamp_selected snap.rows.length selected) (visible_rows size.height)
        size.width color (render_screen D h snap sort_key selected confirm_kill size color view_offset).view_offset shown more := by
  obtain ⟨h0, hle, hvisible, hrow⟩ := @view_offset_bounds _ D snap h hrows sort_key selected confirm_kill size color view_offset
  rw [← sort_rows_length D sort_key snap.rows]
  exact ⟨_, _, render_screen_lines h hrows sort_key selected confirm_kill size color view_offset,
    row_lines_show h0 hle hvisible hrow size.width color⟩

end

theorem selection_shown_two : ∃ shown more,
    (render_screen exact_printed {} (listed ["web", "db"]) .Name 7 [] ⟨24, 80⟩ true (-3)).lines =
        lines_above exact_printed (GraphHistory.push exact_printed {} (listed ["web", "db"])) (listed ["web", "db"])
            (sort_rows exact_printed .Name (listed ["web", "db"]).rows) 80 true ++ (shown ++ more) ++
          lines_below exact_printed (listed ["web", "db"]) .Name [] 80 true ∧
      ShowsSelection exact_printed (sort_rows exact_printed .Name (listed ["web", "db"]).rows) 1 5 80 true
        (render_screen exact_printed {} (listed ["web", "db"]) .Name 7 [] ⟨24, 80⟩ true (-3)).view_offset shown more :=
  selection_shown exact_printed {} (List.cons_ne_nil _ _) .Name 7 [] ⟨24, 80⟩ true (-3)

/-- On a terminal of five columns nothing of a row is shown. -/
theorem narrow_unmarked : ¬ ∀ (size : TermSize) (color : Bool),
    ∃ line ∈ (render_screen exact_printed {} (listed ["web"]) .Name 0 [] size color 0).lines, Marked color line := by
  intro h
  obtain ⟨line, hline, hmarked⟩ := h ⟨24, 5⟩ false
  have hnone : ∀ line ∈ (render_screen exact_printed {} (listed ["web"]) .Name 0 [] ⟨24, 5⟩ false 0).lines,
      ¬ left_border false ++ mark false <+: line := by decide +kernel
  exact hnone line hline hmarked

/-! ## The height of a frame -/

section
variable {F : Type} {D : Printed F}

theorem containers_panel_length (rows : List (Row F)) {selected visible offset : Int} (h0 : 0 ≤ offset) (hvisible : 1 ≤ visible)
    (hoffset : offset ≤ rows.length) (width : Int) (color : Bool) :
    ((containers_panel D rows selected visible offset width color).length : Int) =
      if rows = [] then 3
      else if offset + visible < rows.length then visible + 4 else rows.length - offset + 3 := by
  by_cases hrows : rows = []
  · unfold containers_panel
    rw [if_pos hrows, if_pos hrows]
    rfl
  · rw [containers_panel_rows hrows, if_neg hrows]
    simp only [List.length_append, List.length_cons, List.length_nil, more_lines_length, row_lines_length]
    split <;> split <;> omega

/-- The lines of a frame: eighteen and those of the rows, one of them for the rows below,
one less when it is narrow and one more with color, for the line that hides the cursor. -/
theorem render_screen_length (h : GraphHistory F) (snap : HostSnapshot F) (sort_key : SortKey) (selected : Int)
    (confirm_kill : Bytes) (size : TermSize) (color : Bool) (view_offset : Int) :
    ((render_screen D h snap sort_key selected confirm_kill size color view_offset).lines.length : Int) =
      (if color then 1 else 0) + (if 80 ≤ size.width then 15 else 14) +
        (containers_panel D (sort_rows D sort_key snap.rows) (clamp_selected snap.rows.length selected) (visible_rows size.height)
          (scroll snap.rows.length (clamp_selected snap.rows.length selected) (visible_rows size.height) view_offset) size.width
          color).length := by
  unfold render_screen
  have hpressure : (pressure_panel D snap.host size.width color).length = 4 := rfl
  simp only [List.length_append, host_panels_length _ size.width_pos, net_panels_length, hpressure, sort_rows_length,
    List.length_cons, List.length_nil]
  cases color with
  | true =>
    rw [if_pos rfl, if_pos rfl]
    split <;> push_cast [List.length_cons, List.length_nil] <;> omega
  | false =>
    rw [if_neg Bool.false_ne_true, if_neg Bool.false_ne_true]
    split <;> push_cast [List.length_nil] <;> omega

/-- Not all rows fit into `room` lines, and the last one is not shown. -/
def RowsBelow (size room selected view_offset : Int) : Prop :=
  room < size ∧ selected < size - 1 ∧ (view_offset < size - room ∨ selected < size - room)

theorem rows_below_iff {size room selected : Int} (hsize : 0 < size) (hroom : 1 ≤ room) (view_offset : Int) :
    scroll size (clamp_selected size selected) room view_offset + room < size ↔ RowsBelow size room selected view_offset := by
  obtain ⟨h0, hlt⟩ := clamp_selected_bounds hsize selected
  rw [scroll_more h0 hlt hroom]
  unfold RowsBelow clamp_selected
  dsimp only
  omega

/-- A frame is too high exactly with color, two panels side by side and rows below. -/
theorem frame_fits_iff (D : Printed F) (h : GraphHistory F) (snap : HostSnapshot F) (sort_key : SortKey) (selected : Int)
    (confirm_kill : Bytes) {size : TermSize} (hrows : 20 ≤ size.rows) (color : Bool) (view_offset : Int) :
    ((render_screen D h snap sort_key selected confirm_kill size color view_offset).lines.length : Int) ≤ size.rows ↔
      ¬ (color = true ∧ 80 ≤ size.width ∧ RowsBelow snap.rows.length (size.rows - 19) selected view_offset) := by
  have hvisible : visible_rows size.height = size.rows - 19 := by
    unfold visible_rows graph_h TermSize.height
    dsimp only
    omega
  have hroom : 1 ≤ size.rows - 19 := by omega
  obtain ⟨hoffset, hlast⟩ := scroll_range snap.rows.length (clamp_selected snap.rows.length selected) (size.rows - 19) view_offset
  rw [render_screen_length, hvisible, containers_panel_length _ hoffset hroom (by rw [sort_rows_length]; omega), sort_rows_length]
  by_cases hrows : snap.rows = []
  · have hsorted : sort_rows D sort_key snap.rows = [] := by
      rw [← List.length_eq_zero_iff, sort_rows_length, hrows, List.length_nil]
    have hnone : ¬ RowsBelow snap.rows.length (size.rows - 19) selected view_offset := by
      unfold RowsBelow
      rw [hrows, List.length_nil]
      omega
    rw [if_pos hsorted]
    simp only [hnone, and_false, not_false_eq_true, iff_true]
    split <;> split <;> omega
  · have hsize : 0 < (snap.rows.length : Int) := Int.natCast_pos.2 (List.length_pos_iff_ne_nil.2 hrows)
    rw [if_neg (sort_rows_ne_nil hrows sort_key), ← rows_below_iff hsize hroom view_offset]
    cases color <;> simp only [if_true, if_false, Bool.false_eq_true, false_and, not_false_eq_true, iff_true, true_and] <;>
      split <;> split <;> omega

end

theorem frame_fits_iff_monochrome : ((render_screen exact_printed {} (listed ["web", "db"]) .Name 0 [] ⟨24, 80⟩ false 0).lines.length : Int) ≤ 24 :=
  (frame_fits_iff exact_printed {} (listed ["web", "db"]) .Name 0 [] (by decide) false 0).2 fun h => absurd h.1 (by decide)

/-- Six containers on a terminal of 80 columns and 24 rows. -/
theorem frame_too_high :
    ((render_screen exact_printed {} (listed ["a", "b", "c", "d", "e", "f"]) .Name 0 [] ⟨24, 80⟩ true 0).lines.length : Int) = 25 ∧
    ¬ ∀ (snap : HostSnapshot Rat) (selected : Int) (size : TermSize) (color : Bool) (view_offset : Int), 20 ≤ size.rows →
      ((render_screen exact_printed {} snap .Name selected [] size color view_offset).lines.length : Int) ≤ size.rows := by
  have hlength :
      ((render_screen exact_printed {} (listed ["a", "b", "c", "d", "e", "f"]) .Name 0 [] ⟨24, 80⟩ true 0).lines.length : Int) = 25 := by
    rw [render_screen_length, containers_panel_length _ (by decide) (by decide) (by rw [sort_rows_length]; decide),
      if_neg (sort_rows_ne_nil (List.cons_ne_nil _ _) .Name), sort_rows_length]
    decide
  refine ⟨hlength, fun h => ?_⟩
  have hfits := h (listed ["a", "b", "c", "d", "e", "f"]) 0 ⟨24, 80⟩ true 0 (by decide)
  rw [hlength] at hfits
  exact absurd hfits (by decide)

end Hostely.Top
