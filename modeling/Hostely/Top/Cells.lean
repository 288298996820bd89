import Hostely.Top.Render
/-!
# Cells of a table

The name of a container is cut and padded to the columns of its cell, in the table
on the screen and in the one that is printed once.
-/

open Hostely.Lib

namespace Hostely.Top

/-! ## The printed table -/

section
variable {F : Type} (D : Printed F)

/-- Room for the longest name, up to 32 columns. -/
def snapshot_name_w (rows : List (Row F)) : Nat := min (rows.foldl (fun name_w r => max name_w r.name.length) 4) 32 + 2

def snapshot_header (name_w : Nat) : Bytes :=
  pad (bytes "NAME") name_w ++ bytes "CPU%    MEM          MEM%     NET RX     NET TX    DISK RD    DISK WR     P  IMAGE\n"

def snapshot_row (r : Row F) (name_w : Nat) : Bytes :=
  let mem := compact_bytes D (D.ofUInt64 r.mem_bytes) ++
    (if r.mem_limit > 0 then bytes "/" ++ compact_bytes D (D.ofUInt64 r.mem_limit) else [])
  pad (clip r.name name_w) name_w ++ pad (fmt_pct D r.rates.cpu_pct) 8 ++ pad mem 13 ++ pad (fmt_pct D r.mem_pct) 9 ++
    pad (fmt_rate D r.rates.net_rx_bps) 11 ++ pad (fmt_rate D r.rates.net_tx_bps) 11 ++
    pad (fmt_rate D r.rates.blk_rd_bps) 11 ++ pad (fmt_rate D r.rates.blk_wr_bps) 12 ++
    pad (if r.procs > 0 then to_string r.procs.toNat else bytes "-") 3 ++ r.image ++ bytes "\n"

def render_snapshot_text (snap : Snapshot F) (sort_key : SortKey) : Bytes :=
  let rows := sort_rows D sort_key snap.rows
  let name_w := snapshot_name_w rows
  snapshot_header name_w ++ rows.flatMap fun r => snapshot_row D r name_w

end

/-! ## Texts without escape sequences -/

theorem disp_width_plain {s : Bytes} (hs : 27 ∉ s) : disp_width s = glyphs s := by
  fun_induction disp_width s with
  | case1 => rw [glyphs_nil]
  | case2 s => exact absurd List.mem_cons_self hs
  | case3 c s _ ih =>
    rw [glyphs, ih fun h => hs (List.mem_cons_of_mem _ (List.mem_of_mem_drop h))]

theorem plain_complete {s : Bytes} (hutf8 : validUtf8 s = true) (hs : 27 ∉ s) : Complete s :=
  ⟨hutf8, fun _ hb => absurd (hb.subset List.mem_cons_self) hs⟩

theorem clip_walk_begins (cols w : Int) (s : Bytes) : clip_walk cols w s <+: s := by
  fun_induction clip_walk cols w s with
  | case1 => exact List.prefix_rfl
  | case2 => exact List.nil_prefix
  | case3 w c s _ ih =>
    obtain ⟨rest, hrest⟩ := ih
    refine ⟨rest, ?_⟩
    rw [List.cons_append, List.cons_append, List.append_assoc, hrest, List.take_append_drop]

/-- The walk takes the glyphs there is room for. -/
theorem glyphs_walk {cols w : Int} (hcols : 1 ≤ cols) (hw : w ≤ cols - 1) {s : Bytes} (hs : validUtf8 s = true) :
    w + glyphs (clip_walk cols w s) = min (w + glyphs s) (cols - 1) := by
  fun_induction clip_walk cols w s with
  | case1 w =>
    rw [glyphs_nil]
    omega
  | case2 w c s hstop =>
    rw [glyphs_nil, glyphs]
    omega
  | case3 w c s hgo ih =>
    obtain ⟨tail, rest, rfl, hlen, -, hrest⟩ := first_glyph hs
    rw [List.take_left' hlen, List.drop_left' hlen] at *
    have hstep := ih (by omega) hrest
    rw [List.cons_append, glyphs_cons hlen, glyphs_cons hlen]
    omega

/-! ## Cells -/

section
variable {s : Bytes} (hutf8 : validUtf8 s = true) (hs : 27 ∉ s)
include hutf8 hs

theorem clip_complete {w : Nat} (hw : 2 ≤ w) : Complete (clip s w) := by
  unfold clip
  split
  · exact plain_complete hutf8 hs
  · rw [if_neg (by omega)]
    have hwalk := fun h => hs ((clip_walk_begins w 0 s).subset h)
    exact (plain_complete (clip_walk_utf8 w 0 hutf8) hwalk).append dots.1

/-- Also where one column is left and a glyph of several bytes is cut. -/
theorem clip_width (w : Nat) : disp_width (clip s w) = min (disp_width s) w := by
  unfold clip
  split
  · omega
  · rename_i hlong
    split
    · cases s with
      | nil =>
        rw [disp_width_nil] at hlong
        omega
      | cons c s =>
        obtain rfl | rfl : w = 0 ∨ w = 1 := by omega
        · rw [List.take_zero, disp_width_nil]
          omega
        · have hc : c ≠ 27 := fun h => hs (h ▸ List.mem_cons_self)
          rw [List.take_succ_cons, List.take_zero, disp_width, if_neg hc, List.drop_nil, disp_width_nil]
          omega
    · have hwalk := fun h => hs ((clip_walk_begins w 0 s).subset h)
      have hglyphs := @glyphs_walk w 0 (by omega) (by omega) s hutf8
      rw [(plain_complete (clip_walk_utf8 w 0 hutf8) hwalk).disp_width_append, dots.2, disp_width_plain hwalk]
      rw [disp_width_plain hs] at hlong ⊢
      omega

end

theorem blanks_complete (n : Nat) : Complete (List.replicate n 32) := by
  refine plain_complete (validUtf8_ascii fun c hc => ?_) fun h => ?_
  · rw [List.eq_of_mem_replicate hc]
    decide
  · exact absurd (List.eq_of_mem_replicate h) (by decide)

theorem blanks_width (n : Nat) : disp_width (List.replicate n 32) = n := by
  induction n with
  | zero => exact disp_width_nil
  | succ n ih =>
    have hblank := @disp_width_glyph 32 (by decide) [] rfl (List.replicate n 32)
    rw [List.nil_append, ih] at hblank
    exact hblank

theorem pad_complete {s : Bytes} (hs : Complete s) (w : Nat) : Complete (pad s w) := by
  unfold pad
  split
  · exact hs.append (blanks_complete _)
  · exact hs

theorem pad_width {s : Bytes} (hs : Complete s) (w : Nat) : disp_width (pad s w) = max (disp_width s) w := by
  unfold pad
  split
  · rw [hs.disp_width_append, blanks_width]
    omega
  · omega

theorem cell_width {s : Bytes} (hutf8 : validUtf8 s = true) (hs : 27 ∉ s) (w : Nat) : disp_width (pad (clip s w) w) = w := by
  have hclip := clip_width hutf8 hs w
  by_cases hfits : disp_width s ≤ w
  · have hwhole : clip s w = s := if_pos hfits
    rw [hwhole, pad_width (plain_complete hutf8 hs)]
    omega
  · rw [pad, if_neg (by omega)]
    omega

/-- The line has the name behind its first columns, in a cell as wide as asked. Where
no glyph can be cut, what follows starts behind the cell. -/
structure NameColumn (line before name : Bytes) (name_w : Nat) : Prop where
  wide : disp_width (pad (clip name name_w) name_w) = name_w
  follows : ∃ rest, line = before ++ pad (clip name name_w) name_w ++ rest ∧
    (2 ≤ name_w → disp_width line = disp_width before + name_w + disp_width rest)

theorem name_column {before name : Bytes} (hbefore : Complete before) (hutf8 : validUtf8 name = true) (hname : 27 ∉ name)
    (name_w : Nat) (rest : Bytes) : NameColumn (before ++ pad (clip name name_w) name_w ++ rest) before name name_w := by
  have hwide := cell_width hutf8 hname name_w
  refine ⟨hwide, rest, rfl, fun hw => ?_⟩
  have hcell := pad_complete (clip_complete hutf8 hname hw) name_w
  rw [(hbefore.append hcell).disp_width_append, hbefore.disp_width_append, hwide]

theorem row_marker_whole : ∀ color selected, Complete (row_marker color selected) ∧ disp_width (row_marker color selected) = 2 := by
  decide +kernel

section
variable {F : Type} (D : Printed F)

theorem render_row_line_name (r : Row F) (name_w total_width : Nat) (color selected : Bool) :
    ∃ rest, render_row_line D r name_w total_width color selected =
      row_marker color selected ++ pad (clip r.name name_w) name_w ++ rest := by
  unfold render_row_line
  cases color
  all_goals
    simp only [List.append_assoc, Bool.not_false, Bool.not_true, if_true, Bool.false_eq_true, if_false]
    exact ⟨_, rfl⟩

theorem snapshot_row_name (r : Row F) (name_w : Nat) :
    ∃ rest, snapshot_row D r name_w = pad (clip r.name name_w) name_w ++ rest := by
  unfold snapshot_row
  simp only [List.append_assoc]
  exact ⟨_, rfl⟩

theorem header_name {name_w : Nat} (hw : 4 ≤ name_w) : clip (bytes "NAME") name_w = bytes "NAME" := by
  have hfour : disp_width (bytes "NAME") = 4 := by decide +kernel
  rw [clip, if_pos (by omega)]

theorem snapshot_name_w_ge (rows : List (Row F)) : 4 ≤ snapshot_name_w rows := by
  have hfold : 4 ≤ rows.foldl (fun name_w r => max name_w r.name.length) 4 :=
    foldl_inv (I := fun name_w => 4 ≤ name_w) (Nat.le_refl _) fun _ _ _ h => Nat.le_trans h (Nat.le_max_left _ _)
  unfold snapshot_name_w
  omega

theorem cells_exact (D : Printed F) :
    (∀ s : Bytes, validUtf8 s = true → 27 ∉ s → ∀ w,
      disp_width (clip s w) = min (disp_width s) w ∧ disp_width (pad (clip s w) w) = w) ∧
    (∀ r : Row F, validUtf8 r.name = true → 27 ∉ r.name → ∀ name_w total_width color selected,
      disp_width (row_marker color selected) = 2 ∧
      NameColumn (render_row_line D r name_w total_width color selected) (row_marker color selected) r.name name_w) ∧
    (∀ (snap : Snapshot F) (sort_key : SortKey), (∀ r ∈ snap.rows, validUtf8 r.name = true ∧ 27 ∉ r.name) →
      ∃ name_w, render_snapshot_text D snap sort_key =
          snapshot_header name_w ++ (sort_rows D sort_key snap.rows).flatMap (fun r => snapshot_row D r name_w) ∧
        NameColumn (snapshot_header name_w) [] (bytes "NAME") name_w ∧
        ∀ r ∈ sort_rows D sort_key snap.rows, NameColumn (snapshot_row D r name_w) [] r.name name_w) := by
  refine ⟨fun s hutf8 hs w => ⟨clip_width hutf8 hs w, cell_width hutf8 hs w⟩, fun r hutf8 hname name_w total_width color selected => ?_,
    fun snap sort_key hrows => ?_⟩
  · obtain ⟨rest, hline⟩ := render_row_line_name D r name_w total_width color selected
    rw [hline]
    exact ⟨(row_marker_whole color selected).2, name_column (row_marker_whole color selected).1 hutf8 hname name_w rest⟩
  · refine ⟨_, rfl, ?_, fun r hr => ?_⟩
    · have hname := @name_column [] (bytes "NAME") complete_nil (by simp) (by decide +kernel)
        (snapshot_name_w (sort_rows D sort_key snap.rows))
        (bytes "CPU%    MEM          MEM%     NET RX     NET TX    DISK RD    DISK WR     P  IMAGE\n")
      rw [header_name (snapshot_name_w_ge _)] at hname
      exact hname
    · obtain ⟨hutf8, hname⟩ := hrows r ((List.mergeSort_perm _ _).mem_iff.1 hr)
      obtain ⟨rest, hline⟩ := snapshot_row_name D r (snapshot_name_w (sort_rows D sort_key snap.rows))
      rw [hline]
      exact name_column complete_nil hutf8 hname _ rest

end

/-- Six glyphs of three bytes in a cell of four columns, and in one of one column. -/
theorem cells_exact_kana :
    disp_width (clip (bytes "コンテナ一覧") 4) = 4 ∧ disp_width (pad (clip (bytes "コンテナ一覧") 1) 1) = 1 := by
  have hcells := (cells_exact exact_printed).1 (bytes "コンテナ一覧") (by simp) (by decide +kernel)
  have hwidth : disp_width (bytes "コンテナ一覧") = 6 := by decide +kernel
  exact ⟨by rw [(hcells 4).1, hwidth]; rfl, (hcells 1).2⟩

end Hostely.Top
