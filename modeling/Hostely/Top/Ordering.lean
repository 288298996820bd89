import Hostely.Lib.Sorting
import Hostely.Top.Keys
import Hostely.Top.Screen
/-!
# The order of the rows

Every sort key compares two rows by numbers and then by their names, so rows of
different names have one order, whatever order they come in.
-/

open Hostely.Lib

namespace Hostely.Top

/-! ## The comparisons -/

def cpu_unknown (r : Row Rat) : Bool := r.rates.cpu_pct < 0

def net_known (r : Row Rat) : Rat := known exact_printed r.rates.net_rx_bps + known exact_printed r.rates.net_tx_bps

def name_before (a b : Row Rat) : Bool := a.name < b.name

/-- What each sort key compares, one after the other. -/
def comparison : SortKey → Row Rat → Row Rat → Bool
  | .Cpu =>
    thenBy (fun a b => cpu_unknown a < cpu_unknown b) (thenBy (fun a b => b.rates.cpu_pct < a.rates.cpu_pct) name_before)
  | .Mem => thenBy (fun a b => b.mem_bytes < a.mem_bytes) name_before
  | .Net => thenBy (fun a b => net_known b < net_known a) name_before
  | .Name => name_before

theorem row_before_comparison (key : SortKey) : row_before exact_printed key = comparison key := by
  funext a b
  cases key with
  | Cpu =>
    have hcpu := thenBy_greater (fun r : Row Rat => r.rates.cpu_pct) name_before a b
    have hbeq : (!decide (a.rates.cpu_pct = b.rates.cpu_pct)) = true ↔ a.rates.cpu_pct ≠ b.rates.cpu_pct := by simp
    have hunknown : row_before exact_printed .Cpu a b =
        if cpu_unknown a ≠ cpu_unknown b then cpu_unknown b
        else thenBy (fun a b => decide (b.rates.cpu_pct < a.rates.cpu_pct)) name_before a b := by
      rw [hcpu]
      simp only [← hbeq]
      rfl
    rw [hunknown, comparison, thenBy_last]
  | Mem => exact (thenBy_greater (fun r : Row Rat => r.mem_bytes) name_before a b).symm
  | Net =>
    have hnet := thenBy_greater net_known name_before a b
    have hbeq : (!decide (net_known a = net_known b)) = true ↔ net_known a ≠ net_known b := by simp
    rw [comparison, hnet]
    simp only [← hbeq]
    rfl
  | Name => rfl

theorem name_strict : StrictWeak name_before := StrictWeak.of_lt fun r : Row Rat => r.name

theorem row_before_strict (key : SortKey) : StrictWeak (row_before exact_printed key) := by
  rw [row_before_comparison]
  cases key with
  | Cpu =>
    have hknown := StrictWeak.of_lt fun r : Row Rat => r.rates.cpu_pct
    exact (StrictWeak.of_lt cpu_unknown).thenBy (hknown.flip.thenBy name_strict)
  | Mem =>
    have hmem := StrictWeak.of_lt fun r : Row Rat => r.mem_bytes
    exact hmem.flip.thenBy name_strict
  | Net => exact (StrictWeak.of_lt net_known).flip.thenBy name_strict
  | Name => exact name_strict

/-- No key leaves rows of different names in a tie. -/
theorem tied_names {key : SortKey} {a b : Row Rat} (h : Tied (row_before exact_printed key) a b) : a.name = b.name := by
  rw [row_before_comparison] at h
  have hname : Tied name_before a b := by
    cases key with
    | Cpu => exact (thenBy_tied (thenBy_tied h).2).2
    | Mem => exact (thenBy_tied h).2
    | Net => exact (thenBy_tied h).2
    | Name => exact h
  obtain ⟨hab, hba⟩ := hname
  exact ((Std.lt_trichotomy a.name b.name).resolve_left (of_decide_eq_false hab)).resolve_right (of_decide_eq_false hba)

/-- A row without a CPU share is not before one with it. -/
theorem unknown_after {a b : Row Rat} (h : row_before exact_printed .Cpu b a = false) (ha : cpu_unknown a = true) :
    cpu_unknown b = true := by
  rw [row_before_comparison, comparison, thenBy_last, ha] at h
  cases hb : cpu_unknown b with
  | true => rfl
  | false =>
    rw [hb, if_pos (by decide)] at h
    cases h

/-! ## The sorted rows -/

/-- The sorted rows depend only on which rows they are. -/
structure Canonical (key : SortKey) (rows : List (Row Rat)) : Prop where
  perm : (sort_rows exact_printed key rows).Perm rows
  sorted : Sorted (row_before exact_printed key) (sort_rows exact_printed key rows)
  /-- A sort that leaves them in any order the comparison allows leaves them in this one. -/
  only : ∀ l : List (Row Rat), l.Perm rows → Sorted (row_before exact_printed key) l → l = sort_rows exact_printed key rows
  same : ∀ rows' : List (Row Rat), rows'.Perm rows → sort_rows exact_printed key rows' = sort_rows exact_printed key rows
  unknown_last : key = .Cpu → ∃ measured unknown, sort_rows exact_printed key rows = measured ++ unknown ∧
    (∀ r ∈ measured, 0 ≤ r.rates.cpu_pct) ∧ ∀ r ∈ unknown, r.rates.cpu_pct < 0

theorem rows_apart {rows : List (Row Rat)} (hnames : (rows.map (·.name)).Nodup) (key : SortKey) :
    ∀ a ∈ rows, ∀ b ∈ rows, Tied (row_before exact_printed key) a b → a = b := by
  intro a ha b hb htied
  exact key_unique (fun r : Row Rat => r.name) hnames ha hb (tied_names htied)

theorem rows_canonical (key : SortKey) {rows : List (Row Rat)} (hnames : (rows.map (·.name)).Nodup) : Canonical key rows := by
  have hperm : (sort_rows exact_printed key rows).Perm rows := List.mergeSort_perm _ _
  have hsorted := sorted_mergeSort (row_before_strict key)
  have honly : ∀ l : List (Row Rat), l.Perm rows → Sorted (row_before exact_printed key) l → l = sort_rows exact_printed key rows := by
    intro l hl hl_sorted
    have hapart : ∀ a ∈ sort_rows exact_printed key rows, ∀ b ∈ sort_rows exact_printed key rows,
        Tied (row_before exact_printed key) a b → a = b :=
      fun a ha b hb => rows_apart hnames key a (hperm.subset ha) b (hperm.subset hb)
    exact sorted_unique hapart (hl.trans hperm.symm) (hsorted rows) hl_sorted
  constructor
  case perm => exact hperm
  case sorted => exact hsorted rows
  case only => exact honly
  case same => exact fun rows' hrows' => honly _ ((List.mergeSort_perm _ _).trans hrows') (hsorted rows')
  case unknown_last =>
    rintro rfl
    have hpairs : (sort_rows exact_printed .Cpu rows).Pairwise fun a b => cpu_unknown a = true → cpu_unknown b = true :=
      (hsorted rows).imp fun h => unknown_after h
    have hlast := last_of_pairwise hpairs
    refine ⟨_, _, hlast, fun r hr => ?_, fun r hr => ?_⟩
    · have hr := (List.mem_filter.1 hr).2
      rw [Bool.not_eq_true'] at hr
      exact not_lt.1 (of_decide_eq_false hr)
    · exact of_decide_eq_true (List.mem_filter.1 hr).2

/-! ## The row to stop -/

/-- In every frame of the snapshot where the index is in view, the row drawn there is `r`. -/
def DrawnAt (snap : HostSnapshot Rat) (key : SortKey) (index : Int) (r : Row Rat) : Prop :=
  ∀ (h : GraphHistory Rat) (selected : Int) (confirm_kill : Bytes) (size : TermSize) (color : Bool) (view_offset : Int),
    let frame := render_screen exact_printed h snap key selected confirm_kill size color view_offset
    let marked : Bool := index = clamp_selected snap.rows.length selected
    ∃ shown more, frame.lines = lines_above exact_printed (h.push exact_printed snap) snap (sort_rows exact_printed key snap.rows)
          size.width color ++ (shown ++ more) ++ lines_below exact_printed snap key confirm_kill size.width color ∧
      ∀ i : Nat, frame.view_offset + i = index → i < visible_rows size.height →
        shown[i]? = some (panel_line (render_row_line exact_printed r (name_width size.width) size.width.toNat color marked)
          size.width color)

theorem drawn_at {snap : HostSnapshot Rat} {key : SortKey} {index : Nat} {r : Row Rat}
    (hr : (sort_rows exact_printed key snap.rows)[index]? = some r) : DrawnAt snap key index r := by
  intro h selected confirm_kill size color view_offset frame marked
  have hrows : snap.rows ≠ [] := by
    intro hnil
    rw [hnil, sort_rows, List.mergeSort_nil] at hr
    cases hr
  have h0 : 0 ≤ frame.view_offset :=
    (@view_offset_bounds _ exact_printed snap h hrows key selected confirm_kill size color view_offset).1
  refine ⟨_, _, render_screen_lines h hrows key selected confirm_kill size color view_offset, fun i hindex hvisible => ?_⟩
  have hi : frame.view_offset.toNat + i = index := by omega
  rw [row_lines_get, if_pos (by omega), hi, hr, Option.map_some, sort_rows_length]

/-- The order of the rows is one that a sort can be asked for, and it is one order only.
So the stop key, which sorts the snapshot again, finds the row that is drawn. -/
theorem sort_rows_canonical (key : SortKey) :
    StrictWeak (row_before exact_printed key) ∧
    (∀ rows : List (Row Rat), (rows.map (·.name)).Nodup → Canonical key rows) ∧
    ∀ (s : Loop Rat) (snap : HostSnapshot Rat), (snap.rows.map (·.name)).Nodup → s.store.rows.Perm snap.rows → s.sort = key →
      ∀ name, under_cursor exact_printed s = some name → ∃ r ∈ snap.rows, r.name = name ∧ DrawnAt snap key s.selected r := by
  refine ⟨row_before_strict key, fun rows hnames => rows_canonical key hnames, ?_⟩
  rintro s snap hnames hsame rfl name hname
  have hcanonical := rows_canonical s.sort hnames
  unfold under_cursor at hname
  split at hname
  · rename_i h0
    obtain ⟨r, hr, rfl⟩ := Option.map_eq_some_iff.1 hname
    rw [hcanonical.same s.store.rows hsame] at hr
    have hdrawn := drawn_at hr
    rw [Int.toNat_of_nonneg h0] at hdrawn
    exact ⟨r, hcanonical.perm.subset (List.mem_of_getElem? hr), rfl, hdrawn⟩
  · cases hname

/-- Two rows without rates, in both orders. -/
theorem sort_rows_canonical_two (key : SortKey) :
    sort_rows exact_printed key (listed ["db", "web"]).rows = sort_rows exact_printed key (listed ["web", "db"]).rows :=
  ((sort_rows_canonical key).2.1 _ (by decide)).same _ (.swap _ _ _)

end Hostely.Top
