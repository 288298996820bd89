import Hostely.Top.Panels
import Hostely.Top.Rates
/-!
# Frames

One snapshot to the lines of a screen: host panels, containers and status bar. What
the C library makes of a `double` is a parameter.
-/

open Hostely.Lib

namespace Hostely.Top

/-! ## Snapshots -/

inductive SortKey
  | Cpu | Mem | Name | Net
deriving DecidableEq

structure HostSummary (F : Type) where
  mem_total : UInt64
  mem_used : UInt64
  avail_bytes : UInt64
  cores : Int
  load1 : F
  load5 : F
  load15 : F
  gpu_available : Bool
  gpu_recommended : UInt64
  serving : Bool
  model_name : Bytes
  model_rss : UInt64
  swap_total : UInt64
  swap_used : UInt64

/-- A snapshot with what is shown of the machine. -/
structure HostSnapshot (F : Type) extends Snapshot F where
  host : HostSummary F

structure TermSize where
  rows : Int := 24
  cols : Int := 80

/-- The width drawn for, and the height. -/
def TermSize.width (size : TermSize) : Int := if size.cols > 0 then size.cols else 80
def TermSize.height (size : TermSize) : Int := if size.rows > 0 then size.rows else 24

theorem TermSize.width_pos (size : TermSize) : 0 < size.width := by
  unfold TermSize.width
  split <;> omega

/-- `double` with what is shown of it. -/
structure Printed (F : Type) extends Double F where
  add : F → F → F
  beq : F → F → Bool
  /-- `std::lround`, as an `int` -/
  lround : F → Int
  /-- `%.nf`, and a stream that is `std::fixed` with that precision -/
  fixed : Nat → F → Bytes

section
variable {F : Type} (D : Printed F)

def clamp (v lo hi : F) : F := if D.lt v lo then lo else if D.lt hi v then hi else v

/-! ## Sorting -/

/-- A rate that is known, else 0. -/
def known (bps : F) : F := if D.lt (D.ofInt 0) bps then bps else D.ofInt 0

/-- The comparison of `sort_rows`; the names tell equal rows apart. -/
def row_before (key : SortKey) (a b : Row F) : Bool :=
  match key with
  | .Cpu =>
    let unknown_last v := D.lt v (D.ofInt 0)
    if unknown_last a.rates.cpu_pct ≠ unknown_last b.rates.cpu_pct then unknown_last b.rates.cpu_pct
    else if !D.beq a.rates.cpu_pct b.rates.cpu_pct then D.lt b.rates.cpu_pct a.rates.cpu_pct
    else a.name < b.name
  | .Mem => if a.mem_bytes ≠ b.mem_bytes then b.mem_bytes < a.mem_bytes else a.name < b.name
  | .Net =>
    let na := D.add (known D a.rates.net_rx_bps) (known D a.rates.net_tx_bps)
    let nb := D.add (known D b.rates.net_rx_bps) (known D b.rates.net_tx_bps)
    if !D.beq na nb then D.lt nb na else a.name < b.name
  | .Name => a.name < b.name

def sort_rows (key : SortKey) (rows : List (Row F)) : List (Row F) := rows.mergeSort fun a b => !row_before D key b a

theorem sort_rows_length (key : SortKey) (rows : List (Row F)) : (sort_rows D key rows).length = rows.length :=
  List.length_mergeSort rows

/-! ## Numbers -/

def kBarFill : Bytes := bytes "█"
def kBarRest : Bytes := bytes "░"
def kMarker : Bytes := bytes "▸"
def kUp : Bytes := bytes "↑"
def kDown : Bytes := bytes "↓"

def kCpuCol : Bytes := bytes "\x1b[92m"
def kMemCol : Bytes := bytes "\x1b[95m"
def kNetCol : Bytes := bytes "\x1b[96m"

/-- Divided by 1024 as often as it can be, and how often that was. -/
def scale : Nat → F → F × Nat
  | 0, v => (v, 0)
  | n + 1, v =>
    if D.le (D.ofInt 1024) v then
      let (v, u) := scale n (D.div v (D.ofInt 1024))
      (v, u + 1)
    else (v, 0)

/-- `snprintf` into a buffer of that size. -/
def snprintf (size : Nat) (text : Bytes) : Bytes := text.take (size - 1)

def compact_bytes (v : F) : Bytes :=
  if D.lt v (D.ofInt 0) then bytes "-"
  else
    let (v, u) := scale D 4 v
    let unit := [bytes "B", bytes "K", bytes "M", bytes "G", bytes "T"].getD u []
    if D.le (D.ofInt 100) v || u = 0 then snprintf 32 (D.fixed 0 v ++ unit) else snprintf 32 (D.fixed 1 v ++ unit)

def human_bytes (n : UInt64) : Bytes :=
  let (v, u) := scale D 4 (D.ofUInt64 n)
  let unit := [bytes "B", bytes "KB", bytes "MB", bytes "GB", bytes "TB"].getD u []
  if u = 0 then snprintf 32 (to_string n.toNat ++ bytes " " ++ unit) else snprintf 32 (D.fixed 1 v ++ bytes " " ++ unit)

def fmt_rate (bps : F) : Bytes := if D.lt bps (D.ofInt 0) then bytes "-" else compact_bytes D bps ++ bytes "/s"

def fmt_pct (pct : F) : Bytes :=
  if D.lt pct (D.ofInt 0) then bytes "-"
  else if D.le (D.ofInt 100) pct then snprintf 16 (D.fixed 0 pct ++ bytes "%")
  else snprintf 16 (D.fixed 1 pct ++ bytes "%")

/-- A gauge of ten cells. -/
def bar (pct : F) (color : Bool) : Bytes :=
  let cells : Int := 10
  let filled := if D.lt (D.ofInt 0) pct then D.lround (D.mul (D.div pct (D.ofInt 100)) (D.ofInt cells)) else 0
  let filled := min (max filled 0) cells
  if color then repeated filled kBarFill ++ repeated (cells - filled) kBarRest
  else repeated filled (bytes "#") ++ repeated (cells - filled) (bytes "-")

def heat (pct : F) (yellow red : Int) : Bytes :=
  if D.le (D.ofInt red) pct then bytes "\x1b[31m"
  else if D.le (D.ofInt yellow) pct then bytes "\x1b[33m"
  else bytes "\x1b[32m"

/-! ## The history graphs -/

/-- The bits of a braille cell, from the bottom, in its left and its right half. -/
def kDotsL : List UInt8 := [0x40, 0x04, 0x02, 0x01]
def kDotsR : List UInt8 := [0x80, 0x20, 0x10, 0x08]

/-- How many pixels a value fills. -/
def pixels (v : F) (px_rows : Int) : Int :=
  let v := if D.lt v (D.ofInt 0) then D.ofInt 0 else v
  let v := clamp D v (D.ofInt 0) (D.ofInt 1)
  let h := D.lround (D.mul v (D.ofInt px_rows))
  if D.lt (D.ofInt 0) v && h = 0 then 1 else h

/-- Half a cell: the bits of the pixels from `base` on that are filled. -/
def half_cell (values : List F) (idx base px_rows : Int) (dots : List UInt8) : UInt8 :=
  if idx < 0 then 0
  else match values[idx.toNat]? with
    | none => 0
    | some v => dots.zipIdx.foldl (fun bits e => if base + e.2 < pixels D v px_rows then bits ||| e.1 else bits) 0

/-- The glyph of a cell, U+2800 and the following. -/
def braille (bits : UInt8) : Bytes :=
  let cp : UInt32 := 0x2800 + bits.toUInt32
  [((0xe0 : UInt32) ||| (cp >>> 12)).toUInt8, ((0x80 : UInt32) ||| ((cp >>> 6) &&& 0x3f)).toUInt8,
    ((0x80 : UInt32) ||| (cp &&& 0x3f)).toUInt8]

def braille_graph (values : List F) (cells : Int) (rows : Nat) : List Bytes :=
  if cells < 1 || rows < 1 then List.replicate rows []
  else
    let px_cols := cells * 2
    let px_rows := (rows : Int) * 4
    (List.range rows).map fun row =>
      let base := ((rows : Int) - 1 - row) * 4
      (List.range cells.toNat).flatMap fun c =>
        let idx := (values.length : Int) - px_cols + c * 2
        braille (half_cell D values idx base px_rows kDotsL ||| half_cell D values (idx + 1) base px_rows kDotsR)

@[simp] theorem braille_graph_length (values : List F) (cells : Int) (rows : Nat) :
    (braille_graph D values cells rows).length = rows := by
  unfold braille_graph
  split <;> simp

def kHistCap : Nat := 300

structure GraphHistory (F : Type) where
  cpu : List F := []
  mem : List F := []
  rx : List F := []
  tx : List F := []
  last_sample : Int := -1

def load_share (host : HostSummary F) : F :=
  let cores := if host.cores > 0 then D.ofInt host.cores else D.ofInt 1
  clamp D (D.div host.load1 cores) (D.ofInt 0) (D.ofInt 1)

def sum_known (rates : List F) : F :=
  rates.foldl (fun sum x => if D.lt (D.ofInt 0) x then D.add sum x else sum) (D.ofInt 0)

def GraphHistory.push (h : GraphHistory F) (snap : HostSnapshot F) : GraphHistory F :=
  if (snap.sample_count : Int) = h.last_sample then h
  else
    let mem := if snap.host.mem_total > 0 then D.div (D.ofUInt64 snap.host.mem_used) (D.ofUInt64 snap.host.mem_total) else D.ofInt 0
    let add (v : List F) (x : F) : List F := if (v ++ [x]).length > kHistCap then (v ++ [x]).tail else v ++ [x]
    { cpu := add h.cpu (load_share D snap.host)
      mem := add h.mem mem
      rx := add h.rx (sum_known D (snap.rows.map (·.rates.net_rx_bps)))
      tx := add h.tx (sum_known D (snap.rows.map (·.rates.net_tx_bps)))
      last_sample := snap.sample_count }

/-! ## The table -/

def kMemW : Nat := 12
def kBarW : Nat := 10

/-- What a row begins with on a terminal with color and on one without. -/
def row_marker (color selected : Bool) : Bytes :=
  if color then (if selected then bytes "\x1b[1m" ++ kMarker else bytes " ") ++ bytes " " ++ kReset
  else if selected then bytes "> " else bytes "  "

def render_row_line (r : Row F) (name_w total_width : Nat) (color selected : Bool) : Bytes :=
  let name_col := pad (clip r.name name_w) name_w
  let mem := compact_bytes D (D.ofUInt64 r.mem_bytes) ++
    (if r.mem_limit > 0 then bytes "/" ++ compact_bytes D (D.ofUInt64 r.mem_limit) else [])
  let mem := pad mem kMemW
  let membar := bar D r.mem_pct color
  let mempct := pad (fmt_pct D r.mem_pct) 7
  let net := pad (fmt_rate D r.rates.net_rx_bps) 9 ++ bytes " " ++ pad (fmt_rate D r.rates.net_tx_bps) 9
  let disk := pad (fmt_rate D r.rates.blk_rd_bps) 9 ++ bytes " " ++ pad (fmt_rate D r.rates.blk_wr_bps) 9
  let cpu := pad (fmt_pct D r.rates.cpu_pct) 7
  let procs := pad (if r.procs > 0 then to_string r.procs.toNat else bytes "-") 3
  let body := name_col ++ cpu ++ mem ++ membar ++ bytes " " ++ mempct ++ net ++ bytes "  " ++ disk ++ bytes "  " ++ procs
  let image := if total_width > body.length + 1 then bytes " " ++ clip r.image (total_width - body.length - 1) else []
  row_marker color selected ++
    if !color then body ++ image
    else
      name_col ++
      (if D.le (D.ofInt 0) r.rates.cpu_pct then heat D r.rates.cpu_pct 50 80 ++ cpu ++ kReset else dim cpu true) ++
      (if D.le (D.ofInt 0) r.mem_pct then
        let hs := heat D r.mem_pct 60 85
        hs ++ mem ++ kReset ++ hs ++ membar ++ kReset
      else dim mem true ++ dim membar true) ++
      bytes " " ++ dim (mempct ++ net) true ++ bytes "  " ++ dim (disk ++ bytes "  " ++ procs) true ++ image

/-! ## The screen -/

/-- Two panels side by side. -/
def beside (left right : List Bytes) : List Bytes := left.zipIdx.map fun e => e.1 ++ right.getD e.2 []

/-- A panel with a graph over one line of text. -/
def graph_panel (title : String) (values : List F) (code text : Bytes) (width : Int) (color : Bool) : List Bytes :=
  [panel_top (bytes title) width color] ++
    (braille_graph D values (width - 4) 2).map (fun gl => panel_line (colorize gl code color) width color) ++
    [panel_line text width color, panel_bottom width color]

/-- The share of memory in use. -/
def mem_share (host : HostSummary F) : F :=
  if host.mem_total > 0 then D.div (D.mul (D.ofInt 100) (D.ofUInt64 host.mem_used)) (D.ofUInt64 host.mem_total) else D.ofInt 0

def cpu_text (host : HostSummary F) : Bytes :=
  fmt_pct D (D.mul (load_share D host) (D.ofInt 100)) ++ bytes "  load " ++ D.fixed 2 host.load1 ++ bytes " " ++
    D.fixed 2 host.load5 ++ bytes " " ++ D.fixed 2 host.load15 ++ bytes "  " ++ to_string host.cores ++ bytes " cores"

def mem_text (host : HostSummary F) : Bytes :=
  fmt_pct D (mem_share D host) ++ bytes " of " ++ human_bytes D host.mem_total

/-- Side by side when there is room, else one line per metric and no graphs. -/
def host_panels (host : HostSummary F) (h : GraphHistory F) (width : Int) (color : Bool) : List Bytes :=
  let half_w := if width < 80 then width else width / 2
  if half_w < width then
    let rx_w := width - half_w
    beside (graph_panel D "cpu" h.cpu kCpuCol (cpu_text D host) half_w color)
      (graph_panel D "mem" h.mem kMemCol (mem_text D host ++ bytes "  used " ++ human_bytes D host.mem_used) rx_w color)
  else
    [panel_top (bytes "host") width color, panel_line (bytes "cpu " ++ cpu_text D host) width color,
      panel_line (bytes "mem " ++ mem_text D host) width color, panel_bottom width color]

def sum_bytes (rows : List (Row F)) : UInt64 := rows.foldl (fun sum r => sum + r.mem_bytes) 0

def vram_panel (host : HostSummary F) (rows : List (Row F)) (width : Int) (color : Bool) : List Bytes :=
  let v1 := if host.gpu_available && host.gpu_recommended > 0 then bytes "ceiling " ++ human_bytes D host.gpu_recommended
    else bytes "metal n/a"
  let v2 := if host.serving then
      bytes "model " ++ (if host.model_rss > 0 then human_bytes D host.model_rss ++ bytes " (est)" else bytes "?") ++
        bytes "  " ++ host.model_name
    else bytes "no model served"
  let v3 := bytes "containers " ++ human_bytes D (sum_bytes rows) ++ bytes "  of " ++ human_bytes D host.mem_total ++ bytes " unified"
  [panel_top (bytes "vram") width color, panel_line v1 width color, panel_line v2 width color, panel_line v3 width color,
    panel_bottom width color]

def net_panels (host : HostSummary F) (rows : List (Row F)) (h : GraphHistory F) (width : Int) (color : Bool) : List Bytes :=
  let trx := sum_known D (rows.map (·.rates.net_rx_bps))
  let ttx := sum_known D (rows.map (·.rates.net_tx_bps))
  let lw := width / 2
  let rw := width - lw
  beside (graph_panel D "net" h.rx kNetCol (bytes "rx " ++ fmt_rate D trx ++ bytes "   tx " ++ fmt_rate D ttx) lw color)
    (vram_panel D host rows rw color)

def pressure_panel (host : HostSummary F) (width : Int) (color : Bool) : List Bytes :=
  let p1 := if host.swap_total > 0 then
      D.fixed 1 (D.div (D.mul (D.ofInt 100) (D.ofUInt64 host.swap_used)) (D.ofUInt64 host.swap_total)) ++
        bytes "% of swap used (" ++ human_bytes D host.swap_used ++ bytes " of " ++ human_bytes D host.swap_total ++ bytes ")"
    else bytes "swap unused"
  let p2 := bytes "available " ++ human_bytes D host.avail_bytes ++ bytes "  (free+inactive minus 2 GB safety)"
  [panel_top (bytes "pressure") width color, panel_line p1 width color, panel_line p2 width color, panel_bottom width color]

/-- The selection, moved into the rows. -/
def clamp_selected (size selected : Int) : Int :=
  let selected := if selected ≥ size then size - 1 else selected
  if selected < 0 then 0 else selected

def graph_h : Int := 4

/-- How many rows there is room for. -/
def visible_rows (height : Int) : Int :=
  let header_h := graph_h + graph_h + graph_h + graph_h + 1
  let footer_h := 2
  let visible := height - header_h - footer_h
  if visible < 1 then 1 else visible

/-- The first row shown, so that the selected one is. -/
def scroll (size selected visible view_offset : Int) : Int :=
  let offset := view_offset
  let offset := if offset > selected then selected else offset
  let offset := if offset < selected - visible + 1 then selected - visible + 1 else offset
  let offset := if offset < 0 then 0 else offset
  let offset := if offset > size - 1 then size - 1 else offset
  if offset < 0 then 0 else offset

def table_header (name_w : Nat) : Bytes :=
  bytes "  " ++ pad (bytes "NAME") name_w ++ pad (bytes "CPU%") 7 ++ pad (bytes "MEM") kMemW ++ pad (bytes "MEM") kBarW ++
    bytes " " ++ pad (bytes "MEM%") 7 ++ pad (bytes "NET RX") 9 ++ bytes " " ++ pad (bytes "NET TX") 9 ++ bytes "  " ++
    pad (bytes "DISK RD") 9 ++ bytes " " ++ pad (bytes "DISK WR") 9 ++ bytes "  " ++ pad (bytes "P") 3 ++ bytes "IMAGE"

def name_width (width : Int) : Nat := if width < 100 then 16 else 22

/-- The rows from `offset` on, as many as are visible. -/
def row_lines (rows : List (Row F)) (selected visible offset width : Int) (color : Bool) : List Bytes :=
  ((rows.zipIdx.drop offset.toNat).take visible.toNat).map fun e =>
    panel_line (render_row_line D e.1 (name_width width) width.toNat color ((e.2 : Int) = selected)) width color

/-- The line that tells how many rows are below, if there are any. -/
def more_lines (size shown : Nat) (offset width : Int) (color : Bool) : List Bytes :=
  if offset + shown < size then
    [panel_line (dim (bytes "   … " ++ to_string (size - offset - shown) ++ bytes " more (" ++ kUp ++ kDown ++ bytes " to scroll)") color)
      width color]
  else []

def containers_panel (rows : List (Row F)) (selected visible offset width : Int) (color : Bool) : List Bytes :=
  [panel_top (bytes "containers") width color] ++
    (if rows = [] then
      [panel_line (bytes "  no containers running — start one with \x60hostely run …\x60 or \x60hostely app up\x60") width color]
    else
      let shown := row_lines D rows selected visible offset width color
      [panel_line (dim (table_header (name_width width)) color) width color] ++ shown ++
        more_lines rows.length shown.length offset width color) ++
    [panel_bottom width color]

def sort_names : SortKey → Bytes
  | .Cpu => bytes "CPU"
  | .Mem => bytes "MEM"
  | .Name => bytes "NAME"
  | .Net => bytes "NET"

/-- The question whether to stop a container. -/
def prompt (name : Bytes) (color : Bool) : Bytes :=
  colorize (bytes " press k again to stop '" ++ name ++ bytes "' — Esc to cancel") (bytes "\x1b[31m") color

def status_bar (snap : HostSnapshot F) (sort_key : SortKey) (confirm_kill : Bytes) (width : Int) (color : Bool) : Bytes :=
  if confirm_kill ≠ [] then prompt confirm_kill color
  else if snap.error ≠ [] then
    colorize (bytes " " ++ clip snap.error (max (width - 2) 0).toNat) (bytes "\x1b[31m") color
  else
    bytes " " ++ to_string snap.rows.length ++ bytes " containers   total mem " ++ human_bytes D (sum_bytes snap.rows) ++
      bytes "   sample #" ++ to_string snap.sample_count ++ bytes "   " ++ paint (bytes "\x1b[2m") color ++
      bytes "q quit  " ++ kUp ++ kDown ++ bytes " select  s sort [" ++ sort_names sort_key ++
      bytes "]  -/+ interval  k stop" ++ paint kReset color

/-- The lines drawn, and what the next frame goes on from. -/
structure Frame (F : Type) where
  lines : List Bytes
  view_offset : Int
  hist : GraphHistory F

def render_screen (h : GraphHistory F) (snap : HostSnapshot F) (sort_key : SortKey) (selected : Int) (confirm_kill : Bytes)
    (size : TermSize) (color : Bool) (view_offset : Int) : Frame F :=
  let width := size.width
  let height := size.height
  let rows := sort_rows D sort_key snap.rows
  let selected := clamp_selected rows.length selected
  let h := h.push D snap
  let visible := visible_rows height
  let offset := scroll rows.length selected visible view_offset
  { lines := (if color then [bytes "\x1b[?25l"] else []) ++ host_panels D snap.host h width color ++
      net_panels D snap.host rows h width color ++ pressure_panel D snap.host width color ++
      containers_panel D rows selected visible offset width color ++ [status_bar D snap sort_key confirm_kill width color]
    view_offset := offset
    hist := h }

end

/-! ## Exact arithmetic -/

def exact_round (v : Rat) : Int := if 0 ≤ v then (v + 1 / 2).floor else -(1 / 2 - v).floor

def exact_fixed (n : Nat) (v : Rat) : Bytes :=
  let m := (exact_round (v * 10 ^ n)).natAbs
  (if v < 0 then bytes "-" else []) ++ to_string (m / 10 ^ n : Nat) ++
    if n = 0 then [] else bytes "." ++ (to_string (10 ^ n + m % 10 ^ n : Nat)).tail

def exact_printed : Printed Rat := { exact_double with
  add := (· + ·)
  beq a b := a = b
  lround := exact_round
  fixed := exact_fixed }

/-- Containers of these names that are not sampled yet, on a machine of 8 GiB. -/
def listed (names : List String) : HostSnapshot Rat where
  rows := names.map fun name => ({ name := bytes name, state := bytes "running" } : ContainerRow).unsampled exact_double
  error := []
  missed := 0
  sample_count := 1
  interval_sec := 2
  host := {
    mem_total := 8589934592
    mem_used := 4294967296
    avail_bytes := 0
    cores := 8
    load1 := 1
    load5 := 1
    load15 := 1
    gpu_available := false
    gpu_recommended := 0
    serving := false
    model_name := []
    model_rss := 0
    swap_total := 0
    swap_used := 0 }

end Hostely.Top
