import Hostely.Lib.Fallible
import Hostely.Lib.Runs
import Hostely.Lib.SortedMap
import Hostely.Lib.Substring
import Hostely.Top.Sample
import Mathlib.Algebra.Order.Field.Rat
/-!
# Rates

`sample_once` against the counters of an earlier pass, and the loop of the
sampler, which swaps its two maps after every pass and clears neither. What the
machine answers to a pass is a `Pass`; JSON's parser and the arithmetic of `double`
are parameters.
-/

open Hostely.Lib

namespace Hostely.Top

/-! ## Counters -/

/-- Raw cumulative counters for one container from a stats pass. -/
structure RawSample where
  cpu_usec : UInt64 := 0
  net_rx : UInt64 := 0
  net_tx : UInt64 := 0
  blk_rd : UInt64 := 0
  blk_wr : UInt64 := 0
  mem_bytes : UInt64 := 0
  mem_limit : UInt64 := 0
  procs : UInt32 := 0
deriving DecidableEq

abbrev Samples := List (Bytes × RawSample)

def parse_sample (e : Json) : Option RawSample := do
  return {
    cpu_usec := ← e.value_ulong (bytes "cpuUsageUsec") 0
    net_rx := ← e.value_ulong (bytes "networkRxBytes") 0
    net_tx := ← e.value_ulong (bytes "networkTxBytes") 0
    blk_rd := ← e.value_ulong (bytes "blockReadBytes") 0
    blk_wr := ← e.value_ulong (bytes "blockWriteBytes") 0
    mem_bytes := ← e.value_ulong (bytes "memoryUsageBytes") 0
    mem_limit := ← e.value_ulong (bytes "memoryLimitBytes") 0
    procs := ← e.value_unsigned (bytes "numProcesses") 0 }

def add_sample (out : Samples) (e : Json) : Option Samples :=
  if e.is_object then do
    let id ← e.value_string (bytes "id") []
    if id = [] then return out else return assign id (← parse_sample e) out
  else some out

/-- The counters by container; text that is not a JSON array has none. -/
def parse_stats : Option Json → Option Samples
  | some (.arr entries) => entries.foldlM add_sample []
  | _ => some []

/-! ## Rates -/

/-- The arithmetic of `double`, with the literals of the source. -/
structure Double (F : Type) where
  ofUInt64 : UInt64 → F
  ofInt : Int → F
  /-- 0.05 -/
  twentieth : F
  sub : F → F → F
  mul : F → F → F
  div : F → F → F
  lt : F → F → Bool
  le : F → F → Bool

structure Rates (F : Type) where
  cpu_pct : F
  net_rx_bps : F
  net_tx_bps : F
  blk_rd_bps : F
  blk_wr_bps : F
deriving DecidableEq

section
variable {F : Type} (D : Double F)

/-- -1 means unknown. -/
def Rates.unknown : Rates F := ⟨D.ofInt (-1), D.ofInt (-1), D.ofInt (-1), D.ofInt (-1), D.ofInt (-1)⟩

def delta (now before : UInt64) : F := D.sub (D.ofUInt64 now) (D.ofUInt64 before)

/-- A counter that went back gives no rate. -/
def rate (window : F) (now before : UInt64) : F :=
  if D.le (D.ofInt 0) (delta D now before) then D.div (delta D now before) window else D.ofInt (-1)

def cpu_rate (window : F) (now before : UInt64) : F :=
  if D.le (D.ofInt 0) (delta D now before) then
    let cpu_pct := D.mul (D.div (delta D now before) (D.mul window (D.ofInt 1000000))) (D.ofInt 100)
    if D.lt (D.ofInt 1000000) cpu_pct then D.ofInt (-1) else cpu_pct
  else D.ofInt (-1)

/-- The rates of a container over its counters in an earlier pass. -/
def rates (window : F) (before : Option RawSample) (raw : RawSample) : Rates F :=
  match before with
  | some before =>
    if D.lt D.twentieth window then {
      cpu_pct := cpu_rate D window raw.cpu_usec before.cpu_usec
      net_rx_bps := rate D window raw.net_rx before.net_rx
      net_tx_bps := rate D window raw.net_tx before.net_tx
      blk_rd_bps := rate D window raw.blk_rd before.blk_rd
      blk_wr_bps := rate D window raw.blk_wr before.blk_wr }
    else Rates.unknown D
  | none => Rates.unknown D

def rate_window (interval_sec : F) : F := if D.lt D.twentieth interval_sec then interval_sec else D.ofInt 2

/-! ## A pass -/

/-- A row of the table: the part from the listing, and the part from stats. -/
structure Row (F : Type) extends ContainerRow where
  mem_bytes : UInt64
  procs : UInt32
  mem_pct : F
  rates : Rates F

/-- A row without stats. -/
def ContainerRow.unsampled (row : ContainerRow) : Row F := ⟨row, 0, 0, D.ofInt (-1), .unknown D⟩

def sample_row (window : F) (statics : List (Bytes × ContainerRow)) (prev : Samples) (e : Bytes × RawSample) : Row F :=
  let row : ContainerRow := match statics.lookup e.1 with
    | some row => if row.mem_limit = 0 then { row with mem_limit := e.2.mem_limit } else row
    | none => { name := e.1, state := bytes "running", mem_limit := e.2.mem_limit }
  { row with
    mem_bytes := e.2.mem_bytes
    procs := e.2.procs
    mem_pct := if 0 < row.mem_limit then D.div (D.mul (D.ofInt 100) (D.ofUInt64 e.2.mem_bytes)) (D.ofUInt64 row.mem_limit)
      else D.ofInt (-1)
    rates := rates D window (prev.lookup e.1) e.2 }

structure Snapshot (F : Type) where
  rows : List (Row F)
  error : Bytes
  missed : UInt32
  sample_count : Nat
  interval_sec : F

/-- What the machine answers to one pass: the interval that is set, and the output
or the error of the two commands. -/
structure Pass (F : Type) where
  interval_sec : F
  stats : Except Bytes Bytes
  ls : Except Bytes Bytes

def contains (text part : Bytes) : Bool := (findSub? part text).isSome

/-- The listing is to be asked for. -/
def need_list (cached_list_json list_json : Bytes) (sample_count list_every : Nat) (now_map : Samples) : Bool :=
  let need := list_json = [] || sample_count % list_every = 0
  need || ((cached_list_json ≠ [] || need) && now_map.any fun e =>
    !contains cached_list_json (bytes "\"id\"") || !contains cached_list_json e.1)

/-- The listing after the pass, and the error to show. -/
def ask_list (need : Bool) (list_json : Bytes) (ls : Except Bytes Bytes) : Bytes × Bytes :=
  if need then
    match ls with
    | .ok text => (text, [])
    | .error message => (list_json, if list_json = [] then message ++ bytes " (ls)" else [])
  else (list_json, [])

def add_static (statics : List (Bytes × ContainerRow)) (e : Json) : Option (List (Bytes × ContainerRow)) := do
  let row ← apply_list_json {} e
  if row.name ≠ [] then return assign row.name row statics else return statics

def static_rows : Option Json → Option (List (Bytes × ContainerRow))
  | some (.arr entries) => entries.foldlM add_static []
  | _ => some []

/-- A container of the listing that stats does not name. -/
def add_stopped (now_map : Samples) (rows : List (Row F)) (e : Bytes × ContainerRow) : List (Row F) :=
  if (now_map.lookup e.1).isSome || rows.any fun row => row.name = e.1 then rows
  else
    let state := if e.2.state = bytes "running" then bytes "stopped?" else e.2.state
    rows ++ [({ e.2 with state } : ContainerRow).unsampled D]

/-- What `sample_once` leaves: the snapshot stored, `next` and the listing. -/
structure Sampled (F : Type) where
  snapshot : Snapshot F
  next : Samples
  list_json : Bytes

section
variable (parse : Bytes → Option Json)

/-- The rows already known stay when stats has nothing to say. -/
def missed_pass (stored : Snapshot F) (error : Bytes) (sample_count : Nat) (interval_sec : F) (next : Samples)
    (list_json : Bytes) : Sampled F :=
  ⟨⟨stored.rows, error, stored.missed + 1, sample_count, interval_sec⟩, next, list_json⟩

def listed_rows (list_json : Bytes) : Option (List (Bytes × ContainerRow)) :=
  if list_json = [] then some [] else static_rows (parse list_json)

/-- `none` when reading JSON throws. -/
def sample_once (prev next : Samples) (cached_list_json list_json : Bytes) (sample_count list_every : Nat)
    (stored : Snapshot F) (p : Pass F) : Option (Sampled F) :=
  match p.stats with
  | .error message => some (missed_pass stored message sample_count p.interval_sec next list_json)
  | .ok text => do
    let now_map ← parse_stats (parse text)
    -- no error is shown when there is nothing to sample
    if now_map = [] then return missed_pass stored [] sample_count p.interval_sec next list_json
    else
      let listed := ask_list (need_list cached_list_json list_json sample_count list_every now_map) list_json p.ls
      let statics ← listed_rows parse listed.1
      let rows := now_map.map (sample_row D (rate_window D p.interval_sec) statics prev)
      return {
        snapshot := ⟨statics.foldl (add_stopped D now_map) rows, listed.2, 0, sample_count, p.interval_sec⟩
        -- `next` is filled but not cleared
        next := now_map.foldl (fun m e => assign e.1 e.2 m) next
        list_json := listed.1 }

/-! ## The sampler -/

structure Sampler (F : Type) where
  prev : Samples
  next : Samples
  list_json : Bytes
  sample_count : Nat
  store : Snapshot F

def Sampler.start (stored : Snapshot F) : Sampler F := ⟨[], [], [], 0, stored⟩

/-- One round of the sampler thread; the maps are swapped whatever the pass did. -/
def sampler_round (s : Sampler F) (p : Pass F) : Option (Sampler F) := do
  let r ← sample_once D parse s.prev s.next [] s.list_json (s.sample_count + 1) 5 s.store p
  return ⟨r.next, s.prev, r.list_json, s.sample_count + 1, r.snapshot⟩

/-- The sampler after some passes; `none` when a pass has thrown. -/
def sampler_run (stored : Snapshot F) (passes : List (Pass F)) : Option (Sampler F) :=
  passes.foldlM (sampler_round D parse) (.start stored)

/-! ## What a pass leaves -/

/-- The counters a pass comes back with, none when it fails. -/
def counters (p : Pass F) : Samples :=
  match p.stats with
  | .error _ => []
  | .ok text => (parse_stats (parse text)).getD []

end

theorem add_sample_ascending {m m' : Samples} {e : Json} (hm : Ascending m) (h : add_sample m e = some m') : Ascending m' := by
  unfold add_sample at h
  split at h
  · obtain ⟨id, -, h⟩ := Option.bind_eq_some_iff.1 h
    split at h
    · exact Option.some.inj h ▸ hm
    · obtain ⟨r, -, h⟩ := Option.bind_eq_some_iff.1 h
      exact Option.some.inj h ▸ assign_ascending hm
  · exact Option.some.inj h ▸ hm

theorem parse_stats_ascending {j : Option Json} {m : Samples} (h : parse_stats j = some m) : Ascending m := by
  unfold parse_stats at h
  split at h
  · exact foldlM_some_inv Ascending .nil (fun m e _ m' hm hstep => add_sample_ascending hm hstep) h
  · exact Option.some.inj h ▸ .nil

theorem static_rows_name {j : Option Json} {statics : List (Bytes × ContainerRow)} (h : static_rows j = some statics) :
    ∀ e ∈ statics, e.2.name = e.1 := by
  have hstep (m : List (Bytes × ContainerRow)) (e : Json) (m' : List (Bytes × ContainerRow))
      (hm : ∀ e ∈ m, e.2.name = e.1) (h : add_static m e = some m') : ∀ e ∈ m', e.2.name = e.1 := by
    obtain ⟨row, -, h⟩ := Option.bind_eq_some_iff.1 h
    split at h
    · rw [← Option.some.inj h]
      intro x hx
      rcases mem_assign hx with rfl | hx
      · rfl
      · exact hm x hx
    · exact Option.some.inj h ▸ hm
  unfold static_rows at h
  split at h
  · exact foldlM_some_inv (fun m => ∀ e ∈ m, e.2.name = e.1) (fun _ he => absurd he List.not_mem_nil)
      (fun m e _ m' hm h => hstep m e m' hm h) h
  · rw [← Option.some.inj h]
    exact fun _ he => absurd he List.not_mem_nil

theorem listed_rows_name {parse : Bytes → Option Json} {list_json : Bytes} {statics : List (Bytes × ContainerRow)}
    (h : listed_rows parse list_json = some statics) : ∀ e ∈ statics, e.2.name = e.1 := by
  unfold listed_rows at h
  split at h
  · rw [← Option.some.inj h]
    exact fun _ he => absurd he List.not_mem_nil
  · exact static_rows_name h

/-- The row shows the counters of `now_map` over those of `before`. -/
def Over (window : F) (now_map : Samples) (before : Bytes → Option RawSample) (row : Row F) : Prop :=
  row.rates = match now_map.lookup row.name with
    | some raw => rates D window (before row.name) raw
    | none => .unknown D

/-- Only the baselines of the containers stats names matter. -/
theorem Over.congr {window : F} {now_map : Samples} {before before' : Bytes → Option RawSample}
    (hsame : ∀ e ∈ now_map, before e.1 = before' e.1) {row : Row F} (h : Over D window now_map before row) :
    Over D window now_map before' row := by
  unfold Over at h ⊢
  rw [h]
  cases hraw : now_map.lookup row.name with
  | none => rfl
  | some raw =>
    have hbefore : before row.name = before' row.name := hsame _ (mem_of_lookup hraw)
    dsimp only
    rw [hbefore]

theorem sample_row_name {window : F} {statics : List (Bytes × ContainerRow)} (hstatics : ∀ e ∈ statics, e.2.name = e.1)
    (prev : Samples) (e : Bytes × RawSample) : (sample_row D window statics prev e).name = e.1 := by
  unfold sample_row
  cases hs : statics.lookup e.1 with
  | none => rfl
  | some row =>
    have hrow := hstatics _ (mem_of_lookup hs)
    dsimp only
    split <;> exact hrow

theorem sample_row_over {window : F} {statics : List (Bytes × ContainerRow)} (hstatics : ∀ e ∈ statics, e.2.name = e.1)
    {now_map prev : Samples} (hnow : Ascending now_map) {e : Bytes × RawSample} (he : e ∈ now_map) :
    Over D window now_map (fun id => prev.lookup id) (sample_row D window statics prev e) := by
  unfold Over
  rw [sample_row_name D hstatics, lookup_of_mem hnow.nodup he]
  rfl

theorem add_stopped_over {window : F} {now_map : Samples} {before : Bytes → Option RawSample} {rows : List (Row F)}
    (hrows : ∀ row ∈ rows, Over D window now_map before row) {e : Bytes × ContainerRow} (he : e.2.name = e.1) :
    ∀ row ∈ add_stopped D now_map rows e, Over D window now_map before row := by
  unfold add_stopped
  split
  · exact hrows
  · rename_i hnew
    refine List.forall_mem_append.2 ⟨hrows, fun row hrow => ?_⟩
    obtain rfl := List.mem_singleton.1 hrow
    have hnone : now_map.lookup e.1 = none := by
      simp only [Bool.or_eq_true, not_or, Option.not_isSome_iff_eq_none] at hnew
      exact hnew.1
    unfold Over ContainerRow.unsampled
    rw [he, hnone]

variable {D} {parse : Bytes → Option Json}

/-- A pass adds its counters to `next`, and its rows are over `prev`. -/
theorem sample_once_some {prev next : Samples} {cached_list_json list_json : Bytes} {sample_count list_every : Nat}
    {stored : Snapshot F} {p : Pass F} {r : Sampled F}
    (h : sample_once D parse prev next cached_list_json list_json sample_count list_every stored p = some r) :
    (∀ id, r.next.lookup id = ((counters parse p).lookup id).or (next.lookup id)) ∧
    (counters parse p ≠ [] →
      ∀ row ∈ r.snapshot.rows, Over D (rate_window D p.interval_sec) (counters parse p) (fun id => prev.lookup id) row) := by
  unfold sample_once at h
  unfold counters
  cases hstats : p.stats with
  | error message =>
    rw [hstats] at h
    obtain rfl := Option.some.inj h
    exact ⟨fun _ => rfl, fun h => absurd rfl h⟩
  | ok text =>
    rw [hstats] at h
    obtain ⟨now_map, hnow, h⟩ := Option.bind_eq_some_iff.1 h
    have hascending := parse_stats_ascending hnow
    dsimp only
    rw [hnow, Option.getD_some]
    split at h
    · obtain rfl := Option.some.inj h
      subst_vars
      exact ⟨fun _ => rfl, fun h => absurd rfl h⟩
    · obtain ⟨statics, hstatics, h⟩ := Option.bind_eq_some_iff.1 h
      obtain rfl := Option.some.inj h
      have hnames := listed_rows_name hstatics
      refine ⟨lookup_foldl_assign hascending.nodup next, fun _ => ?_⟩
      refine foldl_inv (fun rows => ∀ row ∈ rows, Over D (rate_window D p.interval_sec) now_map (fun id => prev.lookup id) row) ?_ ?_
      · intro row hrow
        obtain ⟨e, he, rfl⟩ := List.mem_map.1 hrow
        exact sample_row_over D hnames hascending he
      · intro rows e he hrows
        exact add_stopped_over D hrows (hnames e he)

/-! ## Runs -/

section Runs
variable (parse : Bytes → Option Json) (pre : List (Pass F)) (id : Bytes)

/-- The counters of a container in the last of some passes. -/
def previous : Option RawSample := pre.getLast?.bind fun q => (counters parse q).lookup id

/-- The container had counters in the last pass, or had none in the one three
passes before this, nor in the one five before, and so on. -/
def Fresh : Prop :=
  previous parse pre id ≠ none ∨ ∀ i q, pre.reverse[2 * i]? = some q → (counters parse q).lookup id = none

/-- The latest counters in every other pass, the last pass first. -/
def every_other : List (Pass F) → Option RawSample
  | [] => none
  | [q] => (counters parse q).lookup id
  | q :: _ :: rest => ((counters parse q).lookup id).or (every_other rest)

variable {parse pre id}

theorem every_other_cons (q : Pass F) (l : List (Pass F)) :
    every_other parse id (q :: l) = ((counters parse q).lookup id).or (every_other parse id l.tail) := by
  cases l with
  | nil => exact (Option.or_none).symm
  | cons x l => rfl

theorem every_other_none (l : List (Pass F)) :
    every_other parse id l = none ↔ ∀ i q, l[2 * i]? = some q → (counters parse q).lookup id = none := by
  fun_induction every_other parse id l with
  | case1 => simp
  | case2 q =>
    refine ⟨fun h i x hx => ?_, fun h => h 0 q rfl⟩
    cases i with
    | zero => exact Option.some.inj hx ▸ h
    | succ i => simp [Nat.mul_add] at hx
  | case3 q x rest ih =>
    rw [Option.or_eq_none_iff, ih]
    constructor
    · rintro ⟨hq, hrest⟩ i y hy
      cases i with
      | zero => exact Option.some.inj hy ▸ hq
      | succ i => exact hrest i y (by simpa [Nat.mul_add] using hy)
    · exact fun h => ⟨h 0 q rfl, fun i y hy => h (i + 1) y (by simpa [Nat.mul_add] using hy)⟩

/-- What the baseline of a pass ought to be, and when it is. -/
theorem every_other_previous : every_other parse id pre.reverse = previous parse pre id ↔ Fresh parse pre id := by
  unfold Fresh
  rw [← every_other_none]
  rcases List.eq_nil_or_concat pre with rfl | ⟨before, q, rfl⟩
  · simp [every_other, previous]
  · have hlast : previous parse (before.concat q) id = (counters parse q).lookup id := by simp [previous]
    rw [hlast, List.concat_eq_append, List.reverse_append, List.reverse_singleton, List.singleton_append, every_other_cons]
    cases (counters parse q).lookup id with
    | none => simp
    | some raw => simp

theorem sampler_round_some {s s' : Sampler F} {p : Pass F} (h : sampler_round D parse s p = some s') :
    (∀ id, s'.prev.lookup id = ((counters parse p).lookup id).or (s.next.lookup id)) ∧ s'.next = s.prev ∧
    (counters parse p ≠ [] →
      ∀ row ∈ s'.store.rows, Over D (rate_window D p.interval_sec) (counters parse p) (fun id => s.prev.lookup id) row) := by
  obtain ⟨r, hr, h⟩ := Option.bind_eq_some_iff.1 h
  obtain rfl := Option.some.inj h
  obtain ⟨hnext, hrows⟩ := sample_once_some hr
  exact ⟨hnext, rfl, hrows⟩

/-- The two maps have the counters of every other pass. -/
theorem sampler_maps {stored : Snapshot F} {s : Sampler F} (h : sampler_run D parse stored pre = some s) (id : Bytes) :
    s.prev.lookup id = every_other parse id pre.reverse ∧ s.next.lookup id = every_other parse id pre.reverse.tail := by
  induction pre using List.reverseRecOn generalizing s with
  | nil =>
    obtain rfl := Option.some.inj h
    exact ⟨rfl, rfl⟩
  | append_singleton pre p ih =>
    obtain ⟨t, ht, hround⟩ := foldlM_concat.1 h
    obtain ⟨hprev, hnext, -⟩ := sampler_round_some hround
    obtain ⟨htprev, htnext⟩ := ih ht
    -- the swap: what was read is filled in the next pass, over what it had
    rw [List.reverse_append, List.reverse_singleton, List.singleton_append, every_other_cons, List.tail_cons, hprev id,
      hnext, htnext]
    exact ⟨rfl, htprev⟩

/-- A condition on every pass of a run and on those before it. -/
def EachPass (passes : List (Pass F)) (Q : List (Pass F) → Pass F → Prop) : Prop :=
  ∀ pre p post, passes = pre ++ p :: post → Q pre p

/-- Every pass that has counters shows them over the counters of the pass before,
and -1 for a container without any there. -/
def OverPrevious (D : Double F) (parse : Bytes → Option Json) (stored : Snapshot F) (passes : List (Pass F)) : Prop :=
  EachPass passes fun pre p => counters parse p ≠ [] → ∀ s, sampler_run D parse stored (pre ++ [p]) = some s →
    ∀ row ∈ s.store.rows, Over D (rate_window D p.interval_sec) (counters parse p) (previous parse pre) row

theorem sampler_run_prefix {stored : Snapshot F} {rest : List (Pass F)} {last : Sampler F}
    (h : sampler_run D parse stored (pre ++ rest) = some last) : ∃ s, sampler_run D parse stored pre = some s := by
  unfold sampler_run at h ⊢
  rw [List.foldlM_append] at h
  obtain ⟨s, hs, -⟩ := Option.bind_eq_some_iff.1 h
  exact ⟨s, hs⟩

/-- The map a pass reads has the counters of the pass before exactly for the
containers that are `Fresh`; when all are, all rates are right. -/
theorem rates_over_previous_iff {stored : Snapshot F} {passes : List (Pass F)} {last : Sampler F}
    (hrun : sampler_run D parse stored passes = some last) :
    ((EachPass passes fun pre p => ∀ s, sampler_run D parse stored pre = some s →
        ∀ e ∈ counters parse p, s.prev.lookup e.1 = previous parse pre e.1) ↔
      EachPass passes fun pre p => ∀ e ∈ counters parse p, Fresh parse pre e.1) ∧
    ((EachPass passes fun pre p => ∀ e ∈ counters parse p, Fresh parse pre e.1) →
      OverPrevious D parse stored passes) := by
  have hbaseline (pre : List (Pass F)) (s : Sampler F) (hs : sampler_run D parse stored pre = some s) (id : Bytes) :
      s.prev.lookup id = previous parse pre id ↔ Fresh parse pre id := by
    rw [(sampler_maps hs id).1, every_other_previous]
  refine ⟨⟨fun h pre p post hsplit e he => ?_, fun h pre p post hsplit s hs e he => ?_⟩,
    fun h pre p post hsplit hp s hs => ?_⟩
  · obtain ⟨s, hs⟩ := sampler_run_prefix (hsplit ▸ hrun)
    exact (hbaseline pre s hs e.1).1 (h pre p post hsplit s hs e he)
  · exact (hbaseline pre s hs e.1).2 (h pre p post hsplit e he)
  · obtain ⟨t, ht, hround⟩ := foldlM_concat.1 hs
    obtain ⟨-, -, hrows⟩ := sampler_round_some hround
    exact fun row hrow => (hrows hp row hrow).congr D fun e he => (hbaseline pre t ht e.1).2 (h pre p post hsplit e he)

end Runs

end

/-! ## A container that comes back -/

section Returning

/-- Exact arithmetic. -/
def exact_double : Double Rat where
  ofUInt64 n := n.toNat
  ofInt n := n
  twentieth := 1 / 20
  sub := (· - ·)
  mul := (· * ·)
  div := (· / ·)
  lt a b := a < b
  le a b := a ≤ b

/-- Stats of one container, whose counter is the byte of the text. -/
def one_container : Bytes → Option Json
  | [n] => some (.arr [.obj [(bytes "id", .str (bytes "db")), (bytes "cpuUsageUsec", .num n.toNat)]])
  | _ => none

def answered (n : UInt8) : Pass Rat := ⟨2, .ok [n], .error []⟩
def failed : Pass Rat := ⟨2, .error (bytes "timeout"), .error []⟩
def nothing_stored : Snapshot Rat := ⟨[], [], 0, 0, 2⟩

theorem rates_over_previous_iff_steady :
    (sampler_run exact_double one_container nothing_stored [answered 1, answered 3]).isSome ∧
    OverPrevious exact_double one_container nothing_stored [answered 1, answered 3] := by
  have hrun : (sampler_run exact_double one_container nothing_stored [answered 1, answered 3]).isSome := by decide +kernel
  have hsecond : ∀ e ∈ counters one_container (answered 3), previous one_container [answered 1] e.1 ≠ none := by
    decide +kernel
  refine ⟨hrun, (rates_over_previous_iff (Option.eq_some_of_isSome hrun)).2 fun pre p post hsplit e he => ?_⟩
  cases pre with
  | nil => exact .inr fun i q hq => absurd hq (by simp)
  | cons q pre =>
    obtain ⟨rfl, hrest⟩ := List.cons.inj hsplit
    obtain ⟨rfl, hlast⟩ | ⟨-, hnil⟩ := List.singleton_eq_append_iff.1 hrest
    · obtain ⟨rfl, -⟩ := List.cons.inj hlast
      exact .inl (hsecond e he)
    · cases hnil

/-- Two passes fail; the rates after them are over the counters before them. -/
theorem back_after_two :
    (sampler_run exact_double one_container nothing_stored [answered 1, failed, failed, answered 3]).isSome ∧
    ¬ OverPrevious exact_double one_container nothing_stored [answered 1, failed, failed, answered 3] := by
  have hrows : ¬ ∀ s ∈ sampler_run exact_double one_container nothing_stored [answered 1, failed, failed, answered 3],
      ∀ row ∈ s.store.rows, row.rates = .unknown exact_double := by decide +kernel
  refine ⟨by decide +kernel, fun h => hrows fun s hs row hrow => ?_⟩
  have hover := h [answered 1, failed, failed] (answered 3) [] rfl (by decide +kernel) s hs row hrow
  rw [hover]
  cases (counters one_container (answered 3)).lookup row.name with
  | none => rfl
  | some raw => rfl

end Returning

end Hostely.Top
