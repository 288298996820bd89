import Hostely.Top.Rates
import Mathlib.Tactic.NormNum
import Mathlib.Tactic.Positivity
/-!
# One row per container

A pass that comes back with counters shows each container that stats or the listing
names once. A rate is unknown or not negative, and unknown when there is nothing to
compare with or the counter went back.
-/

open Hostely.Lib

namespace Hostely.Top

/-! ## The listing -/

def is_number (j : Json) : Bool := j.ulong.isSome

def TextField (j : Json) (key : String) : Prop := j.Field (·.is_string = true) (bytes key)

def NumberField (j : Json) (key : String) : Prop := j.Field (is_number · = true) (bytes key)

def ListField (P : Json → Prop) (j : Json) (key : String) : Prop :=
  j.Field (fun v => ∃ items, v = .arr items ∧ ∀ i ∈ items, P i) (bytes key)

structure PublishedPort (p : Json) : Prop where
  hostPort : NumberField p "hostPort"
  containerPort : NumberField p "containerPort"
  proto : TextField p "proto"

structure Resources (res : Json) : Prop where
  cpuOverhead : NumberField res "cpuOverhead"
  cpus : NumberField res "cpus"
  memoryInBytes : NumberField res "memoryInBytes"

structure Status (status : Json) : Prop where
  state : TextField status "state"
  networks : ListField (TextField · "ipv4Address") status "networks"

structure Configuration (cfg : Json) : Prop where
  id : TextField cfg "id"
  image : cfg.Field (TextField · "reference") (bytes "image")
  publishedPorts : ListField PublishedPort cfg "publishedPorts"
  resources : cfg.Field Resources (bytes "resources")

/-- An element of the listing whose fields, where they are there, have the types
they are read at. -/
structure Entry (entry : Json) : Prop where
  id : TextField entry "id"
  configuration : entry.Field Configuration (bytes "configuration")
  status : entry.Field Status (bytes "status")

/-- The element is a container of that name, its id or that of its configuration. -/
def NamedBy (entry : Json) (name : Bytes) : Prop :=
  ∃ cfg, entry.value (bytes "configuration") (.obj []) = some cfg ∧ cfg.is_object = true ∧
    (entry.value_string (bytes "id") [] = some name ∨
      entry.value_string (bytes "id") [] = some [] ∧ cfg.value_string (bytes "id") [] = some name)

/-! ### Reading an element -/

theorem field_empty (P : Json → Prop) (key : Bytes) : (Json.obj []).Field P key := ⟨rfl, nofun⟩

theorem configuration_empty : Configuration (.obj []) :=
  ⟨field_empty _ _, field_empty _ _, field_empty _ _, field_empty _ _⟩

theorem status_empty : Status (.obj []) := ⟨field_empty _ _, field_empty _ _⟩

theorem resources_empty : Resources (.obj []) := ⟨field_empty _ _, field_empty _ _, field_empty _ _⟩

theorem bind_isSome {α β : Type} {x : Option α} {k : α → Option β} (hx : x.isSome = true) (hk : ∀ a, x = some a → (k a).isSome = true) :
    (x >>= k).isSome = true := by
  obtain ⟨a, rfl⟩ := Option.isSome_iff_exists.1 hx
  exact hk a rfl

/-- A field of a type is read. -/
theorem field_value {P : Json → Prop} {j dflt : Json} {key : Bytes} (h : j.Field P key) (hd : P dflt) :
    ∃ v, j.value key dflt = some v ∧ P v := (Json.field_iff hd).1 h

theorem text_value {j : Json} {key : String} (h : TextField j key) (dflt : Bytes) : (j.value_string (bytes key) dflt).isSome = true :=
  Json.value_string_isSome.2 h

theorem number_reads {j : Json} (h : is_number j = true) : j.unsigned.isSome = true ∧ j.int.isSome = true := by
  cases j with
  | num n | float text => exact ⟨rfl, rfl⟩
  | _ => cases h

theorem number_value {j : Json} {key : String} (h : NumberField j key) :
    (∀ dflt, (j.value_int (bytes key) dflt).isSome = true) ∧ (∀ dflt, (j.value_unsigned (bytes key) dflt).isSome = true) ∧
      ∀ dflt, (j.value_ulong (bytes key) dflt).isSome = true := by
  refine ⟨fun dflt => ?_, fun dflt => ?_, fun dflt => ?_⟩
  · obtain ⟨v, hv, hnum⟩ := @field_value (is_number · = true) j (.num dflt.toInt) _ h rfl
    exact bind_isSome (hv ▸ rfl) fun w hw => (number_reads (Option.some.inj (hv.symm.trans hw) ▸ hnum)).2
  · obtain ⟨v, hv, hnum⟩ := @field_value (is_number · = true) j (.num dflt.toNat) _ h rfl
    exact bind_isSome (hv ▸ rfl) fun w hw => (number_reads (Option.some.inj (hv.symm.trans hw) ▸ hnum)).1
  · obtain ⟨v, hv, hnum⟩ := @field_value (is_number · = true) j (.num dflt.toNat) _ h rfl
    exact bind_isSome (hv ▸ rfl) fun w hw => Option.some.inj (hv.symm.trans hw) ▸ hnum

section
variable {row row' : ContainerRow} {entry cfg : Json}

theorem apply_image_typed (h : Configuration cfg) : (apply_image row cfg).isSome = true := by
  obtain ⟨image, himage, hreference⟩ := field_value h.image (field_empty _ _)
  refine bind_isSome (himage ▸ rfl) fun v hv => ?_
  obtain rfl := Option.some.inj (himage.symm.trans hv)
  rw [if_pos hreference.1]
  exact bind_isSome (text_value hreference _) fun _ _ => rfl

theorem apply_name_typed (he : Entry entry) (h : Configuration cfg) : (apply_name row entry cfg).isSome = true := by
  refine bind_isSome (text_value he.id _) fun name _ => ?_
  split
  · exact bind_isSome (text_value h.id _) fun _ _ => rfl
  · rfl

theorem apply_status_typed (he : Entry entry) : (apply_status row entry).isSome = true := by
  obtain ⟨status, hstatus, htyped⟩ := field_value he.status status_empty
  refine bind_isSome (hstatus ▸ rfl) fun v hv => ?_
  obtain rfl := Option.some.inj (hstatus.symm.trans hv)
  rw [if_pos htyped.state.1]
  refine bind_isSome (text_value htyped.state _) fun state _ => ?_
  obtain ⟨nets, hnets, items, rfl, hitems⟩ := field_value htyped.networks ⟨[], rfl, fun _ h => absurd h List.not_mem_nil⟩
  refine bind_isSome (hnets ▸ rfl) fun v hv => ?_
  obtain rfl := Option.some.inj (hnets.symm.trans hv)
  unfold apply_networks
  split
  · rename_i net rest hcons
    obtain rfl := Json.arr.inj hcons
    exact bind_isSome (text_value (hitems _ List.mem_cons_self) _) fun _ _ => rfl
  · rfl

theorem apply_port_typed {out : Bytes} {p : Json} (h : PublishedPort p) : (apply_port out p).isSome = true := by
  unfold apply_port
  rw [if_pos h.proto.1]
  refine bind_isSome ((number_value h.hostPort).1 0) fun hp _ => ?_
  refine bind_isSome ((number_value h.containerPort).1 0) fun cp _ => ?_
  exact bind_isSome (text_value h.proto _) fun _ _ => rfl

theorem foldlM_typed {α β : Type} {f : β → α → Option β} {l : List α} (h : ∀ b, ∀ a ∈ l, (f b a).isSome = true) (b : β) :
    (l.foldlM f b).isSome = true := by
  induction l generalizing b with
  | nil => rfl
  | cons a l ih =>
    rw [List.foldlM_cons]
    exact bind_isSome (h b a List.mem_cons_self) fun b' _ => ih (fun b x hx => h b x (List.mem_cons_of_mem _ hx)) b'

theorem apply_ports_typed (h : Configuration cfg) : (apply_ports row cfg).isSome = true := by
  obtain ⟨ports, hports, items, rfl, hitems⟩ := field_value h.publishedPorts ⟨[], rfl, fun _ h => absurd h List.not_mem_nil⟩
  refine bind_isSome (hports ▸ rfl) fun v hv => ?_
  obtain rfl := Option.some.inj (hports.symm.trans hv)
  exact bind_isSome (foldlM_typed (fun out p hp => apply_port_typed (hitems p hp)) []) fun _ _ => rfl

theorem apply_resources_typed (h : Configuration cfg) : (apply_resources row cfg).isSome = true := by
  obtain ⟨res, hres, htyped⟩ := field_value h.resources resources_empty
  refine bind_isSome (hres ▸ rfl) fun v hv => ?_
  obtain rfl := Option.some.inj (hres.symm.trans hv)
  rw [if_pos htyped.cpus.1]
  refine bind_isSome ((number_value htyped.cpuOverhead).2.1 0) fun overhead _ => ?_
  refine bind_isSome ((number_value htyped.cpus).2.1 0) fun cpus _ => ?_
  exact bind_isSome ((number_value htyped.memoryInBytes).2.2 0) fun _ _ => rfl

theorem apply_list_json_typed (he : Entry entry) : (apply_list_json row entry).isSome = true := by
  obtain ⟨cfg, hcfg, htyped⟩ := field_value he.configuration configuration_empty
  unfold apply_list_json
  rw [if_pos he.id.1]
  refine bind_isSome (hcfg ▸ rfl) fun v hv => ?_
  obtain rfl := Option.some.inj (hcfg.symm.trans hv)
  rw [if_pos htyped.id.1]
  refine bind_isSome (apply_image_typed htyped) fun row1 _ => ?_
  refine bind_isSome (apply_name_typed he htyped) fun row2 _ => ?_
  refine bind_isSome (apply_status_typed he) fun row3 _ => ?_
  exact bind_isSome (apply_ports_typed htyped) fun row4 _ => apply_resources_typed htyped

/-- Only one name is read. -/
theorem read_name_iff {cfg : Json} {read name : Bytes}
    (hread : entry.value_string (bytes "id") [] = some read ∧ read ≠ [] ∨
      entry.value_string (bytes "id") [] = some [] ∧ cfg.value_string (bytes "id") [] = some read) (hne : name ≠ []) :
    read = name ↔ entry.value_string (bytes "id") [] = some name ∨
      entry.value_string (bytes "id") [] = some [] ∧ cfg.value_string (bytes "id") [] = some name := by
  constructor
  · rintro rfl
    exact hread.imp And.left id
  · intro hnamed
    rcases hread with ⟨hid, hid_ne⟩ | ⟨hid, hcfg_id⟩
    · rcases hnamed with hnamed | ⟨hnamed, -⟩
      · exact Option.some.inj (hid.symm.trans hnamed)
      · exact absurd (Option.some.inj (hid.symm.trans hnamed)) hid_ne
    · rcases hnamed with hnamed | ⟨-, hnamed⟩
      · exact absurd (Option.some.inj (hnamed.symm.trans hid)) hne
      · exact Option.some.inj (hcfg_id.symm.trans hnamed)

/-- The name that is read is the one of the element. -/
theorem apply_list_json_name (h : apply_list_json {} entry = some row) {name : Bytes} (hne : name ≠ []) :
    row.name = name ↔ NamedBy entry name := by
  unfold apply_list_json at h
  split at h
  · obtain ⟨cfg, hcfg, h⟩ := Option.bind_eq_some_iff.1 h
    split at h
    · rename_i hobject
      obtain ⟨row1, h1, h⟩ := Option.bind_eq_some_iff.1 h
      obtain ⟨row2, h2, h⟩ := Option.bind_eq_some_iff.1 h
      obtain ⟨row3, h3, h⟩ := Option.bind_eq_some_iff.1 h
      obtain ⟨row4, h4, h⟩ := Option.bind_eq_some_iff.1 h
      obtain ⟨image, rfl⟩ := apply_image_some h1
      obtain ⟨read, rfl, hread⟩ := apply_name_some h2
      obtain ⟨state, ip, rfl⟩ := apply_status_some h3
      obtain ⟨ports, rfl⟩ := apply_ports_some h4
      obtain ⟨cpus, mem_limit, rfl⟩ := apply_resources_some h
      constructor
      · rintro rfl
        exact ⟨cfg, hcfg, hobject, (read_name_iff hread hne).1 rfl⟩
      · rintro ⟨cfg', hcfg', -, hnamed⟩
        obtain rfl := Option.some.inj (hcfg.symm.trans hcfg')
        exact (read_name_iff hread hne).2 hnamed
    · rename_i hobject
      obtain rfl := Option.some.inj h
      refine iff_of_false (fun h => hne h.symm) ?_
      rintro ⟨cfg', hcfg', hobject', -⟩
      obtain rfl := Option.some.inj (hcfg.symm.trans hcfg')
      exact hobject hobject'
  · rename_i hobject
    obtain rfl := Option.some.inj h
    refine iff_of_false (fun h => hne h.symm) ?_
    rintro ⟨cfg, hcfg, -⟩
    cases entry with
    | obj fields => exact hobject rfl
    | _ => cases hcfg

end

/-! ### The names -/

/-- The listing has a container of that name. -/
def Lists (parse : Bytes → Option Json) (list_json name : Bytes) : Prop :=
  list_json ≠ [] ∧ name ≠ [] ∧ ∃ entries, parse list_json = some (.arr entries) ∧ ∃ entry ∈ entries, NamedBy entry name

theorem add_static_names {m m' : List (Bytes × ContainerRow)} {e : Json} (h : add_static m e = some m') (name : Bytes) :
    name ∈ m'.map Prod.fst ↔ name ∈ m.map Prod.fst ∨ name ≠ [] ∧ NamedBy e name := by
  obtain ⟨row, hrow, h⟩ := Option.bind_eq_some_iff.1 h
  split at h
  · rename_i hne
    rw [← Option.some.inj h, keys_assign, or_comm]
    refine or_congr_right ⟨?_, fun ⟨hname, hnamed⟩ => ((apply_list_json_name hrow hname).2 hnamed).symm⟩
    rintro rfl
    exact ⟨hne, (apply_list_json_name hrow hne).1 rfl⟩
  · rename_i hempty
    rw [← Option.some.inj h]
    refine (or_iff_left ?_).symm
    rintro ⟨hname, hnamed⟩
    exact hname (((apply_list_json_name hrow hname).2 hnamed).symm.trans (not_not.1 hempty))

theorem foldlM_static_names {entries : List Json} {m m' : List (Bytes × ContainerRow)} (h : entries.foldlM add_static m = some m')
    (name : Bytes) : name ∈ m'.map Prod.fst ↔ name ∈ m.map Prod.fst ∨ name ≠ [] ∧ ∃ entry ∈ entries, NamedBy entry name := by
  induction entries generalizing m with
  | nil =>
    obtain rfl := Option.some.inj h
    simp
  | cons e entries ih =>
    rw [List.foldlM_cons] at h
    obtain ⟨m1, h1, h⟩ := Option.bind_eq_some_iff.1 h
    rw [ih h, add_static_names h1, List.exists_mem_cons_iff, or_assoc, ← and_or_left]

theorem add_static_ascending {m m' : List (Bytes × ContainerRow)} {e : Json} (hm : Ascending m) (h : add_static m e = some m') :
    Ascending m' := by
  obtain ⟨row, -, h⟩ := Option.bind_eq_some_iff.1 h
  split at h
  · exact Option.some.inj h ▸ assign_ascending hm
  · exact Option.some.inj h ▸ hm

section
variable {parse : Bytes → Option Json} {list_json : Bytes} {statics : List (Bytes × ContainerRow)}

theorem listed_rows_ascending (h : listed_rows parse list_json = some statics) : Ascending statics := by
  unfold listed_rows static_rows at h
  split at h
  · exact Option.some.inj h ▸ .nil
  · split at h
    · exact foldlM_some_inv Ascending .nil (fun m e _ m' hm hstep => add_static_ascending hm hstep) h
    · exact Option.some.inj h ▸ .nil

theorem listed_rows_keys (h : listed_rows parse list_json = some statics) (name : Bytes) :
    name ∈ statics.map Prod.fst ↔ Lists parse list_json name := by
  unfold listed_rows static_rows at h
  unfold Lists
  split at h
  · rename_i hempty
    rw [← Option.some.inj h]
    simp [hempty]
  · rename_i hne
    rw [and_iff_right hne]
    split at h
    · rename_i entries hparse
      rw [foldlM_static_names h, hparse]
      simp
    · rename_i hother
      rw [← Option.some.inj h]
      refine iff_of_false List.not_mem_nil ?_
      rintro ⟨-, entries, hparse, -⟩
      exact hother entries hparse

theorem listed_rows_typed (h : ∀ entries, parse list_json = some (.arr entries) → ∀ e ∈ entries, Entry e) :
    (listed_rows parse list_json).isSome = true := by
  unfold listed_rows static_rows
  split
  · rfl
  · split
    · rename_i entries hparse
      refine foldlM_typed (fun m e he => bind_isSome (apply_list_json_typed (h entries hparse e he)) fun row _ => ?_) []
      split <;> rfl
    · rfl

end

/-! ## The join -/

section
variable {F : Type} {D : Double F} {now_map : Samples}

/-- A container of the listing gets a row when it has none. -/
theorem add_stopped_names {rows : List (Row F)} {e : Bytes × ContainerRow} (hname : e.2.name = e.1)
    (hrows : ∀ k ∈ now_map.map Prod.fst, k ∈ rows.map (·.name)) :
    (add_stopped D now_map rows e).map (·.name) =
      if e.1 ∈ rows.map (·.name) then rows.map (·.name) else rows.map (·.name) ++ [e.1] := by
  have hshown : ((now_map.lookup e.1).isSome || rows.any fun row => row.name = e.1) = true ↔ e.1 ∈ rows.map (·.name) := by
    have hany : (rows.any fun row => row.name = e.1) = true ↔ e.1 ∈ rows.map (·.name) := by simp
    rw [Bool.or_eq_true, hany, or_iff_right_iff_imp]
    intro hsome
    obtain ⟨raw, hraw⟩ := Option.isSome_iff_exists.1 hsome
    exact hrows _ (List.mem_map_of_mem (mem_of_lookup hraw))
  unfold add_stopped
  by_cases h : e.1 ∈ rows.map (·.name)
  · rw [if_pos (hshown.2 h), if_pos h]
  · rw [if_neg (mt hshown.1 h), if_neg h, List.map_append, List.map_singleton]
    exact congrArg (fun name => rows.map (·.name) ++ [name]) hname

theorem stopped_names {statics : List (Bytes × ContainerRow)} (hnames : ∀ e ∈ statics, e.2.name = e.1) {rows : List (Row F)}
    (hrows : ∀ k ∈ now_map.map Prod.fst, k ∈ rows.map (·.name)) (hnodup : (rows.map (·.name)).Nodup) :
    ((statics.foldl (add_stopped D now_map) rows).map (·.name)).Nodup ∧
      ∀ name, name ∈ (statics.foldl (add_stopped D now_map) rows).map (·.name) ↔
        name ∈ rows.map (·.name) ∨ name ∈ statics.map Prod.fst := by
  induction statics generalizing rows with
  | nil => exact ⟨hnodup, by simp⟩
  | cons e statics ih =>
    obtain ⟨hname, hnames⟩ := List.forall_mem_cons.1 hnames
    have hstep := @add_stopped_names F D now_map rows e hname hrows
    have hmem (name : Bytes) : name ∈ (add_stopped D now_map rows e).map (·.name) ↔ name ∈ rows.map (·.name) ∨ name = e.1 := by
      rw [hstep]
      split
      · rename_i h
        exact (or_iff_left_of_imp fun heq => heq ▸ h).symm
      · simp
    have hnext : ((add_stopped D now_map rows e).map (·.name)).Nodup := by
      rw [hstep]
      split
      · exact hnodup
      · rename_i h
        exact List.nodup_append'.2 ⟨hnodup, List.nodup_singleton _, by simpa using h⟩
    obtain ⟨hnodup', hmem'⟩ := ih hnames (fun k hk => (hmem k).2 (.inl (hrows k hk))) hnext
    refine ⟨hnodup', fun name => ?_⟩
    rw [List.foldl_cons, hmem', hmem, List.map_cons, List.mem_cons, or_assoc]

end

/-! ## Rates -/

/-- The counters that have a rate. -/
inductive Counter
  | cpu | net_rx | net_tx | blk_rd | blk_wr
deriving DecidableEq

def RawSample.counter (raw : RawSample) : Counter → UInt64
  | .cpu => raw.cpu_usec
  | .net_rx => raw.net_rx
  | .net_tx => raw.net_tx
  | .blk_rd => raw.blk_rd
  | .blk_wr => raw.blk_wr

def Rates.rate {F : Type} (r : Rates F) : Counter → F
  | .cpu => r.cpu_pct
  | .net_rx => r.net_rx_bps
  | .net_tx => r.net_tx_bps
  | .blk_rd => r.blk_rd_bps
  | .blk_wr => r.blk_wr_bps

/-- A rate is unknown or not negative; it is unknown without counters to compare with
and when the counter went back. -/
structure SoundRate (prev now_map : Samples) (c : Counter) (row : Row Rat) : Prop where
  sign : row.rates.rate c = -1 ∨ 0 ≤ row.rates.rate c
  first : prev.lookup row.name = none → row.rates.rate c = -1
  reset : ∀ before raw, prev.lookup row.name = some before → now_map.lookup row.name = some raw →
    raw.counter c < before.counter c → row.rates.rate c = -1

theorem unknown_rate (c : Counter) : (Rates.unknown exact_double).rate c = -1 := by cases c <;> rfl

theorem rate_window_pos (interval_sec : Rat) : 0 < rate_window exact_double interval_sec := by
  unfold rate_window
  split
  · rename_i h
    have hlt : (1 / 20 : Rat) < interval_sec := of_decide_eq_true h
    exact lt_trans (by norm_num) hlt
  · exact (by norm_num : (0 : Rat) < 2)

theorem exact_zero : exact_double.ofInt 0 = 0 := Int.cast_zero

theorem delta_nonneg {now before : UInt64} : exact_double.le (exact_double.ofInt 0) (delta exact_double now before) = true ↔ before ≤ now := by
  have hcast : ((0 : Int) : Rat) ≤ (now.toNat : Rat) - before.toNat ↔ before.toNat ≤ now.toNat := by
    rw [Int.cast_zero, sub_nonneg, Nat.cast_le]
  exact decide_eq_true_iff.trans (hcast.trans UInt64.le_iff_toNat_le.symm)

section
variable {window : Rat} {now before : UInt64}

/-- A counter that did not go back has a rate, or one that is too large to be true. -/
theorem cpu_rate_sign (hwindow : 0 < window) :
    cpu_rate exact_double window now before = -1 ∨ 0 ≤ cpu_rate exact_double window now before := by
  unfold cpu_rate
  split
  · rename_i h
    have hdelta : 0 ≤ delta exact_double now before := exact_zero ▸ of_decide_eq_true h
    dsimp only
    split
    · exact .inl rfl
    · refine .inr ?_
      change 0 ≤ delta exact_double now before / (window * ((1000000 : Int) : Rat)) * ((100 : Int) : Rat)
      positivity
  · exact .inl rfl

theorem rate_sign (hwindow : 0 < window) : rate exact_double window now before = -1 ∨ 0 ≤ rate exact_double window now before := by
  unfold rate
  split
  · rename_i h
    have hdelta : 0 ≤ delta exact_double now before := exact_zero ▸ of_decide_eq_true h
    exact .inr (div_nonneg hdelta hwindow.le)
  · exact .inl rfl

theorem rate_reset (h : now < before) : rate exact_double window now before = -1 ∧ cpu_rate exact_double window now before = -1 := by
  have hback : ¬ exact_double.le (exact_double.ofInt 0) (delta exact_double now before) = true :=
    fun hle => absurd (delta_nonneg.1 hle) (UInt64.not_le.2 h)
  exact ⟨if_neg hback, if_neg hback⟩

end

/-- The rate of one counter over an earlier value of it. -/
theorem rates_counter {window : Rat} (hwindow : 0 < window) (before raw : RawSample) (c : Counter) :
    ((rates exact_double window (some before) raw).rate c = -1 ∨ 0 ≤ (rates exact_double window (some before) raw).rate c) ∧
      (raw.counter c < before.counter c → (rates exact_double window (some before) raw).rate c = -1) := by
  unfold rates
  dsimp only
  split
  · cases c with
    | cpu => exact ⟨cpu_rate_sign hwindow, fun h => (rate_reset h).2⟩
    | net_rx | net_tx | blk_rd | blk_wr => exact ⟨rate_sign hwindow, fun h => (rate_reset h).1⟩
  · exact ⟨.inl (unknown_rate c), fun _ => unknown_rate c⟩

theorem Over.sound {window : Rat} (hwindow : 0 < window) {prev now_map : Samples} {row : Row Rat}
    (h : Over exact_double window now_map (fun id => prev.lookup id) row) (c : Counter) : SoundRate prev now_map c row := by
  unfold Over at h
  cases hraw : now_map.lookup row.name with
  | none =>
    rw [hraw] at h
    rw [hraw] at *
    have hunknown : row.rates.rate c = -1 := h ▸ unknown_rate c
    exact ⟨.inl hunknown, fun _ => hunknown, fun _ _ _ _ _ => hunknown⟩
  | some raw =>
    rw [hraw] at h
    dsimp only at h
    cases hbefore : prev.lookup row.name with
    | none =>
      rw [hbefore] at h
      have hunknown : row.rates.rate c = -1 := h ▸ unknown_rate c
      exact ⟨.inl hunknown, fun _ => hunknown, fun _ _ _ _ _ => hunknown⟩
    | some before =>
      rw [hbefore] at h
      obtain ⟨hsign, hreset⟩ := rates_counter hwindow before raw c
      rw [← h] at hsign hreset
      refine ⟨hsign, fun hnone => ?_, fun before' raw' hbefore' hraw' => ?_⟩
      · cases hbefore.symm.trans hnone
      · obtain rfl := Option.some.inj (hbefore.symm.trans hbefore')
        obtain rfl := Option.some.inj (hraw.symm.trans hraw')
        exact hreset

/-! ## A pass -/

/-- What a pass leaves when stats comes back with the counters of `now_map`. -/
structure SoundPass (parse : Bytes → Option Json) (prev now_map : Samples) (r : Sampled Rat) : Prop where
  distinct : (r.snapshot.rows.map (·.name)).Nodup
  names : ∀ name, name ∈ r.snapshot.rows.map (·.name) ↔ name ∈ now_map.map Prod.fst ∨ Lists parse r.list_json name
  rates : ∀ row ∈ r.snapshot.rows, ∀ c, SoundRate prev now_map c row
  next : ∀ e ∈ now_map, r.next.lookup e.1 = some e.2

section
variable {parse : Bytes → Option Json} {prev next : Samples} {cached_list_json list_json : Bytes} {sample_count list_every : Nat}
  {stored : Snapshot Rat} {p : Pass Rat} {text : Bytes} {now_map : Samples}

theorem sample_once_sound (hstats : p.stats = .ok text) (hnow : parse_stats (parse text) = some now_map) (hne : now_map ≠ [])
    {r : Sampled Rat} (h : sample_once exact_double parse prev next cached_list_json list_json sample_count list_every stored p = some r) :
    SoundPass parse prev now_map r := by
  have hcounters : counters parse p = now_map := by
    unfold counters
    rw [hstats]
    exact congrArg (Option.getD · []) hnow
  have hascending := parse_stats_ascending hnow
  obtain ⟨hnext, hover⟩ := sample_once_some h
  rw [hcounters] at hnext hover
  unfold sample_once at h
  rw [hstats] at h
  obtain ⟨now_map', hnow', h⟩ := Option.bind_eq_some_iff.1 h
  obtain rfl := Option.some.inj (hnow.symm.trans hnow')
  rw [if_neg hne] at h
  obtain ⟨statics, hstatics, h⟩ := Option.bind_eq_some_iff.1 h
  obtain rfl := Option.some.inj h
  have hlisted := listed_rows_name hstatics
  have hsampled : (now_map.map (sample_row exact_double (rate_window exact_double p.interval_sec) statics prev)).map (·.name) =
      now_map.map Prod.fst := by
    rw [List.map_map]
    exact List.map_congr_left fun e _ => sample_row_name exact_double hlisted prev e
  obtain ⟨hdistinct, hnames⟩ := @stopped_names Rat exact_double now_map statics hlisted _ (fun k hk => hsampled ▸ hk)
    (hsampled ▸ hascending.nodup)
  refine ⟨hdistinct, fun name => ?_, fun row hrow c => ?_, fun e he => ?_⟩
  · rw [hnames, hsampled, listed_rows_keys hstatics]
  · exact (hover hne row hrow).sound (rate_window_pos p.interval_sec) c
  · rw [hnext, lookup_of_mem hascending.nodup he]
    rfl

/-- A pass with counters and a listing whose fields have their types is stored: each
container of either is shown once, every rate is sound and `next` has the counters. -/
theorem one_row_each (hstats : p.stats = .ok text) (hnow : parse_stats (parse text) = some now_map) (hne : now_map ≠ [])
    (htyped : ∀ entries,
      parse (ask_list (need_list cached_list_json list_json sample_count list_every now_map) list_json p.ls).1 = some (.arr entries) →
      ∀ e ∈ entries, Entry e) :
    ∃ r, sample_once exact_double parse prev next cached_list_json list_json sample_count list_every stored p = some r ∧
      r.list_json = (ask_list (need_list cached_list_json list_json sample_count list_every now_map) list_json p.ls).1 ∧
      SoundPass parse prev now_map r := by
  obtain ⟨statics, hstatics⟩ := Option.isSome_iff_exists.1 (listed_rows_typed htyped)
  obtain ⟨r, hr, hlist_json⟩ : ∃ r,
      sample_once exact_double parse prev next cached_list_json list_json sample_count list_every stored p = some r ∧
      r.list_json = (ask_list (need_list cached_list_json list_json sample_count list_every now_map) list_json p.ls).1 := by
    unfold sample_once
    simp only [hstats, hnow, Option.bind_eq_bind, Option.bind_some, if_neg hne, hstatics]
    exact ⟨_, rfl, rfl⟩
  exact ⟨r, hr, hlist_json, sample_once_sound hstats hnow hne hr⟩

end

/-- One container in the stats and another in the listing. -/
def two_containers : Bytes → Option Json
  | [0] => some (.arr [.obj [(bytes "id", .str (bytes "web"))]])
  | text => one_container text

theorem one_row_each_two : ∃ r, sample_once exact_double two_containers [] [] [] [] 1 5 nothing_stored ⟨2, .ok [1], .ok [0]⟩ = some r ∧
    r.list_json = [0] ∧ SoundPass two_containers [] [(bytes "db", { cpu_usec := 1 })] r := by
  refine one_row_each (p := ⟨2, .ok [1], .ok [0]⟩) rfl (by decide +kernel) (List.cons_ne_nil _ _) fun entries hentries e he => ?_
  have hlisting : entries = [.obj [(bytes "id", .str (bytes "web"))]] := (Json.arr.inj (Option.some.inj hentries)).symm
  rw [hlisting] at he
  obtain rfl := List.mem_singleton.1 he
  refine ⟨⟨rfl, fun v hv => ?_⟩, ⟨rfl, fun v hv => ?_⟩, ⟨rfl, fun v hv => ?_⟩⟩
  · obtain rfl := Option.some.inj hv
    rfl
  · cases hv
  · cases hv

end Hostely.Top
