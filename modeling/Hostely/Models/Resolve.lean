import Hostely.Models.Integrity
/-!
# Models by name

A model is found by the path of its file, by its whole stem, or by a beginning of
the stem that no other model has, whatever the case of its letters. `models rm`
removes what is found, and `serve` loads it.
-/

open Hostely.Lib

namespace Hostely.Models

/-! ## resolve -/

/-- `path.stem()` -/
def path_stem (path : Bytes) : Bytes :=
  let name := filename path
  if name ≠ bytes ".." ∧ 46 ∈ name ∧ beforeLast 46 name ≠ [] then beforeLast 46 name else name

/-- What the file system makes of a path; `weakly_canonical` may fail. -/
structure FileSystem where
  absolute : Bytes → Bytes
  weakly_canonical : Bytes → Option Bytes

def FileSystem.canon (w : FileSystem) (path : Bytes) : Bytes := (w.weakly_canonical path).getD (w.absolute path)

def lc (s : Bytes) : Bytes := s.map tolower

/-- The stem begins with the name, in any case. -/
def begins (name : Bytes) (m : Manifest) : Bool := (lc name).isPrefixOf (lc (path_stem m.manifest_path))

def file_not_found (path : Bytes) : Bytes := bytes "model file not found: " ++ path

def no_match (name : Bytes) : Bytes :=
  bytes "no model in registry matches '" ++ name ++ bytes "'.\n  Try `hostely models list` or pass an absolute .gguf path."

def ambiguous (name : Bytes) (hits : Nat) : Bytes :=
  bytes "'" ++ name ++ bytes "' is ambiguous; matches " ++ to_string hits ++ bytes " models. Be more specific."

/-- A manifest for a file that is in no registry. -/
def Manifest.bare (path name : Bytes) (file : File) : Manifest where
  path := path
  manifest_path := []
  source := []
  repo := []
  quant := []
  filename := Models.filename name
  size_bytes := UInt64.ofNat file.text.length
  license := []
  pulled_at := []

section
variable (w : FileSystem) (dir : Bytes) (files : Files)

def resolve (name : Bytes) : Except Bytes Manifest :=
  if 47 ∈ name then
    match files.lookup (w.absolute name) with
    | none => .error (file_not_found name)
    | some file =>
      match (list dir files).find? fun m => m.path ≠ [] && w.canon m.path = w.canon name with
      | some m => .ok m
      | none => .ok (Manifest.bare (w.absolute name) name file)
  else
    match (list dir files).find? fun m => path_stem m.manifest_path = name with
    | some m => .ok m
    | none =>
      match (list dir files).filter (begins name) with
      | [m] => .ok m
      | [] => .error (no_match name)
      | hits => .error (ambiguous name hits.length)

/-- `run_models` with `rm`; a file that `stuck` says of stays. -/
def models_rm (stuck : Bytes → Bool) (name : Bytes) : Files × Except Bytes Unit :=
  match resolve w dir files name with
  | .error what => (files, .error what)
  | .ok m =>
    let erase (path : Bytes) (files : Files) : Files := if path = [] || stuck path then files else remove path files
    (erase m.path (erase m.manifest_path files), .ok ())

/-- The file that `run_serve` loads. -/
def serve_path (operand : Bytes) : Except Bytes Bytes :=
  if (files.lookup (w.absolute operand)).isSome then .ok operand
  else match resolve w dir files operand with
    | .ok m => if m.path ≠ [] then .ok m.path else .error (file_not_found operand)
    | .error _ => .error (file_not_found operand)

end

/-! ## Stems -/

section
variable {dir : Directory} {files : Files} {m m' : Manifest} {path : Bytes}

theorem filename_plain (path : Bytes) (h : 47 ∈ path) : 47 ∉ filename path := (around_last h).2

/-- A sidecar lies in the directory under its stem. -/
theorem sidecar_path (h : is_sidecar dir.path path = true) :
    path = dir.path ++ 47 :: (path_stem path ++ bytes ".toml") ∧ 47 ∉ path_stem path := by
  obtain ⟨hparent, htoml⟩ := Bool.and_eq_true_iff.1 h
  have hparent := of_decide_eq_true hparent
  have htoml := of_decide_eq_true htoml
  have hslash : 47 ∈ path := by
    by_contra hno
    rw [parent_path, beforeLast_none hno] at hparent
    exact hno (hparent ▸ List.mem_of_mem_head? dir.absolute)
  obtain ⟨hpath, hname⟩ := around_last hslash
  -- the extension is that of the name, so the name is the stem with it
  have hstem : filename path = path_stem path ++ bytes ".toml" := by
    unfold extension at htoml
    dsimp only at htoml
    by_cases hdot : filename path ≠ bytes ".." ∧ 46 ∈ filename path ∧ beforeLast 46 (filename path) ≠ []
    · rw [if_pos hdot] at htoml
      obtain ⟨hcut, -⟩ := around_last hdot.2.1
      rw [path_stem, if_pos hdot, ← htoml]
      exact hcut
    · rw [if_neg hdot] at htoml
      exact absurd htoml (by decide)
  refine ⟨?_, fun hmem => hname ?_⟩
  · have hbefore : beforeLast 47 path = dir.path := hparent
    rw [← hstem, ← hbefore]
    exact hpath
  · show 47 ∈ filename path
    rw [hstem]
    exact List.mem_append_left _ hmem

theorem read_manifest_path {files : Files} {path : Bytes} {m : Manifest} (h : read_manifest files path = some m) :
    m.manifest_path = path := by
  obtain ⟨file, -, h⟩ := Option.bind_eq_some_iff.1 h
  obtain ⟨t, -, h⟩ := Option.bind_eq_some_iff.1 h
  exact Option.some.inj h ▸ rfl

theorem mem_list_iff {dir : Bytes} : m ∈ list dir files ↔
    is_sidecar dir m.manifest_path = true ∧ read_manifest files m.manifest_path = some m := by
  constructor
  · intro h
    obtain ⟨path, hparent, htoml, hread⟩ := mem_list h
    rw [read_manifest_path hread]
    exact ⟨by simp [is_sidecar, hparent, htoml], hread⟩
  · rintro ⟨hsidecar, hread⟩
    obtain ⟨file, -, hfile, -⟩ := read_manifest_some hread
    exact List.mem_mergeSort.2 (List.mem_filterMap.2
      ⟨(m.manifest_path, file), List.mem_filter.2 ⟨mem_of_lookup hfile, hsidecar⟩, hread⟩)

/-- No two models have one stem. -/
theorem stem_unique (h : m ∈ list dir.path files) (h' : m' ∈ list dir.path files)
    (hstem : path_stem m.manifest_path = path_stem m'.manifest_path) : m = m' := by
  obtain ⟨hsidecar, hread⟩ := mem_list_iff.1 h
  obtain ⟨hsidecar', hread'⟩ := mem_list_iff.1 h'
  have hpath : m.manifest_path = m'.manifest_path := by
    rw [(sidecar_path hsidecar).1, (sidecar_path hsidecar').1, hstem]
  rw [hpath] at hread
  exact Option.some.inj (hread.symm.trans hread')

theorem list_nodup {dir : Bytes} (hkeys : (files.map Prod.fst).Nodup) : (list dir files).Nodup := by
  refine List.nodup_mergeSort.2 ?_
  have hfiles : (files.filter fun e => is_sidecar dir e.1).Pairwise fun e e' => e.1 ≠ e'.1 :=
    (List.pairwise_map.1 hkeys).filter _
  refine List.pairwise_filterMap.2 (hfiles.imp fun hne m hm m' hm' heq => hne ?_)
  rw [← read_manifest_path hm, ← read_manifest_path hm', heq]

end

/-! ## What a name resolves to -/

section
variable {w : FileSystem} {dir : Directory} {files : Files} {name : Bytes} {m m' : Manifest}

theorem begins_stem (m : Manifest) : begins (path_stem m.manifest_path) m = true :=
  List.isPrefixOf_iff_prefix.2 List.prefix_rfl

theorem resolve_exact (hm : m ∈ list dir.path files) : resolve w dir.path files (path_stem m.manifest_path) = .ok m := by
  have hfind : (list dir.path files).find? (fun m' => path_stem m'.manifest_path = path_stem m.manifest_path) = some m := by
    have hsome : ((list dir.path files).find? fun m' => path_stem m'.manifest_path = path_stem m.manifest_path).isSome = true :=
      List.find?_isSome.2 ⟨m, hm, by simp⟩
    obtain ⟨m', hm'⟩ := Option.isSome_iff_exists.1 hsome
    have hstem : path_stem m'.manifest_path = path_stem m.manifest_path := by simpa using List.find?_some hm'
    rwa [stem_unique (List.mem_of_find?_eq_some hm') hm hstem] at hm'
  unfold resolve
  rw [if_neg (sidecar_path (mem_list_iff.1 hm).1).2, hfind]

theorem resolve_inexact (h : 47 ∉ name) (hnone : ∀ m ∈ list dir.path files, path_stem m.manifest_path ≠ name) :
    resolve w dir.path files name = match (list dir.path files).filter (begins name) with
      | [m] => .ok m
      | [] => .error (no_match name)
      | hits => .error (ambiguous name hits.length) := by
  have hfind : (list dir.path files).find? (fun m => path_stem m.manifest_path = name) = none :=
    List.find?_eq_none.2 fun m hm heq => hnone m hm (of_decide_eq_true heq)
  unfold resolve
  rw [if_neg h, hfind]

theorem resolve_listed (h : 47 ∉ name) (hm : resolve w dir.path files name = .ok m) : m ∈ list dir.path files := by
  by_cases hexact : ∃ m' ∈ list dir.path files, path_stem m'.manifest_path = name
  · obtain ⟨m', hm', rfl⟩ := hexact
    rw [resolve_exact hm'] at hm
    exact Except.ok.inj hm ▸ hm'
  · rw [resolve_inexact h fun m' hm' heq => hexact ⟨m', hm', heq⟩] at hm
    split at hm
    · rename_i m' hm'
      have hmem : m' ∈ (list dir.path files).filter (begins name) := hm' ▸ List.mem_singleton_self m'
      exact Except.ok.inj hm ▸ (List.mem_filter.1 hmem).1
    · cases hm
    · cases hm

/-- The only model that begins so. -/
theorem filter_begins_iff (hkeys : (files.map Prod.fst).Nodup) : (list dir.path files).filter (begins name) = [m] ↔
    m ∈ list dir.path files ∧ begins name m = true ∧ ∀ m' ∈ list dir.path files, begins name m' = true → m' = m := by
  constructor
  · intro h
    have hmem {m' : Manifest} : m' ∈ list dir.path files ∧ begins name m' = true ↔ m' = m := by
      rw [← List.mem_filter, h, List.mem_singleton]
    obtain ⟨hm, hbegins⟩ := hmem.2 rfl
    exact ⟨hm, hbegins, fun m' hm' hb => hmem.1 ⟨hm', hb⟩⟩
  · rintro ⟨hm, hbegins, hunique⟩
    refine List.perm_singleton.1 ((List.perm_ext_iff_of_nodup ((list_nodup hkeys).filter _) (List.nodup_singleton m)).2 fun m' => ?_)
    rw [List.mem_filter, List.mem_singleton]
    constructor
    · exact fun h => hunique m' h.1 h.2
    · rintro rfl
      exact ⟨hm, hbegins⟩

theorem resolve_ok_iff (hkeys : (files.map Prod.fst).Nodup) (h : 47 ∉ name) : resolve w dir.path files name = .ok m ↔
    m ∈ list dir.path files ∧ (path_stem m.manifest_path = name ∨
      (∀ m' ∈ list dir.path files, path_stem m'.manifest_path ≠ name) ∧ begins name m = true ∧
        ∀ m' ∈ list dir.path files, begins name m' = true → m' = m) := by
  by_cases hexact : ∃ m' ∈ list dir.path files, path_stem m'.manifest_path = name
  · obtain ⟨m', hm', rfl⟩ := hexact
    rw [resolve_exact hm']
    constructor
    · intro heq
      obtain rfl := Except.ok.inj heq
      exact ⟨hm', .inl rfl⟩
    · rintro ⟨hm, hstem | ⟨hnone, -⟩⟩
      · rw [stem_unique hm' hm hstem.symm]
      · exact absurd rfl (hnone m' hm')
  · have hnone : ∀ m' ∈ list dir.path files, path_stem m'.manifest_path ≠ name := fun m' hm' heq => hexact ⟨m', hm', heq⟩
    have hhits : resolve w dir.path files name = .ok m ↔ (list dir.path files).filter (begins name) = [m] := by
      rw [resolve_inexact h hnone]
      split
      · rename_i m' hm'
        rw [hm']
        simp
      · rename_i hempty
        rw [hempty]
        simp
      · rename_i hmany hne
        exact ⟨fun heq => (by cases heq), fun heq => absurd heq (hmany m)⟩
    rw [hhits, filter_begins_iff hkeys]
    constructor
    · rintro ⟨hm, hbegins⟩
      exact ⟨hm, .inr ⟨hnone, hbegins⟩⟩
    · rintro ⟨hm, hstem | ⟨-, hbegins⟩⟩
      · exact absurd hstem (hnone m hm)
      · exact ⟨hm, hbegins⟩

/-- What is said of a name that stands for no model, or for several. -/
theorem resolve_error (h : 47 ∉ name) {what : Bytes} (herror : resolve w dir.path files name = .error what) :
    (∀ m ∈ list dir.path files, path_stem m.manifest_path ≠ name) ∧
      let hits := (list dir.path files).countP (begins name)
      (hits = 0 ∧ what = no_match name) ∨ (2 ≤ hits ∧ what = ambiguous name hits) := by
  have hnone : ∀ m ∈ list dir.path files, path_stem m.manifest_path ≠ name := by
    rintro m hm rfl
    rw [resolve_exact hm] at herror
    cases herror
  refine ⟨hnone, ?_⟩
  rw [resolve_inexact h hnone] at herror
  rw [List.countP_eq_length_filter]
  split at herror
  · cases herror
  · rename_i hempty
    exact .inl ⟨by rw [hempty]; rfl, (Except.error.inj herror).symm⟩
  · rename_i hmany hne
    refine .inr ⟨?_, (Except.error.inj herror).symm⟩
    by_contra hless
    have hone : ((list dir.path files).filter (begins name)).length = 1 :=
      le_antisymm (Nat.le_of_lt_succ (Nat.lt_of_not_le hless)) (List.length_pos_of_ne_nil hne)
    obtain ⟨m, hm⟩ := List.length_eq_one_iff.1 hone
    exact hmany m hm

theorem begins_longer {name' : Bytes} (hlonger : name <+: name') (h : begins name' m = true) : begins name m = true :=
  List.isPrefixOf_iff_prefix.2 ((hlonger.map tolower).trans (List.isPrefixOf_iff_prefix.1 h))

/-- More of the name finds the same model. -/
theorem resolve_longer (hkeys : (files.map Prod.fst).Nodup) {name' : Bytes} (h : 47 ∉ name') (hlonger : name <+: name')
    (hm : resolve w dir.path files name = .ok m) (hbegins : begins name' m = true) : resolve w dir.path files name' = .ok m := by
  obtain ⟨hmem, hfound⟩ := (resolve_ok_iff hkeys fun hslash => h (hlonger.subset hslash)).1 hm
  rcases hfound with rfl | ⟨-, -, hunique⟩
  · -- the name is the whole stem, so there is no more of it
    have hlength : name'.length ≤ (path_stem m.manifest_path).length := by
      have hle := (List.isPrefixOf_iff_prefix.1 hbegins).length_le
      simpa only [lc, List.length_map] using hle
    rw [← hlonger.eq_of_length_le hlength]
    exact hm
  · by_cases hexact : ∃ m' ∈ list dir.path files, path_stem m'.manifest_path = name'
    · obtain ⟨m', hm', rfl⟩ := hexact
      obtain rfl := hunique m' hm' (begins_longer hlonger (begins_stem m'))
      exact resolve_exact hm'
    · exact (resolve_ok_iff hkeys h).2 ⟨hmem, .inr ⟨fun m' hm' heq => hexact ⟨m', hm', heq⟩, hbegins,
        fun m' hm' hb => hunique m' hm' (begins_longer hlonger hb)⟩⟩

theorem resolve_names (w : FileSystem) (dir : Directory) {files : Files} (hkeys : (files.map Prod.fst).Nodup) {name : Bytes}
    (h : 47 ∉ name) :
    (∀ m, resolve w dir.path files name = .ok m ↔ m ∈ list dir.path files ∧ (path_stem m.manifest_path = name ∨
      (∀ m' ∈ list dir.path files, path_stem m'.manifest_path ≠ name) ∧ begins name m = true ∧
        ∀ m' ∈ list dir.path files, begins name m' = true → m' = m)) ∧
    (∀ what, resolve w dir.path files name = .error what →
      (∀ m ∈ list dir.path files, path_stem m.manifest_path ≠ name) ∧
        let hits := (list dir.path files).countP (begins name)
        (hits = 0 ∧ what = no_match name) ∨ (2 ≤ hits ∧ what = ambiguous name hits)) ∧
    ∀ m name', resolve w dir.path files name = .ok m → name <+: name' → begins name' m = true → 47 ∉ name' →
      resolve w dir.path files name' = .ok m :=
  ⟨fun _ => resolve_ok_iff hkeys h, fun _ => resolve_error h,
    fun _ _ hm hlonger hbegins h' => resolve_longer hkeys h' hlonger hm hbegins⟩

end

/-- A machine without links. -/
def plain_machine : FileSystem := ⟨child (bytes "/home"), some⟩

/-- One model, and a file that is none. -/
def one_model : Files := [(bytes "/models/a.gguf", ⟨[1, 2], none⟩), (bytes "/models/user_repo--Q8_0.toml",
  ⟨[], some ⟨bytes "a.gguf", bytes "https://x", bytes "user/repo", bytes "Q8_0", bytes "a.gguf", 2, [], []⟩⟩),
  (bytes "/models/b.gguf", ⟨[3], none⟩)]

def the_model : Manifest := ⟨bytes "/models/a.gguf", bytes "/models/user_repo--Q8_0.toml", bytes "https://x", bytes "user/repo",
  bytes "Q8_0", bytes "a.gguf", 2, [], []⟩

theorem one_model_keys : (one_model.map Prod.fst).Nodup := by decide +kernel

theorem one_model_listed : list models.path one_model = [the_model] := by
  have hread : (one_model.filter fun e => is_sidecar models.path e.1).filterMap (fun e => read_manifest one_model e.1) = [the_model] := by
    decide +kernel
  rw [list, hread, List.mergeSort_singleton]

theorem one_model_found : resolve plain_machine models.path one_model (bytes "USER") = .ok the_model := by
  refine (resolve_ok_iff one_model_keys (by decide)).2 ⟨?_, .inr ⟨fun m hm => ?_, by decide +kernel, fun m hm _ => ?_⟩⟩
  · rw [one_model_listed]
    exact List.mem_singleton_self _
  · rw [one_model_listed] at hm
    rw [List.mem_singleton.1 hm]
    decide +kernel
  · rw [one_model_listed] at hm
    exact List.mem_singleton.1 hm

theorem resolve_names_one : resolve plain_machine models.path one_model (bytes "USER_R") = .ok the_model :=
  (resolve_names plain_machine models one_model_keys (by decide : 47 ∉ bytes "USER")).2.2 the_model (bytes "USER_R")
    one_model_found (by decide) (by decide +kernel) (by decide)

/-! ## Removing -/

section
variable {w : FileSystem} {dir : Directory} {files : Files} {stuck : Bytes → Bool} {name : Bytes} {m m' : Manifest}

theorem lookup_remove_eq (path q : Bytes) (files : Files) : (remove path files).lookup q = if q = path then none else files.lookup q := by
  split
  · rename_i heq
    refine lookup_eq_none fun hmem => ?_
    obtain ⟨e, he, rfl⟩ := List.mem_map.1 hmem
    exact absurd heq (by simpa using (List.mem_filter.1 he).2)
  · rename_i hne
    induction files with
    | nil => rfl
    | cons e files ih =>
      by_cases hpath : e.1 = path
      · have hq : (q == e.1) = false := beq_false_of_ne (hpath ▸ hne)
        rw [remove, List.filter_cons_of_neg (by simpa using hpath), List.lookup_cons, hq]
        exact ih
      · rw [remove, List.filter_cons_of_pos (by simpa using hpath), List.lookup_cons, List.lookup_cons]
        cases q == e.1 with
        | true => rfl
        | false => exact ih

/-- The file and its sidecar go, the other files stay. -/
theorem models_rm_lookup (hres : resolve w dir.path files name = .ok m) (hpath : stuck m.path = false)
    (hsidecar : stuck m.manifest_path = false) (q : Bytes) :
    (models_rm w dir.path files stuck name).1.lookup q =
      if q ≠ [] ∧ (q = m.manifest_path ∨ q = m.path) then none else files.lookup q := by
  have herase (path : Bytes) (files : Files) (hstuck : stuck path = false) :
      (if path = [] || stuck path then files else remove path files).lookup q =
        if q ≠ [] ∧ q = path then none else files.lookup q := by
    by_cases hempty : path = []
    · have hnot : ¬ (q ≠ [] ∧ q = path) := fun h => h.1 (h.2.trans hempty)
      rw [if_pos (by simp [hempty]), if_neg hnot]
    · rw [if_neg (by simp [hempty, hstuck]), lookup_remove_eq]
      by_cases hq : q = path
      · rw [if_pos hq, if_pos ⟨hq ▸ hempty, hq⟩]
      · rw [if_neg hq, if_neg fun h => hq h.2]
  have hfiles : (models_rm w dir.path files stuck name).1 = if m.path = [] || stuck m.path
      then if m.manifest_path = [] || stuck m.manifest_path then files else remove m.manifest_path files
      else remove m.path (if m.manifest_path = [] || stuck m.manifest_path then files else remove m.manifest_path files) := by
    unfold models_rm
    rw [hres]
  rw [hfiles, herase _ _ hpath, herase _ _ hsidecar]
  by_cases hq : q = []
  · simp [hq]
  · simp only [ne_eq, hq, not_false_eq_true, true_and]
    by_cases hqp : q = m.path
    · rw [if_pos hqp, if_pos (.inr hqp)]
    · rw [if_neg hqp]
      simp only [hqp, or_false]

/-- A manifest reads the same while its sidecar and its file are what they were. -/
theorem read_manifest_same {files files' : Files} (h : read_manifest files m.manifest_path = some m)
    (hsidecar : files'.lookup m.manifest_path = files.lookup m.manifest_path)
    (hpath : m.path ≠ [] → (files'.lookup m.path).isSome = true)
    (hless : ∀ q, (files'.lookup q).isSome = true → (files.lookup q).isSome = true) :
    read_manifest files' m.manifest_path = some m := by
  obtain ⟨file, hfile, hm⟩ := Option.bind_eq_some_iff.1 h
  obtain ⟨t, ht, hm⟩ := Option.bind_eq_some_iff.1 hm
  have hexists : (if (files'.lookup (anchored (parent_path m.manifest_path) t.path)).isSome then
      anchored (parent_path m.manifest_path) t.path else []) =
      if (files.lookup (anchored (parent_path m.manifest_path) t.path)).isSome then
        anchored (parent_path m.manifest_path) t.path else [] := by
    by_cases hsome : (files.lookup (anchored (parent_path m.manifest_path) t.path)).isSome = true
    · have hmpath : m.path = anchored (parent_path m.manifest_path) t.path := by
        rw [← Option.some.inj hm]
        exact if_pos hsome
      by_cases hne : m.path = []
      · rw [← hmpath, hne, ite_self, ite_self]
      · rw [if_pos hsome, ← hmpath, if_pos (hpath hne)]
    · rw [if_neg hsome, if_neg fun h' => hsome (hless _ h')]
  unfold read_manifest
  rw [hsidecar, hfile]
  simp only [Option.bind_eq_bind, Option.bind_some, ht, hexists]
  exact hm

theorem rm_removes_one (hres : resolve w dir.path files name = .ok m) (hpath : stuck m.path = false)
    (hsidecar : stuck m.manifest_path = false) :
    let files' := (models_rm w dir.path files stuck name).1
    (∀ q, files'.lookup q = if q ≠ [] ∧ (q = m.manifest_path ∨ q = m.path) then none else files.lookup q) ∧
    (∀ m' ∈ list dir.path files', m'.manifest_path ≠ m.manifest_path) ∧
    ∀ m' ∈ list dir.path files, m'.manifest_path ≠ m.manifest_path → m'.manifest_path ≠ m.path →
      (m'.path ≠ m.manifest_path ∧ m'.path ≠ m.path ∨ m'.path = []) →
      m' ∈ list dir.path files' ∧ resolve w dir.path files' (path_stem m'.manifest_path) = .ok m' := by
  have hlookup := models_rm_lookup hres hpath hsidecar
  refine ⟨hlookup, fun m' hm' heq => ?_, fun m' hm' hother hnotfile hfile => ?_⟩
  · obtain ⟨hside, hread⟩ := mem_list_iff.1 hm'
    obtain ⟨file, -, hsome, -⟩ := read_manifest_some hread
    have hne : m'.manifest_path ≠ [] := by
      rw [(sidecar_path hside).1]
      simp
    rw [hlookup, if_pos ⟨hne, .inl heq⟩] at hsome
    cases hsome
  · obtain ⟨hside, hread⟩ := mem_list_iff.1 hm'
    have hsame : read_manifest (models_rm w dir.path files stuck name).1 m'.manifest_path = some m' := by
      refine read_manifest_same hread ?_ (fun hne => ?_) fun q hq => ?_
      · rw [hlookup, if_neg fun h => h.2.elim hother hnotfile]
      · obtain ⟨-, t, -, -, -, hdata⟩ := read_manifest_some hread
        rcases hfile with ⟨hm, hp⟩ | hempty
        · rw [hlookup, if_neg fun h => h.2.elim hm hp]
          exact (hdata hne).2
        · exact absurd hempty hne
      · rw [hlookup] at hq
        split at hq
        · cases hq
        · exact hq
    have hlisted := mem_list_iff.2 ⟨hside, hsame⟩
    exact ⟨hlisted, resolve_exact hlisted⟩

end

/-- The other file stays. -/
theorem rm_removes_one_model :
    let files' := (models_rm plain_machine models.path one_model (fun _ => false) (bytes "USER")).1
    files'.lookup (bytes "/models/a.gguf") = none ∧ files'.lookup (bytes "/models/b.gguf") = some ⟨[3], none⟩ := by
  obtain ⟨hlookup, -, -⟩ := @rm_removes_one plain_machine models one_model (fun _ => false) (bytes "USER") the_model
    one_model_found rfl rfl
  refine ⟨(hlookup _).trans (if_pos ?_), (hlookup _).trans ((if_neg ?_).trans ?_)⟩ <;> decide +kernel

/-! ## Pulls and removals -/

inductive Command where
  | pull (c : PullCall)
  | rm (name : Bytes)

section
variable (parse : Bytes → Option Json) (w : FileSystem) (dir : Bytes) (stuck : Bytes → Bool)

/-- The disk after a command, which may fail. -/
def run_command (s : Disk) : Command → Disk
  | .pull c => (pull parse dir s c).1
  | .rm name => { s with files := (models_rm w dir s.files stuck name).1 }

/-- The disk after some commands on an empty directory. -/
def commands (cmds : List Command) : Disk := cmds.foldl (run_command parse w dir stuck) ⟨[], []⟩

def pull_calls (cmds : List Command) : List PullCall :=
  cmds.filterMap fun
    | .pull c => some c
    | .rm _ => none

end

section
variable {parse : Bytes → Option Json} {w : FileSystem} {dir : Directory} {stuck : Bytes → Bool} {cmds : List Command}
  {rs : List Source} {s : Disk} {r : Source} {c : PullCall}

/-- Also a download that fails leaves nothing that is not accounted for. -/
theorem fetch_accounted {dir : Bytes} (hapart : Apart dir rs) (hs : Accounted dir rs s) (hr : r ∈ rs) (hrename : c.renamed = none) :
    Accounted dir rs (fetch dir s r c).1 := by
  unfold fetch
  split
  · exact hs
  · dsimp only
    split
    · exact accounted_remove hs _
    · rw [tmp_free hapart hs hr, hrename]
      exact accounted_write (accounted_data (accounted_remove hs _) hr c.remote) hr _ _ _

theorem store_accounted {dir : Bytes} (hapart : Apart dir rs) (hs : Accounted dir rs s) (hr : r ∈ rs) (hrename : c.renamed = none) :
    Accounted dir rs (store dir s r c).1 := by
  have hwritten := accounted_write hs hr r.size_bytes c.now c.first_written
  unfold store
  split
  · dsimp only
    split
    · exact hwritten
    · exact fetch_accounted hapart hwritten hr hrename
  · exact fetch_accounted hapart hs hr hrename

theorem rm_accounted {dir : Bytes} (hs : Accounted dir rs s) (name : Bytes) :
    Accounted dir rs { s with files := (models_rm w dir s.files stuck name).1 } := by
  unfold models_rm
  split
  · exact hs
  · have herase {files : Files} (hfiles : Accounted dir rs { s with files := files }) (path : Bytes) :
        Accounted dir rs { s with files := if path = [] || stuck path then files else remove path files } := by
      split
      · exact hfiles
      · exact accounted_remove hfiles path
    exact herase (herase hs _) _

theorem commands_accounted (hapart : Apart dir.path (sources parse (pull_calls cmds)))
    (hrename : ∀ c ∈ pull_calls cmds, c.renamed = none) :
    Accounted dir.path (sources parse (pull_calls cmds)) (commands parse w dir.path stuck cmds) := by
  refine foldl_inv (I := Accounted dir.path (sources parse (pull_calls cmds))) (fun _ _ h => by cases h) fun s cmd hcmd hs => ?_
  cases cmd with
  | rm name => exact rm_accounted hs name
  | pull c =>
    have hc : c ∈ pull_calls cmds := List.mem_filterMap.2 ⟨.pull c, hcmd, rfl⟩
    show Accounted _ _ (pull parse dir.path s c).1
    unfold pull
    cases hsource : source parse c with
    | error e => exact hs
    | ok r => exact store_accounted hapart hs (mem_sources.2 ⟨c, hc, hsource⟩) (hrename c hc)

end

/-- One model is pulled and removed before the other is. -/
def pulls_and_rm : List Command :=
  [.pull (pulled (bytes "user/repo:Q4_K_M") [1, 2]), .rm (bytes "user_repo--Q4_K_M"), .pull (pulled (bytes "user/repo:Q8_0") [3])]

end Hostely.Models
