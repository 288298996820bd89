import Hostely.Lib.SortedMap
import Hostely.Lib.Text
/-!
# The registry of models

A directory with the files that were pulled, and for each pull a sidecar that
says what was. Paths that differ name different files.
-/

open Hostely.Lib

namespace Hostely.Models

/-! ## Paths -/

/-- `dir / name` -/
def child (dir name : Bytes) : Bytes := if name.head? = some 47 then name else dir ++ 47 :: name

def parent_path (path : Bytes) : Bytes := beforeLast 47 path

def filename (path : Bytes) : Bytes := afterLast 47 path

def is_relative (path : Bytes) : Bool := path.head? ≠ some 47

def extension (path : Bytes) : Bytes :=
  let name := filename path
  if name ≠ bytes ".." ∧ 46 ∈ name ∧ beforeLast 46 name ≠ [] then 46 :: afterLast 46 name else []

/-- The part of the path below the directory, if it is there. -/
def relative (path dir : Bytes) : Option Bytes :=
  if (dir ++ [47]).isPrefixOf path then some (path.drop (dir.length + 1)) else none

/-! ## Manifests -/

structure Manifest where
  path : Bytes
  manifest_path : Bytes
  source : Bytes
  repo : Bytes
  quant : Bytes
  filename : Bytes
  size_bytes : UInt64
  license : Bytes
  pulled_at : Bytes
deriving DecidableEq

/-- The values of the keys of a sidecar, empty or 0 for a key that is not there. -/
structure Table where
  path : Bytes
  source : Bytes
  repo : Bytes
  quant : Bytes
  filename : Bytes
  size_bytes : Int64
  license : Bytes
  pulled_at : Bytes
deriving DecidableEq

/-- A file, and what the TOML parser makes of it. -/
structure File where
  text : Bytes
  table : Option Table
deriving DecidableEq

/-- By path. -/
abbrev Files := List (Bytes × File)

def remove (path : Bytes) (files : Files) : Files := files.filter fun e => e.1 ≠ path

def valid_stem_char (c : UInt8) : Bool := isalnum c || c = 46 || c = 95 || c = 45

def clean (text : Bytes) : Bytes := text.map fun c => if valid_stem_char c then c else 95

def make_stem (repo quant : Bytes) : Bytes := clean repo ++ bytes "--" ++ clean quant

def sidecar_for (dir stem : Bytes) : Bytes := child dir (stem ++ bytes ".toml")

/-- Relative to the sidecar when possible. -/
def stored_path (path manifest_path : Bytes) : Bytes :=
  if path ≠ [] ∧ manifest_path ≠ [] then
    match relative path (parent_path manifest_path) with
    | some rel => if rel ≠ [] ∧ rel.head? ≠ some 46 ∧ rel.head? ≠ some 47 then rel else path
    | none => path
  else path

/-- How far the write came; of a text that is cut off the parser makes nothing. -/
inductive Written where
  | not_opened
  | torn (text : Bytes)
  | whole (text : Bytes)
deriving DecidableEq

def write_manifest (m : Manifest) (w : Written) (files : Files) : Files × Bool :=
  match w with
  | .not_opened => (files, false)
  | .torn text => (assign m.manifest_path ⟨text, none⟩ files, false)
  | .whole text =>
    let table : Table := ⟨stored_path m.path m.manifest_path, m.source, m.repo, m.quant, m.filename, m.size_bytes.toInt64, m.license,
      m.pulled_at⟩
    (assign m.manifest_path ⟨text, some table⟩ files, true)

/-- A relative path in a sidecar is anchored to the sidecar's directory. -/
def anchored (dir stored : Bytes) : Bytes := if stored ≠ [] ∧ is_relative stored then child dir stored else stored

/-- The path is empty when there is no file. -/
def read_manifest (files : Files) (manifest_path : Bytes) : Option Manifest := do
  let file ← files.lookup manifest_path
  let table ← file.table
  let path := anchored (parent_path manifest_path) table.path
  let path := if (files.lookup path).isSome then path else []
  return {
    path
    manifest_path
    source := table.source
    repo := table.repo
    quant := table.quant
    filename := if table.filename = [] ∧ path ≠ [] then Models.filename path else table.filename
    size_bytes := if 0 ≤ table.size_bytes then table.size_bytes.toUInt64 else 0
    license := table.license
    pulled_at := table.pulled_at }

def is_sidecar (dir path : Bytes) : Bool := parent_path path = dir && extension path = bytes ".toml"

/-- By the names of the sidecars. -/
def list (dir : Bytes) (files : Files) : List Manifest :=
  ((files.filter fun e => is_sidecar dir e.1).filterMap fun e => read_manifest files e.1).mergeSort fun a b =>
    !decide (filename b.manifest_path < filename a.manifest_path)

theorem lookup_remove {path q : Bytes} {files : Files} {file : File} (h : (remove path files).lookup q = some file) :
    files.lookup q = some file := by
  induction files with
  | nil => cases h
  | cons e files ih =>
    by_cases hpath : e.1 = path
    · have hq : (q == e.1) = false := by
        have hmem := mem_of_lookup h
        have hne : q ≠ path := by simpa using (List.mem_filter.1 hmem).2
        exact beq_false_of_ne (hpath ▸ hne)
      rw [List.lookup_cons, hq]
      exact ih (by rwa [remove, List.filter_cons_of_neg (by simpa using hpath)] at h)
    · rw [remove, List.filter_cons_of_pos (by simpa using hpath), List.lookup_cons] at h
      rw [List.lookup_cons]
      cases hq : q == e.1 with
      | true => rwa [hq] at h
      | false =>
        rw [hq] at h
        exact ih h

/-! ## Names -/

/-- An absolute path, as `models_dir` is. -/
structure Directory where
  path : Bytes
  absolute : path.head? = some 47

section
variable {dir : Bytes} {name stem : Bytes}

theorem child_plain (h : 47 ∉ name) : child dir name = dir ++ 47 :: name :=
  if_neg fun hhead => h (List.mem_of_mem_head? hhead)

theorem filename_child (h : 47 ∉ name) : filename (child dir name) = name := by
  rw [child_plain h]
  exact afterLast_append h dir

theorem clean_plain (text : Bytes) : 47 ∉ clean text := by
  intro h
  obtain ⟨c, -, hc⟩ := List.mem_map.1 h
  split at hc
  · rename_i hvalid
    rw [hc] at hvalid
    exact absurd hvalid (by decide)
  · exact absurd hc (by decide)

theorem toml_plain (h : 47 ∉ stem) : 47 ∉ stem ++ bytes ".toml" := by
  rw [List.mem_append, not_or]
  exact ⟨h, by decide⟩

theorem sidecar_extension (h : 47 ∉ stem) (hne : stem ≠ []) : extension (sidecar_for dir stem) = bytes ".toml" := by
  have hdots : stem ++ bytes ".toml" ≠ bytes ".." := by
    intro heq
    have hlength := congrArg List.length heq
    rw [List.length_append, show (bytes ".toml").length = 5 by decide, show (bytes "..").length = 2 by decide] at hlength
    omega
  have hsplit : stem ++ bytes ".toml" = stem ++ 46 :: bytes "toml" := congrArg (stem ++ ·) (by decide)
  have hstem : beforeLast 46 (stem ++ bytes ".toml") = stem := by
    rw [hsplit]
    exact beforeLast_append (by decide) stem
  have htoml : afterLast 46 (stem ++ bytes ".toml") = bytes "toml" := by
    rw [hsplit]
    exact afterLast_append (by decide) stem
  unfold sidecar_for extension
  rw [filename_child (toml_plain h)]
  dsimp only
  rw [if_pos ⟨hdots, List.mem_append_right _ (by decide), ne_of_eq_of_ne hstem hne⟩, htoml]
  decide

theorem sidecar_inj {stem' : Bytes} (h : 47 ∉ stem) (h' : 47 ∉ stem') : sidecar_for dir stem = sidecar_for dir stem' ↔ stem = stem' := by
  unfold sidecar_for
  rw [child_plain (toml_plain h), child_plain (toml_plain h')]
  simp

/-- Without a dash in the quants the stem tells both parts. -/
theorem make_stem_inj {repo repo' quant quant' : Bytes} (hq : 45 ∉ clean quant) (hq' : 45 ∉ clean quant') :
    make_stem repo quant = make_stem repo' quant' ↔ clean repo = clean repo' ∧ clean quant = clean quant' := by
  have hsplit (repo quant : Bytes) : make_stem repo quant = (clean repo ++ [45]) ++ 45 :: clean quant := by
    unfold make_stem
    rw [show bytes "--" = [45, 45] by decide]
    simp
  rw [hsplit, hsplit]
  constructor
  · intro h
    have hquant := congrArg (afterLast 45) h
    have hrepo := congrArg (beforeLast 45) h
    rw [afterLast_append hq, afterLast_append hq'] at hquant
    rw [beforeLast_append hq, beforeLast_append hq'] at hrepo
    exact ⟨List.append_cancel_right hrepo, hquant⟩
  · rintro ⟨hrepo, hquant⟩
    rw [hrepo, hquant]

end

/-! ## A path written and read -/

theorem child_absolute (dir : Directory) (name : Bytes) : (child dir.path name).head? = some 47 := by
  unfold child
  split
  · assumption
  · rw [List.head?_append, dir.absolute]
    rfl

theorem anchored_stored (dir : Directory) (name : Bytes) {manifest_path : Bytes} (h : parent_path manifest_path = dir.path) :
    anchored dir.path (stored_path (child dir.path name) manifest_path) = child dir.path name := by
  have hself : anchored dir.path (child dir.path name) = child dir.path name := by
    refine if_neg fun hrel => ?_
    rw [is_relative, child_absolute] at hrel
    exact absurd hrel.2 (by decide)
  unfold stored_path
  split
  · rw [h]
    cases hrel : relative (child dir.path name) dir.path with
    | none => exact hself
    | some rel =>
      dsimp only
      split
      · rename_i hplain
        obtain ⟨hbelow, hdrop⟩ := Option.ite_none_right_eq_some.1 hrel
        obtain ⟨rest, hrest⟩ := List.isPrefixOf_iff_prefix.1 hbelow
        have heq : rel = rest := by
          rw [← Option.some.inj hdrop, ← hrest, List.drop_left' (by simp)]
        rw [anchored, if_pos ⟨hplain.1, decide_eq_true hplain.2.2⟩, child, if_neg hplain.2.2, heq, ← hrest]
        simp
      · exact hself
  · exact hself

end Hostely.Models
