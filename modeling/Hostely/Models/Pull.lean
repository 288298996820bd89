import Hostely.Lib.Json
import Hostely.Lib.Substring
import Hostely.Models.Registry
import Hostely.Services.Manager
/-!
# Pulling a model

An operand is a URL, a file of a repository or a repository with a quant, for
which the model API is asked. The file is downloaded to a temporary one and moved
under its own name, and its manifest is written to a sidecar. What the two runs of
curl come back with, and what the disk does, is a `PullCall`.
-/

open Hostely.Lib Hostely.Services

namespace Hostely.Models

def kRecognisedQuants : List Bytes :=
  ["F32", "F16", "Q8_0", "Q6_K", "Q5_K_L", "Q5_K_M", "Q5_K_S", "Q5_1", "Q5_0", "Q4_K_L", "Q4_K_M", "Q4_K_S", "Q4_1", "Q4_0",
    "Q3_K_L", "Q3_K_M", "Q3_K_S", "Q3_K_XS", "Q2_K", "Q2_K_S", "IQ4_XS", "IQ4_NL", "IQ3_XS", "IQ3_XXS", "IQ2_M", "IQ2_XS",
    "IQ2_XXS", "IQ1_M", "BF16"].map bytes

def quant_suffix (quant : Bytes) : Bytes := bytes "." ++ quant ++ bytes ".gguf"

/-! ## Operands -/

inductive Kind where
  | url
  | repo_quant
  | repo_file
deriving DecidableEq

structure Resolved where
  kind : Kind
  repo : Bytes
  quant : Bytes
  file_in_repo : Bytes
  url : Bytes
deriving DecidableEq

def looks_like_url (s : Bytes) : Bool := (bytes "http://").isPrefixOf s || (bytes "https://").isPrefixOf s

def huggingface (repo file : Bytes) : Bytes := bytes "https://huggingface.co/" ++ repo ++ bytes "/resolve/main/" ++ file

def resolve_url (operand : Bytes) : Resolved :=
  let file := if 47 ∈ operand then afterLast 47 operand else bytes "model.gguf"
  let quant := kRecognisedQuants.find? fun q => (quant_suffix q).length < file.length && (quant_suffix q).isSuffixOf file
  ⟨.url, [], quant.getD [], file, operand⟩

/-- The text before and after the first `c`. -/
def split_first (c : UInt8) (text : Bytes) : Option (Bytes × Bytes) :=
  match text.dropWhile (· ≠ c) with
  | [] => none
  | _ :: rest => some (text.takeWhile (· ≠ c), rest)

theorem split_first_some {c : UInt8} {text a b : Bytes} (h : split_first c text = some (a, b)) : c ∉ a := by
  unfold split_first at h
  split at h
  · cases h
  · obtain ⟨rfl, -⟩ := Prod.mk.inj (Option.some.inj h)
    intro hc
    simpa using List.mem_takeWhile_imp hc

theorem split_first_none {c : UInt8} {text : Bytes} (h : split_first c text = none) : c ∉ text := by
  unfold split_first at h
  split at h
  · rename_i hnil
    intro hc
    simpa using List.dropWhile_eq_nil_iff.1 hnil c hc
  · cases h

theorem split_first_mark {c : UInt8} {a : Bytes} (h : c ∉ a) (b : Bytes) : split_first c (a ++ c :: b) = some (a, b) := by
  have hall : ∀ x ∈ a, decide (x ≠ c) = true := fun x hx => decide_eq_true (ne_of_mem_of_not_mem hx h)
  unfold split_first
  rw [List.dropWhile_append_of_pos hall, List.takeWhile_append_of_pos hall]
  simp

theorem split_first_unmarked {c : UInt8} {text : Bytes} (h : c ∉ text) : split_first c text = none := by
  have hall : ∀ x ∈ text, decide (x ≠ c) = true := fun x hx => decide_eq_true (ne_of_mem_of_not_mem hx h)
  unfold split_first
  rw [List.dropWhile_eq_nil_iff.2 hall]

def resolve_operand (operand : Bytes) : Option Resolved :=
  if looks_like_url operand then some (resolve_url operand)
  else do
    let (user, rest) ← split_first 47 operand
    match split_first 58 operand with
    | some (repo, quant) =>
      -- a colon before the slash does not count
      if user.length < repo.length then return ⟨.repo_quant, repo, quant, [], []⟩ else return in_repo operand rest
    | none => return in_repo operand rest
where
  in_repo (operand rest : Bytes) : Resolved :=
    if 47 ∈ rest then
      ⟨.repo_file, beforeLast 47 operand, [], afterLast 47 operand, huggingface (beforeLast 47 operand) (afterLast 47 operand)⟩
    else ⟨.repo_quant, operand, bytes "Q4_K_M", [], []⟩

/-! ## The model API -/

structure HfSibling where
  rfilename : Bytes
  size_bytes : UInt64
deriving DecidableEq

def field (j : Json) (key : Bytes) : Option Json :=
  match j with
  | .obj fields => (fields.find? (·.1 = key)).map (·.2)
  | _ => none

/-- `none` when reading throws. -/
def add_sibling (out : List HfSibling) (s : Json) : Option (List HfSibling) :=
  if (field s (bytes "rfilename")).isNone then some out
  else do
    let fname ← s.value_string (bytes "rfilename") []
    if fname = [] then return out
    else return out ++ [⟨fname, ← s.value_ulong (bytes "size") 0⟩]

/-- Nothing when there are no siblings. -/
def parse_api_json (body : Option Json) : Option (List HfSibling) := do
  match field (← body) (bytes "siblings") with
  | some (.arr siblings) =>
    let out ← siblings.foldlM add_sibling []
    if out ≠ [] then return out else none
  | _ => none

def extract_license (body : Option Json) : Bytes :=
  match body.bind fun j => field j (bytes "cardData") with
  | some (.obj card) =>
    match field (.obj card) (bytes "license") with
    | some (.str license) => license
    | _ => []
  | _ => []

def ends_with_quant (fname q : Bytes) : Bool := q.length + 7 ≤ fname.length && (quant_suffix q).isSuffixOf fname

/-- The first of the siblings that no other is better than. -/
def best (better : HfSibling → HfSibling → Bool) (sibs : List HfSibling) : Option HfSibling :=
  sibs.foldl (fun b s => match b with | none => some s | some b => if better s b then some s else some b) none

def largest (s b : HfSibling) : Bool := b.size_bytes < s.size_bytes

def smallest (s b : HfSibling) : Bool := s.size_bytes < b.size_bytes

def ggufs (sibs : List HfSibling) : List HfSibling := sibs.filter fun s => (bytes ".gguf").isSuffixOf s.rfilename

def pick_sibling (sibs : List HfSibling) (quant : Bytes) : Option HfSibling :=
  (best largest ((ggufs sibs).filter fun s => ends_with_quant s.rfilename quant)).or <|
    (best smallest ((ggufs sibs).filter fun s => kRecognisedQuants.any fun q => ends_with_quant s.rfilename q)).or <|
      best largest (ggufs sibs)

/-- The quant that the file has. -/
def quant_of (file : Bytes) : Bytes := (kRecognisedQuants.find? fun q => (quant_suffix q).isSuffixOf file).getD (bytes "unknown")

structure PullError where
  message : Bytes
  available_files : List (Bytes × UInt64)
deriving DecidableEq

/-- What is to be downloaded. -/
structure Source where
  repo : Bytes
  quant : Bytes
  file_in_repo : Bytes
  url : Bytes
  size_bytes : UInt64
  license : Bytes
deriving DecidableEq

/-- How curl writes the file: its bytes when there is none yet. -/
structure PullCall where
  operand : Bytes
  api : CliResult
  download : CliResult
  remote : File
  resumed : File → File
  /-- The error when the file could not be moved. -/
  renamed : Option Bytes
  first_written : Written
  written : Written
  now : Bytes

section
variable (parse : Bytes → Option Json)

def ask_api (c : PullCall) (r : Resolved) : Except PullError Source :=
  if c.api.exit_code = 0 then
    match parse_api_json (parse c.api.stdout_text) with
    | none => .error ⟨bytes "could not parse Hugging Face model metadata for '" ++ r.repo ++ bytes "'.", []⟩
    | some sibs =>
      match pick_sibling sibs r.quant with
      | none => .error ⟨bytes "no GGUF files found in '" ++ r.repo ++ bytes "'.",
          (ggufs sibs).map fun s => (s.rfilename, s.size_bytes)⟩
      | some chosen => .ok ⟨r.repo, quant_of chosen.rfilename, chosen.rfilename, huggingface r.repo chosen.rfilename,
          chosen.size_bytes, extract_license (parse c.api.stdout_text)⟩
  else .error ⟨bytes "huggingface.co model API failed: " ++ c.api.stderr_text ++ bytes " (HTTP " ++ to_string c.api.exit_code ++
    bytes ")", []⟩

/-- The beginning of `pull`. -/
def source (c : PullCall) : Except PullError Source :=
  match resolve_operand c.operand with
  | none => .error ⟨bytes "could not interpret '" ++ c.operand ++
      bytes "' as a Hugging Face repo, a \x60repo:quant\x60 selector, or a direct URL.", []⟩
  | some r => if r.kind = .repo_quant then ask_api parse c r else .ok ⟨r.repo, r.quant, r.file_in_repo, r.url, 0, []⟩

end

/-! ## Names -/

/-- The path of a URL, without slashes at its start. -/
def url_path (url : Bytes) : Bytes :=
  let path := match findSub? (bytes "://") url with
    | some i => url.drop (i + 3)
    | none => url
  match split_first 47 path with
  | some (_, rest) => rest.dropWhile (· = 47)
  | none => []

/-- The first two segments. -/
def segments (rest : Bytes) : Bytes × Bytes :=
  match split_first 47 rest with
  | none => (rest, [])
  | some (a, rest) =>
    match split_first 47 rest with
    | none => (a, rest)
    | some (b, _) => (a, b)

def Source.stem (r : Source) : Bytes :=
  if r.repo = [] then
    let (a, b) := segments (url_path r.url)
    (if a = [] then bytes "url" else a) ++ bytes "--" ++ (if b = [] then bytes "file" else b) ++ bytes "--" ++
      (if r.quant = [] then bytes "url" else r.quant)
  else make_stem r.repo r.quant

/-- The paths a pull uses. -/
def Source.dest_gguf (dir : Bytes) (r : Source) : Bytes := child dir r.file_in_repo

def Source.tmp_gguf (dir : Bytes) (r : Source) : Bytes := r.dest_gguf dir ++ bytes ".tmp"

def Source.sidecar (dir : Bytes) (r : Source) : Bytes := sidecar_for dir r.stem

/-! ## curl -/

/-- The end of a number for `sscanf`. -/
def after_number (text : Bytes) : Bytes :=
  let text := text.dropWhile isspace
  (if text.head? = some 45 ∨ text.head? = some 43 then text.tail else text).dropWhile isdigit

/-- A floating-point number is there. -/
def starts_double (text : Bytes) : Bool :=
  let text := text.dropWhile isspace
  let text := if text.head? = some 45 ∨ text.head? = some 43 then text.tail else text
  match text with
  | 46 :: c :: _ => isdigit c
  | c :: rest => isdigit c || (bytes "inf").isPrefixOf ((c :: rest).map tolower) || (bytes "nan").isPrefixOf ((c :: rest).map tolower)
  | [] => false

structure Marker where
  saw_marker : Bool
  http_code : Int
  dl_bytes : UInt64
deriving DecidableEq

/-- `sscanf(rest, "%ld:%llu:%lf", ..)`; what was read before it fails stays. -/
def scan_marker (m : Marker) (rest : Bytes) : Marker :=
  match number rest with
  | none => { m with saw_marker := false }
  | some (negative, n) =>
    let m := { m with http_code := if negative then max (-(n : Int)) (-9223372036854775808) else min n 9223372036854775807 }
    match after_number rest with
    | 58 :: rest =>
      match number rest with
      | none => { m with saw_marker := false }
      | some (negative, n) =>
        let bytes := if n < 18446744073709551616 then (if negative then -n.toUInt64 else n.toUInt64) else 18446744073709551615
        match after_number rest with
        | 58 :: rest => { m with dl_bytes := bytes, saw_marker := starts_double rest }
        | _ => { m with dl_bytes := bytes, saw_marker := false }
    | _ => { m with saw_marker := false }

def marker : Bytes := bytes "hostely_marker:"

def read_marker (stdout : Bytes) : Marker :=
  (getlines stdout).foldl (fun m line => match findSub? marker line with
    | some i => scan_marker m (line.drop (i + marker.length))
    | none => m) ⟨false, -1, 0⟩

/-! ## The pull -/

/-- The files, and a record of the remote files that were downloaded. -/
structure Disk where
  files : Files
  downloads : List (Bytes × File)

/-- The manifest of what was pulled. -/
def Source.manifest (dir : Bytes) (r : Source) (size_bytes : UInt64) (now : Bytes) : Manifest :=
  ⟨r.dest_gguf dir, r.sidecar dir, r.url, r.repo, r.quant, r.file_in_repo, size_bytes, r.license, now⟩

/-- The final file already exists with the right size. -/
def already_there (dir : Bytes) (files : Files) (r : Source) : Bool :=
  match files.lookup (r.dest_gguf dir) with
  | some file => (files.lookup (r.sidecar dir)).isSome && r.size_bytes ≠ 0 && file.text.length = r.size_bytes.toNat
  | none => false

/-- What curl leaves at the temporary path. -/
def stored (c : PullCall) : Option File → File
  | none => c.remote
  | some file => c.resumed file

def fetch (dir : Bytes) (s : Disk) (r : Source) (c : PullCall) : Disk × Except PullError Manifest :=
  if !c.download.started then (s, .error ⟨bytes "could not launch /usr/bin/curl", []⟩)
  else
    let m := read_marker c.download.stdout_text
    let file := stored c (s.files.lookup (r.tmp_gguf dir))
    -- a failed download is not resumed later: its file is removed
    if c.download.exit_code ≠ 0 ∨ m.saw_marker = false ∨ 400 ≤ m.http_code then
      ({ s with files := remove (r.tmp_gguf dir) s.files }, .error ⟨bytes "curl exited " ++ to_string c.download.exit_code ++
        bytes " (HTTP " ++ to_string m.http_code ++ bytes ")\n" ++ c.download.stderr_text, []⟩)
    else
      let downloads := s.downloads ++ [(r.url, c.remote)]
      match c.renamed with
      | some message => (⟨assign (r.tmp_gguf dir) file s.files, downloads⟩,
          .error ⟨bytes "could not move downloaded file into place: " ++ message, []⟩)
      | none =>
        let manifest := r.manifest dir (if r.size_bytes = 0 then m.dl_bytes else r.size_bytes) c.now
        let (files, ok) := write_manifest manifest c.written (assign (r.dest_gguf dir) file (remove (r.tmp_gguf dir) s.files))
        -- the data is there, so a sidecar that cannot be written is no error
        (⟨files, downloads⟩, .ok (if ok then manifest else { manifest with manifest_path := [] }))

/-- The rest of `pull`. -/
def store (dir : Bytes) (s : Disk) (r : Source) (c : PullCall) : Disk × Except PullError Manifest :=
  if already_there dir s.files r then
    let (files, ok) := write_manifest (r.manifest dir r.size_bytes c.now) c.first_written s.files
    if ok then (⟨files, s.downloads⟩, .ok (r.manifest dir r.size_bytes c.now)) else fetch dir ⟨files, s.downloads⟩ r c
  else fetch dir s r c

section
variable (parse : Bytes → Option Json) (dir : Bytes)

def pull (s : Disk) (c : PullCall) : Disk × Except PullError Manifest :=
  match source parse c with
  | .error e => (s, .error e)
  | .ok r => store dir s r c

/-- A pull that succeeds. -/
def pull_ok (s : Disk) (c : PullCall) : Option Disk := if (pull parse dir s c).2.isOk then some (pull parse dir s c).1 else none

/-- The disk after some pulls into an empty directory, if all succeed. -/
def pulls (calls : List PullCall) : Option Disk := calls.foldlM (pull_ok parse dir) ⟨[], []⟩

end

end Hostely.Models
