import Hostely.Lib.Text
/-!
# The logger

Lines to standard error and to a file that is rotated by size. Files are their
contents by path; opening, writing and renaming files that exist succeed, and
removing one may not.
-/

open Hostely.Lib

namespace Hostely.Log

inductive Level
  | Debug | Info | Warn | Error
deriving DecidableEq

def Level.toNat : Level → Nat
  | .Debug => 0
  | .Info => 1
  | .Warn => 2
  | .Error => 3

def level_tag : Level → Bytes
  | .Debug => bytes "DEBUG"
  | .Info => bytes "INFO"
  | .Warn => bytes "WARN"
  | .Error => bytes "ERROR"

abbrev Files := Bytes → Option Bytes

def Files.put (files : Files) (path : Bytes) (content : Option Bytes) : Files := fun p => if p = path then content else files p

def Files.content (files : Files) (path : Bytes) : Bytes := (files path).getD []

/-- An error when there is no such file, and then nothing changes. -/
def Files.rename (files : Files) (old new : Bytes) : Files :=
  match files old with
  | some content => (files.put new (some content)).put old none
  | none => files

/-- `removed` tells whether `fs::remove` works. -/
def Files.remove (files : Files) (path : Bytes) (removed : Bool) : Files := if removed then files.put path none else files

section
variable {files : Files} {path : Bytes}

@[simp] theorem put_same (files : Files) (path : Bytes) (content : Option Bytes) : files.put path content path = content := if_pos rfl

theorem put_other {p : Bytes} (h : p ≠ path) (content : Option Bytes) : files.put path content p = files p := if_neg h

@[simp] theorem content_put (files : Files) (path content : Bytes) : (files.put path (some content)).content path = content := by
  unfold Files.content
  rw [put_same, Option.getD_some]

end

/-- A rotated copy, `hostely.log.1` and so on. -/
def rotated (base : Bytes) (n : Nat) : Bytes := base ++ bytes "." ++ to_string n

structure Logger where
  level : Level
  file_path : Bytes
  max_bytes : Nat
  keep_files : Nat
  bytes_written : Nat
  file_enabled : Bool
  is_open : Bool
  stderr_enabled : Bool
  stderr : Bytes
  files : Files

/-- Before `init`. -/
def Logger.start (files : Files) : Logger := ⟨.Info, [], 1048576, 3, 0, false, false, true, [], files⟩

def Logger.init (s : Logger) (level : Level) (logfile_path : Bytes) (max_bytes keep_files : Nat) : Logger :=
  let s := { s with level, max_bytes, keep_files, bytes_written := 0, file_enabled := false }
  if logfile_path ≠ [] then
    -- opened to append, which makes the file if there is none
    let content := s.files.content logfile_path
    { s with
      files := s.files.put logfile_path (some content)
      is_open := true
      file_path := logfile_path
      file_enabled := true
      bytes_written := content.length }
  else s

/-- Shifts `.N` to `.(N+1)`, the last one first. -/
def shift (base : Bytes) : Nat → Files → Files
  | i + 2, files => shift base (i + 1) (files.rename (rotated base (i + 1)) (rotated base (i + 2)))
  | _, files => files

def Logger.rotate_if_needed (s : Logger) (incoming_size : Nat) (removed : Bool) : Logger :=
  let total := s.bytes_written + incoming_size
  if total < s.max_bytes ∨ s.max_bytes = 0 then { s with bytes_written := total }
  else
    let s := { s with is_open := false }
    if s.file_path ≠ [] then
      let base := s.file_path
      let files := s.files.remove (rotated base s.keep_files) removed
      let files := (shift base s.keep_files files).rename base (rotated base 1)
      { s with files := files.put base (some []), is_open := true, bytes_written := 0 }
    else s

/-- A call of `emit`, with the time and with what `fs::remove` does if it comes to that. -/
structure Call where
  level : Level
  message : Bytes
  timestamp : Bytes
  removed : Bool := true

def Call.line (c : Call) : Bytes := c.timestamp ++ bytes " [" ++ level_tag c.level ++ bytes "] " ++ c.message ++ [10]

def Logger.emit (s : Logger) (c : Call) : Logger :=
  if c.level.toNat < s.level.toNat then s
  else
    let s := { s with stderr := if s.stderr_enabled then s.stderr ++ c.line else s.stderr }
    if s.file_enabled && s.is_open then
      let s := s.rotate_if_needed c.line.length c.removed
      -- nothing is written to a closed stream
      if s.is_open then { s with files := s.files.put s.file_path (some (s.files.content s.file_path ++ c.line)) } else s
    else s

/-- The log after some calls. -/
def Logger.run (s : Logger) (calls : List Call) : Logger := calls.foldl Logger.emit s

/-- The lines of the calls that are not below the level. -/
def emitted (level : Level) (calls : List Call) : List Bytes :=
  (calls.filter fun c => !decide (c.level.toNat < level.toNat)).map Call.line

/-! ## What a call does -/

/-- The part of a logger that `init` sets for good. -/
def Logger.config (s : Logger) : Level × Bytes × Nat × Nat × Bool × Bool :=
  (s.level, s.file_path, s.max_bytes, s.keep_files, s.file_enabled, s.is_open)

/-- Lines go to a file. -/
structure Logger.Logs (s : Logger) : Prop where
  enabled : s.file_enabled = true
  opened : s.is_open = true
  named : s.file_path ≠ []

/-- There is room for so many bytes, or no limit. -/
def Logger.Fits (s : Logger) (n : Nat) : Prop := s.bytes_written + n < s.max_bytes ∨ s.max_bytes = 0

/-- The files after a rotation, before the line is written. -/
def Logger.turned (s : Logger) (removed : Bool) : Files :=
  ((shift s.file_path s.keep_files (s.files.remove (rotated s.file_path s.keep_files) removed)).rename s.file_path
    (rotated s.file_path 1)).put s.file_path (some [])

section
variable {s : Logger} {c : Call}

theorem emit_below (h : c.level.toNat < s.level.toNat) : s.emit c = s := if_pos h

theorem Logger.Logs.config_eq (hs : s.Logs) : s.config = (s.level, s.file_path, s.max_bytes, s.keep_files, true, true) := by
  unfold Logger.config
  rw [hs.enabled, hs.opened]

theorem emit_fits (hs : s.Logs) (hlevel : ¬ c.level.toNat < s.level.toNat) (h : s.Fits c.line.length) :
    (s.emit c).config = s.config ∧ (s.emit c).bytes_written = s.bytes_written + c.line.length ∧
      (s.emit c).files = s.files.put s.file_path (some (s.files.content s.file_path ++ c.line)) := by
  unfold Logger.Fits at h
  unfold Logger.emit Logger.rotate_if_needed
  rw [if_neg hlevel]
  simp only [hs.enabled, hs.opened, Bool.and_self, if_true]
  rw [if_pos h]
  exact ⟨hs.config_eq.symm, rfl, rfl⟩

/-- The line is not counted when it is the first of a file. -/
theorem emit_rotates (hs : s.Logs) (hlevel : ¬ c.level.toNat < s.level.toNat) (h : ¬ s.Fits c.line.length) :
    (s.emit c).config = s.config ∧ (s.emit c).bytes_written = 0 ∧
      (s.emit c).files = (s.turned c.removed).put s.file_path (some c.line) := by
  have hempty : (s.turned c.removed).content s.file_path = [] := content_put _ _ _
  unfold Logger.Fits at h
  unfold Logger.emit Logger.rotate_if_needed
  rw [if_neg hlevel]
  simp only [hs.enabled, hs.opened, hs.named, Bool.and_self, if_true, ne_eq, not_false_eq_true]
  rw [if_neg h]
  refine ⟨hs.config_eq.symm, rfl, ?_⟩
  exact congrArg (fun content => (s.turned c.removed).put s.file_path (some (content ++ c.line))) hempty

theorem Logger.Logs.emit (hs : s.Logs) : (s.emit c).Logs ∧ (s.emit c).config = s.config := by
  have hconfig : (s.emit c).config = s.config := by
    by_cases hlevel : c.level.toNat < s.level.toNat
    · rw [emit_below hlevel]
    · by_cases h : s.Fits c.line.length
      · exact (emit_fits hs hlevel h).1
      · exact (emit_rotates hs hlevel h).1
  obtain ⟨-, hpath, -, -, henabled, hopened⟩ := by simpa only [Logger.config, Prod.mk.injEq] using hconfig
  exact ⟨⟨henabled.trans hs.enabled, hopened.trans hs.opened, hpath ▸ hs.named⟩, hconfig⟩

theorem Logger.Logs.run (hs : s.Logs) (calls : List Call) : (s.run calls).Logs ∧ (s.run calls).config = s.config := by
  induction calls generalizing s with
  | nil => exact ⟨hs, rfl⟩
  | cons c calls ih =>
    obtain ⟨hlogs, hconfig⟩ := ih (hs.emit (c := c)).1
    exact ⟨hlogs, hconfig.trans hs.emit.2⟩

end

theorem run_concat (s : Logger) (calls : List Call) (c : Call) : s.run (calls ++ [c]) = (s.run calls).emit c :=
  List.foldl_concat _ _ _ _

theorem emitted_append (level : Level) (calls more : List Call) :
    emitted level (calls ++ more) = emitted level calls ++ emitted level more := by
  unfold emitted
  rw [List.filter_append, List.map_append]

theorem emitted_below {level : Level} {c : Call} (h : c.level.toNat < level.toNat) : emitted level [c] = [] := by
  unfold emitted
  simp [h]

theorem emitted_line {level : Level} {c : Call} (h : ¬ c.level.toNat < level.toNat) : emitted level [c] = [c.line] := by
  unfold emitted
  simp [h]

/-- `init` with a path was called with these. -/
structure Logger.Opened (s : Logger) (level : Level) (path : Bytes) (max_bytes keep_files : Nat) : Prop extends s.Logs where
  level_eq : s.level = level
  file_path_eq : s.file_path = path
  max_bytes_eq : s.max_bytes = max_bytes
  keep_files_eq : s.keep_files = keep_files

section
variable {files : Files} {level : Level} {path : Bytes} {max_bytes keep_files : Nat}

/-- The log that is written to the path. -/
def opened (files : Files) (level : Level) (path : Bytes) (max_bytes keep_files : Nat) : Logger :=
  (Logger.start files).init level path max_bytes keep_files

theorem opened_eq (hpath : path ≠ []) : opened files level path max_bytes keep_files =
    { level, file_path := path, max_bytes, keep_files, bytes_written := (files.content path).length, file_enabled := true,
      is_open := true, stderr_enabled := true, stderr := [], files := files.put path (some (files.content path)) } := if_pos hpath

theorem opened_run (hpath : path ≠ []) (calls : List Call) :
    ((opened files level path max_bytes keep_files).run calls).Opened level path max_bytes keep_files := by
  have hstart : (opened files level path max_bytes keep_files).Logs := by
    rw [opened_eq hpath]
    exact ⟨rfl, rfl, hpath⟩
  obtain ⟨hlogs, hconfig⟩ := hstart.run calls
  have hopened : (opened files level path max_bytes keep_files).config = (level, path, max_bytes, keep_files, true, true) := by
    rw [opened_eq hpath]
    rfl
  obtain ⟨hlevel, hfile, hmax, hkeep, -, -⟩ := by simpa only [Logger.config, Prod.mk.injEq] using hconfig.trans hopened
  exact ⟨hlogs, hlevel, hfile, hmax, hkeep⟩

end

end Hostely.Log
