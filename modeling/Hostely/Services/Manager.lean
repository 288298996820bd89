import Hostely.Lib.Text
/-!
# The container manager

`Manager` turns its calls into runs of the `container` CLI and reads what the
CLI prints. What a run of the CLI comes back with is a parameter: a
`CliResult`. The commands that change containers are kept as a record.
-/

open Hostely.Lib

namespace Hostely.Services

/-- `cli::Result` -/
structure CliResult where
  exit_code : Int
  stdout_text : Bytes
  stderr_text : Bytes

def CliResult.started (r : CliResult) : Bool := 0 ≤ r.exit_code

def CliResult.ok (r : CliResult) : Bool := r.exit_code = 0

structure RunOptions where
  name : Bytes
  image : Bytes
  ports : List (Bytes × Bytes)
  env : List (Bytes × Bytes)
  volumes : List (Bytes × Bytes)
  args : List Bytes
  dns : List Bytes
  memory : Bytes
deriving DecidableEq, Repr

structure ServiceInfo where
  id : Bytes
  name : Bytes
  image : Bytes
  status : Bytes
  ports : Bytes
deriving DecidableEq, Repr

inductive ManagerErrorKind where
  | CliNotFound | SystemNotStarted | BadInvocation | NonZeroExit
deriving DecidableEq, Repr

structure ManagerError where
  kind : ManagerErrorKind
  message : Bytes
  stderr_tail : Bytes
deriving DecidableEq, Repr

abbrev Outcome (α : Type) := Except ManagerError α

/-- A command that changes a container. -/
inductive Command where
  | stop (name : Bytes)
  | rm (name : Bytes)
  | start (name : Bytes)
  | run (argv : List Bytes)
deriving DecidableEq, Repr

structure Manager where
  cli_path : Bytes

def Manager.available (m : Manager) : Bool := m.cli_path ≠ []

def install_instructions : Bytes := bytes <|
  "Apple's `container` CLI is not installed.\n" ++
  "Install:\n" ++
  "  1. Download `container-installer-signed.pkg` from:\n" ++
  "       https://github.com/apple/container/releases\n" ++
  "  2. Run the installer (admin password required).\n" ++
  "  3. Start the system once:\n" ++
  "       container system start\n" ++
  "\n" ++
  "hostely will then be able to manage containers on this Mac."

/-! ## Reading a result -/

def tail (s : Bytes) (n : Nat) : Bytes := s.drop (s.length - n)

def contains_ci (hay needle : Bytes) : Bool := (findSub? (needle.map tolower) (hay.map tolower)).isSome

/-- The checks that `list` and `run` make on a result, ending in its output. -/
def read_result (r : CliResult) (what : Bytes) : Outcome Bytes :=
  if !r.started then .error ⟨.CliNotFound, bytes "could not launch container CLI", r.stderr_text⟩
  else if r.exit_code ≠ 0 then
    let err := tail r.stderr_text 2048
    if contains_ci err (bytes "system start") then
      .error ⟨.SystemNotStarted, bytes <|
        "the container system has not been started.\n" ++
        "  Run `container system start` once, then retry.", err⟩
    else .error ⟨.NonZeroExit, what, err⟩
  else .ok r.stdout_text

theorem read_result_ok_iff (r : CliResult) (what : Bytes) : (∃ text, read_result r what = .ok text) ↔ r.ok = true := by
  unfold read_result
  by_cases hok : r.exit_code = 0
  · simp [CliResult.started, CliResult.ok, hok]
  · simp only [hok, CliResult.ok, ne_eq, not_false_eq_true, if_true, decide_false, Bool.false_eq_true, iff_false]
    rintro ⟨text, h⟩
    split at h
    · cases h
    · split at h <;> cases h

theorem read_result_text {r : CliResult} {what text : Bytes} (h : read_result r what = .ok text) : text = r.stdout_text := by
  unfold read_result at h
  split at h
  · cases h
  · split at h
    · dsimp only at h
      split at h <;> cases h
    · exact (Except.ok.inj h).symm

/-! ## list -/

/-- One row of `container ls`; the words in the middle are read by guessing. -/
def parse_row (line : Bytes) : Option ServiceInfo :=
  let tokens := words line
  if tokens.length < 3 then none
  else
    let states := [bytes "running", bytes "stopped", bytes "starting", bytes "stopping", bytes "created"]
    let maybe_ports := tokens.getD (tokens.length - 2) []
    some {
      id := tokens.headD []
      image := tokens.getD 1 []
      status := ((tokens.drop 2).dropLast.find? (· ∈ states)).getD (tokens.getD 3 [])
      name := tokens.getLastD []
      ports := if 58 ∈ maybe_ports ∨ maybe_ports = bytes "-" ∨ maybe_ports.any isdigit then maybe_ports else [] }

/-- The first line that is not empty is the header. -/
def parse_ls (text : Bytes) : List ServiceInfo :=
  let rows := ((getlines text).filter (· ≠ [])).drop 1
  (rows.filter fun line => line.any fun c => c ≠ 32 ∧ c ≠ 45).filterMap parse_row

def Manager.list (m : Manager) (r : CliResult) : Outcome (List ServiceInfo) :=
  if !m.available then .error ⟨.CliNotFound, install_instructions, []⟩
  else (read_result r (bytes "container ls failed")).map parse_ls

/-! ## run and stop -/

def run_argv (cli_path : Bytes) (opts : RunOptions) : List Bytes :=
  [cli_path, bytes "run", bytes "-d", bytes "--name", opts.name] ++
  (opts.ports.flatMap fun (host, container) => [bytes "-p", host ++ bytes ":" ++ container]) ++
  (opts.env.flatMap fun (k, v) => [bytes "-e", k ++ bytes "=" ++ v]) ++
  (opts.volumes.flatMap fun (src, dst) => [bytes "-v", src ++ bytes ":" ++ dst]) ++
  (opts.dns.flatMap fun ns => [bytes "--dns", ns]) ++
  (if opts.memory ≠ [] then [bytes "--memory", opts.memory] else []) ++
  opts.image :: opts.args

/-- The container a command is about. -/
def Command.container : Command → Option Bytes
  | stop name | rm name | start name => some name
  | run argv => argv[4]?

theorem run_container (cli_path : Bytes) (opts : RunOptions) :
    (Command.run (run_argv cli_path opts)).container = some opts.name := rfl

/-- Whether `run` gets as far as the CLI. -/
def Manager.accepts (m : Manager) (opts : RunOptions) : Bool := m.available && opts.name ≠ [] && opts.image ≠ []

/-- `r` is what the CLI comes back with, if it is called. -/
def Manager.run (m : Manager) (r : CliResult) (opts : RunOptions) : List Command × Outcome Bytes :=
  if !m.available then ([], .error ⟨.CliNotFound, install_instructions, []⟩)
  else if opts.name = [] ∨ opts.image = [] then
    ([], .error ⟨.BadInvocation, bytes "both --name and --image are required", []⟩)
  else
    ([.run (run_argv m.cli_path opts)],
      (read_result r (bytes "container run failed")).map fun id =>
        (id.reverse.dropWhile fun c => c = 10 ∨ c = 13 ∨ c = 32).reverse)

theorem Manager.run_ok_iff (m : Manager) (r : CliResult) (opts : RunOptions) :
    (∃ id, (m.run r opts).2 = .ok id) ↔ m.accepts opts = true ∧ r.ok = true := by
  unfold Manager.run Manager.accepts
  cases m.available with
  | false => simp
  | true =>
    by_cases hargs : opts.name = [] ∨ opts.image = []
    · rw [if_neg (by decide), if_pos hargs]
      rcases hargs with h | h <;> simp [h]
    · rw [if_neg (by decide), if_neg hargs, ← read_result_ok_iff r (bytes "container run failed")]
      rw [not_or] at hargs
      cases read_result r (bytes "container run failed") <;> simp [hargs, Except.map]

/-- What `stop` sends; no caller depends on what it returns. -/
def Manager.stop (m : Manager) (name : Bytes) : List Command :=
  if !m.available ∨ name = [] then [] else [.stop name]

theorem Manager.run_container {m : Manager} {r : CliResult} {opts : RunOptions} :
    ∀ c ∈ (m.run r opts).1, c.container = some opts.name := by
  unfold Manager.run
  split
  · exact fun _ hc => absurd hc List.not_mem_nil
  · split
    · exact fun _ hc => absurd hc List.not_mem_nil
    · exact fun c hc => List.mem_singleton.1 hc ▸ Hostely.Services.run_container m.cli_path opts

/-- A run that succeeds was sent. -/
theorem Manager.run_sent {m : Manager} {r : CliResult} {opts : RunOptions} {id : Bytes} (h : (m.run r opts).2 = .ok id) :
    (m.run r opts).1 = [.run (run_argv m.cli_path opts)] := by
  unfold Manager.run at h ⊢
  split at h
  · cases h
  · split at h
    · cases h
    · rw [if_neg ‹_›, if_neg ‹_›]

/-- `logs`; whether it follows is a word of the command line. -/
def Manager.logs (m : Manager) (r : CliResult) (name : Bytes) : Outcome Bytes :=
  if !m.available then .error ⟨.CliNotFound, install_instructions, []⟩
  else if name = [] then .error ⟨.BadInvocation, bytes "service name is required", []⟩
  else if !r.started then .error ⟨.CliNotFound, bytes "could not launch container CLI", r.stderr_text⟩
  else if r.exit_code ≠ 0 then .error ⟨.NonZeroExit, bytes "container logs failed", tail r.stderr_text 2048⟩
  else .ok r.stdout_text

theorem Manager.logs_ok {m : Manager} {r : CliResult} {name : Bytes} (hm : m.available = true) (hname : name ≠ [])
    (hr : r.ok = true) : m.logs r name = .ok r.stdout_text := by
  have hcode : r.exit_code = 0 := of_decide_eq_true hr
  unfold Manager.logs
  rw [if_neg (by simp [hm]), if_neg hname, if_neg (by simp [CliResult.started, hcode]), if_neg (by simp [hcode])]

theorem Manager.stop_container {m : Manager} {name : Bytes} : ∀ c ∈ m.stop name, c.container = some name := by
  unfold Manager.stop
  split
  · exact fun _ hc => absurd hc List.not_mem_nil
  · exact fun c hc => List.mem_singleton.1 hc ▸ rfl

end Hostely.Services
