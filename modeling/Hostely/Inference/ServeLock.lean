import Hostely.Lib.Fallible
import Hostely.Lib.Json
import Hostely.Lib.Runs
import Hostely.Lib.SortedMap
/-!
# The serve lock

The file in which a server publishes its model, and what several `hostely serve`
do to it: each writes it before it binds its port and removes it when it fails to
bind, when it is stopped and when it is done, and none looks whose it is.
-/

open Hostely.Lib

namespace Hostely.Inference

/-! ## The file -/

/-- Snapshot of a running `hostely serve`. -/
structure ServeLock where
  pid : Int64 := 0
  model_path : Bytes := []
  display_name : Bytes := []
  quant_name : Bytes := []
  params : UInt64 := 0
  tensor_bytes : UInt64 := 0
  kv_state_bytes : UInt64 := 0
  peak_rss_bytes : UInt64 := 0
  ctx_size : Int32 := 0
  ctx_train : Int32 := 0
  port : Int32 := 0
  started_at : Bytes := []
deriving DecidableEq

/-- What the JSON parser makes of the lock file, if there is the file: the text of
its exception, or a value. -/
abbrev LockFile := Option (Except Bytes Json)

/-- What is written at the time `now`. -/
def lock_json (lock : ServeLock) (now : Bytes) : Json := .obj [
  (bytes "ctx_size", .num lock.ctx_size.toInt),
  (bytes "ctx_train", .num lock.ctx_train.toInt),
  (bytes "display_name", .str lock.display_name),
  (bytes "kv_state_bytes", .num lock.kv_state_bytes.toNat),
  (bytes "model_path", .str lock.model_path),
  (bytes "params", .num lock.params.toNat),
  (bytes "peak_rss_bytes", .num lock.peak_rss_bytes.toNat),
  (bytes "pid", .num lock.pid.toInt),
  (bytes "port", .num lock.port.toInt),
  (bytes "quant_name", .str lock.quant_name),
  (bytes "started_at", .str (if lock.started_at = [] then now else lock.started_at)),
  (bytes "tensor_bytes", .num lock.tensor_bytes.toNat)]

/-- How far the write came. -/
inductive Written where
  /-- The directory or the file could not be opened. -/
  | not_opened
  /-- Part of the text, which does not parse. -/
  | torn (what : Bytes)
  | whole (good : Bool)
deriving DecidableEq

/-- What `write_serve_lock` returns. -/
def Written.ok : Written → Bool
  | .whole good => good
  | _ => false

/-- The file after `write_serve_lock`. -/
def write_serve_lock (lock : ServeLock) (now : Bytes) (w : Written) (file : LockFile) : LockFile :=
  match w with
  | .not_opened => file
  | .torn what => some (.error what)
  | .whole _ => some (.ok (lock_json lock now))

def remove_serve_lock (removed : Bool) (file : LockFile) : LockFile := if removed then none else file

def read_lock (j : Json) : Option ServeLock := do
  return {
    pid := ← j.value_long (bytes "pid") 0
    model_path := ← j.value_string (bytes "model_path") []
    display_name := ← j.value_string (bytes "display_name") []
    quant_name := ← j.value_string (bytes "quant_name") []
    params := ← j.value_ulong (bytes "params") 0
    tensor_bytes := ← j.value_ulong (bytes "tensor_bytes") 0
    kv_state_bytes := ← j.value_ulong (bytes "kv_state_bytes") 0
    peak_rss_bytes := ← j.value_ulong (bytes "peak_rss_bytes") 0
    ctx_size := ← j.value_int (bytes "ctx_size") 0
    ctx_train := ← j.value_int (bytes "ctx_train") 0
    port := ← j.value_int (bytes "port") 0
    started_at := ← j.value_string (bytes "started_at") [] }

/-- What `read_serve_lock` returns. -/
structure Reading where
  lock : Option ServeLock
  error : Bytes
  stale : Bool
deriving DecidableEq

section
/- `kill` finds a process, of whatever user; the text of the exception when a field
has another type; whether the file can be opened. -/
variable (kill : Int32 → Bool) (what : Json → Bytes) (path : Bytes) (opened : Bool)

def pid_alive (pid : Int64) : Bool := 0 < pid && kill pid.toInt32

def read_serve_lock : LockFile → Reading
  | none => ⟨none, [], false⟩
  | some text =>
    if opened then
      match text with
      | .error what => ⟨none, bytes "serve lock is corrupt: " ++ what, false⟩
      | .ok j =>
        match read_lock j with
        | none => ⟨none, bytes "serve lock is corrupt: " ++ what j, false⟩
        | some lock =>
          if pid_alive kill lock.pid then ⟨some lock, [], false⟩
          else ⟨some lock, bytes "lock is stale (pid " ++ to_string lock.pid.toInt ++
            bytes " is gone; safe to start a new serve)", true⟩
    else ⟨none, bytes "serve lock exists but could not be read: " ++ path, false⟩

end

/-- The lock in the file. -/
def LockFile.lock (file : LockFile) : Option ServeLock := file.bind fun text => text.toOption.bind read_lock

def lock_keys : List Bytes :=
  ["ctx_size", "ctx_train", "display_name", "kv_state_bytes", "model_path", "params", "peak_rss_bytes", "pid", "port",
    "quant_name", "started_at", "tensor_bytes"].map bytes

/-- What is written is read back, with the time filled in. -/
theorem read_lock_json (lock : ServeLock) (now : Bytes) :
    read_lock (lock_json lock now) =
      some { lock with started_at := if lock.started_at = [] then now else lock.started_at } := by
  have hkeys : lock_keys.Nodup := by decide +kernel
  have hvalue (i : Nat) (key : Bytes) (v dflt : Json)
      (h : (Json.items (lock_json lock now))[i]? = some (key, v)) : (lock_json lock now).value key dflt = some v :=
    @Json.value_of_mem key v (Json.items (lock_json lock now)) hkeys (List.mem_of_getElem? h) dflt
  unfold read_lock Json.value_long Json.value_ulong Json.value_int Json.value_string
  rw [hvalue 7 _ _ _ rfl, hvalue 4 _ _ _ rfl, hvalue 2 _ _ _ rfl, hvalue 9 _ _ _ rfl, hvalue 5 _ _ _ rfl,
    hvalue 11 _ _ _ rfl, hvalue 3 _ _ _ rfl, hvalue 6 _ _ _ rfl, hvalue 0 _ _ _ rfl, hvalue 1 _ _ _ rfl,
    hvalue 8 _ _ _ rfl, hvalue 10 _ _ _ rfl]
  simp [Json.long, Json.ulong_num, Json.int, Json.string, Int64.ofInt_toInt, Int32.ofInt_toInt]

/-- A lock written whole names its process. -/
theorem write_pid (lock : ServeLock) (now : Bytes) (good : Bool) (file : LockFile) :
    ∃ lock', (write_serve_lock lock now (.whole good) file).lock = some lock' ∧ lock'.pid = lock.pid := by
  have hread : (write_serve_lock lock now (.whole good) file).lock = read_lock (lock_json lock now) := rfl
  rw [hread, read_lock_json]
  exact ⟨_, rfl, rfl⟩

/-! ## The processes -/

/-- What of the loaded model goes into the lock. -/
structure LoadedModel where
  path : Bytes
  display_name : Bytes
  quant_name : Bytes
  params : UInt64
  tensor_bytes : UInt64
  kv_state_bytes : UInt64
  ctx_train : Int32
deriving DecidableEq

structure ServeOptions where
  ctx_size : Int32
  port : Int32
deriving DecidableEq

def serve_lock (pid : Int32) (loaded : LoadedModel) (peak_rss : UInt64) (options : ServeOptions) : ServeLock where
  pid := pid.toInt64
  model_path := loaded.path
  display_name := loaded.display_name
  quant_name := loaded.quant_name
  params := loaded.params
  tensor_bytes := loaded.tensor_bytes
  kv_state_bytes := loaded.kv_state_bytes
  peak_rss_bytes := peak_rss
  ctx_size := options.ctx_size
  ctx_train := loaded.ctx_train
  port := options.port

/-- Where `start` is. -/
inductive Phase where
  | loading
  /-- The lock is written, or was tried to. -/
  | ready (wrote : Bool)
  | listening (wrote : Bool)
  /-- `listen` has returned. -/
  | returned
  | done
  | exited
deriving DecidableEq

def Phase.is_listening : Phase → Bool
  | listening _ => true
  | _ => false

/-- `svr.stop()` ends a `listen` that runs. -/
def Phase.stopped : Phase → Phase
  | listening _ => returned
  | phase => phase

structure Process where
  options : ServeOptions
  phase : Phase
  /-- The calls of `stop` that have yet to remove the lock. -/
  stops : Nat
deriving DecidableEq

/-- The processes by pid, and the file they share. -/
structure Host where
  procs : List (Int32 × Process)
  lock : LockFile

namespace Host

inductive Act where
  | spawn (pid : Int32) (options : ServeOptions)
  | write_lock (pid : Int32) (loaded : LoadedModel) (peak_rss : UInt64) (now : Bytes) (w : Written)
  | listen (pid : Int32) (bound : Bool)
  | stop (pid : Int32)
  /-- The end of a call of `stop`. -/
  | stop_removes (pid : Int32) (removed : Bool)
  /-- The end of `start`. -/
  | start_removes (pid : Int32) (removed : Bool)
  /-- By itself or killed. -/
  | exit (pid : Int32)

def Act.pid : Act → Int32
  | spawn pid _ | write_lock pid _ _ _ _ | listen pid _ | stop pid | stop_removes pid _ | start_removes pid _ | exit pid => pid

def phase (s : Host) (pid : Int32) : Phase := ((s.procs.lookup pid).map Process.phase).getD .exited

def put (s : Host) (pid : Int32) (p : Process) : Host := { s with procs := assign pid p s.procs }

/-- Nobody listens on the port. -/
def port_free (s : Host) (port : Int32) : Bool := !s.procs.any fun e => e.2.phase.is_listening && e.2.options.port = port

/-- What the process does, from `p`; `none` when it is not there to do it. -/
def act (s : Host) (p : Process) : Act → Option Host
  | .spawn _ _ => none
  | .write_lock pid loaded peak_rss now w =>
    if p.phase = .loading then some {
      s.put pid { p with phase := .ready w.ok } with
      lock := write_serve_lock (serve_lock pid loaded peak_rss p.options) now w s.lock }
    else none
  | .listen pid bound =>
    match p.phase with
    | .ready wrote =>
      -- a bind can fail on a free port too
      if bound then if s.port_free p.options.port then some (s.put pid { p with phase := .listening wrote }) else none
      else some (s.put pid { p with phase := .returned })
    | _ => none
  | .stop pid =>
    if p.phase ≠ .exited then some (s.put pid { p with phase := p.phase.stopped, stops := p.stops + 1 }) else none
  | .stop_removes pid removed =>
    if p.phase ≠ .exited ∧ 0 < p.stops then some {
      s.put pid { p with stops := p.stops - 1 } with lock := remove_serve_lock removed s.lock }
    else none
  | .start_removes pid removed =>
    if p.phase = .returned then some {
      s.put pid { p with phase := .done } with lock := remove_serve_lock removed s.lock }
    else none
  | .exit pid => if p.phase ≠ .exited then some (s.put pid { p with phase := .exited }) else none

def next (s : Host) (a : Act) : Option Host :=
  match a with
  | .spawn pid options =>
    if 0 < pid ∧ s.phase pid = .exited then some (s.put pid ⟨options, .loading, 0⟩) else none
  | a => (s.procs.lookup a.pid).bind fun p => s.act p a

/-- Nothing runs; a lock may have been left behind. -/
def boot (lock : LockFile) : Host := ⟨[], lock⟩

/-- The host after some steps, if they can be taken. -/
def run (lock : LockFile) (acts : List Act) : Option Host := acts.foldlM next (boot lock)

def Listening (s : Host) (pid : Int32) : Prop := (s.phase pid).is_listening = true

/-- A server listens that wrote its lock. -/
def Published (s : Host) (pid : Int32) : Prop := s.phase pid = .listening true

/-- The lock in the file is that of the process. -/
def Names (s : Host) (pid : Int32) : Prop := ∃ lock, s.lock.lock = some lock ∧ lock.pid = pid.toInt64

/-- No server that wrote its lock listens. -/
def Silent (s : Host) : Prop := ∀ pid, ¬ s.Published pid

/-- What `kill` finds: the processes that serve, and others. -/
def kill (s : Host) (others : Int32 → Bool) (pid : Int32) : Bool := s.phase pid ≠ .exited || others pid

/-- When a server that wrote its lock listens, the lock that is read is that of a
server that listens. -/
def Owned (others : Int32 → Bool) (what : Json → Bytes) (path : Bytes) (s : Host) : Prop :=
  (∃ pid, s.Published pid) → ∃ pid lock, s.Listening pid ∧ lock.pid = pid.toInt64 ∧
    read_serve_lock (s.kill others) what path true s.lock = ⟨some lock, [], false⟩

/-- The step leaves the lock to a server that listens: it is written and removed
only while no server that wrote its own listens, who wrote it listens only as long
as the file has it or that of another that listens, and the server it names does
not go before the others that wrote theirs. -/
def Leaves (s : Host) : Act → Prop
  | .spawn _ _ => True
  | .write_lock _ _ _ _ w => w = .not_opened ∨ s.Silent
  | .listen pid bound => bound = true → s.phase pid = .ready true → s.Names pid ∨ ∃ q, s.Listening q ∧ s.Names q
  | .stop pid | .exit pid => s.Names pid → ∀ q, q ≠ pid → ¬ s.Published q
  | .stop_removes _ removed | .start_removes _ removed => removed = true → s.Silent

/-! ## What a step does -/

section Steps
variable {s t : Host} {pid q : Int32}

theorem phase_put (s : Host) (pid : Int32) (p : Process) (q : Int32) :
    (s.put pid p).phase q = if q = pid then p.phase else s.phase q := by
  unfold phase put
  rw [lookup_assign]
  by_cases hq : q = pid <;> simp [hq]

theorem phase_lookup {p : Process} (h : s.procs.lookup pid = some p) : s.phase pid = p.phase := by
  unfold phase
  rw [h]
  rfl

/-- The phase of the process after the step, and the file. -/
def Effect (s t : Host) : Act → Prop
  | .spawn pid _ => 0 < pid ∧ s.phase pid = .exited ∧ t.phase pid = .loading ∧ t.lock = s.lock
  | .write_lock pid loaded peak_rss now w => s.phase pid = .loading ∧ t.phase pid = .ready w.ok ∧
      ∃ options, t.lock = write_serve_lock (serve_lock pid loaded peak_rss options) now w s.lock
  | .listen pid bound => ∃ wrote, s.phase pid = .ready wrote ∧
      t.phase pid = (if bound then .listening wrote else .returned) ∧ t.lock = s.lock
  | .stop pid => s.phase pid ≠ .exited ∧ t.phase pid = (s.phase pid).stopped ∧ t.lock = s.lock
  | .stop_removes pid removed => s.phase pid ≠ .exited ∧ t.phase pid = s.phase pid ∧
      t.lock = remove_serve_lock removed s.lock
  | .start_removes pid removed => s.phase pid = .returned ∧ t.phase pid = .done ∧
      t.lock = remove_serve_lock removed s.lock
  | .exit pid => s.phase pid ≠ .exited ∧ t.phase pid = .exited ∧ t.lock = s.lock

theorem act_some {p : Process} {a : Act} (hp : s.procs.lookup a.pid = some p) (h : s.act p a = some t) :
    (∀ q, q ≠ a.pid → t.phase q = s.phase q) ∧ s.Effect t a := by
  have hphase := phase_lookup hp
  have hother (p' : Process) (q : Int32) (hq : q ≠ a.pid) : (s.put a.pid p').phase q = s.phase q := by
    rw [phase_put, if_neg hq]
  have hself (p' : Process) : (s.put a.pid p').phase a.pid = p'.phase := by rw [phase_put, if_pos rfl]
  cases a with
  | spawn pid options => cases h
  | write_lock pid loaded peak_rss now w =>
    obtain ⟨hloading, h⟩ := Option.ite_none_right_eq_some.1 h
    obtain rfl := Option.some.inj h
    exact ⟨hother _, hphase.trans hloading, hself _, p.options, rfl⟩
  | listen pid bound =>
    dsimp only [act] at h
    split at h
    · rename_i wrote hready
      cases bound with
      | true =>
        obtain ⟨-, h⟩ := Option.ite_none_right_eq_some.1 h
        obtain rfl := Option.some.inj h
        exact ⟨hother _, wrote, hphase.trans hready, hself _, rfl⟩
      | false =>
        obtain rfl := Option.some.inj h
        exact ⟨hother _, wrote, hphase.trans hready, hself _, rfl⟩
    · cases h
  | stop pid =>
    obtain ⟨hthere, h⟩ := Option.ite_none_right_eq_some.1 h
    obtain rfl := Option.some.inj h
    exact ⟨hother _, hphase ▸ hthere, (hself _).trans (congrArg Phase.stopped hphase.symm), rfl⟩
  | stop_removes pid removed =>
    obtain ⟨⟨hthere, -⟩, h⟩ := Option.ite_none_right_eq_some.1 h
    obtain rfl := Option.some.inj h
    exact ⟨hother _, hphase ▸ hthere, (hself _).trans hphase.symm, rfl⟩
  | start_removes pid removed =>
    obtain ⟨hreturned, h⟩ := Option.ite_none_right_eq_some.1 h
    obtain rfl := Option.some.inj h
    exact ⟨hother _, hphase.trans hreturned, hself _, rfl⟩
  | exit pid =>
    obtain ⟨hthere, h⟩ := Option.ite_none_right_eq_some.1 h
    obtain rfl := Option.some.inj h
    exact ⟨hother _, hphase ▸ hthere, hself _, rfl⟩

theorem next_some {a : Act} (h : s.next a = some t) : (∀ q, q ≠ a.pid → t.phase q = s.phase q) ∧ s.Effect t a := by
  cases a with
  | spawn pid options =>
    obtain ⟨⟨hpid, hexited⟩, h⟩ := Option.ite_none_right_eq_some.1 h
    obtain rfl := Option.some.inj h
    exact ⟨fun q hq => (phase_put _ _ _ _).trans (if_neg hq), hpid, hexited, (phase_put _ _ _ _).trans (if_pos rfl), rfl⟩
  | _ =>
    obtain ⟨p, hp, h⟩ := Option.bind_eq_some_iff.1 h
    exact act_some hp h

/-- Processes that run have pids. -/
theorem run_pos {lock : LockFile} {acts : List Act} (h : run lock acts = some s) : ∀ pid, s.phase pid ≠ .exited → 0 < pid := by
  refine foldlM_some_inv (fun s => ∀ pid, s.phase pid ≠ .exited → 0 < pid) (fun pid h => absurd rfl h) ?_ h
  intro s a _ t hs hstep pid hpid
  obtain ⟨hother, heffect⟩ := next_some hstep
  by_cases hself : pid = a.pid
  · subst hself
    cases a with
    | spawn _ _ => exact heffect.1
    | write_lock _ _ _ _ _ | start_removes _ _ => exact hs _ (ne_of_eq_of_ne heffect.1 nofun)
    | listen _ _ =>
      obtain ⟨wrote, hready, -⟩ := heffect
      exact hs _ (ne_of_eq_of_ne hready nofun)
    | stop _ | stop_removes _ _ | exit _ => exact hs _ heffect.1
  · exact hs pid (hother pid hself ▸ hpid)

end Steps

/-! ## Whose lock it is -/

section Ownership
variable {s t : Host} {pid q : Int32}

theorem names_unique {p : Int32} (hp : s.Names p) (hq : s.Names q) : p = q := by
  obtain ⟨lock, hlock, hp⟩ := hp
  obtain ⟨lock', hlock', hq⟩ := hq
  obtain rfl := Option.some.inj (hlock.symm.trans hlock')
  rw [← Int32.toInt32_toInt64 p, ← hp, hq, Int32.toInt32_toInt64]

/-- The file has the lock of a server that listens, if it needs one. -/
def Served (s : Host) : Prop := s.Silent ∨ ∃ q, s.Listening q ∧ s.Names q

theorem read_serve_lock_live {kill : Int32 → Bool} {what : Json → Bytes} {path : Bytes} {file : LockFile} {lock : ServeLock} :
    read_serve_lock kill what path true file = ⟨some lock, [], false⟩ ↔ file.lock = some lock ∧ pid_alive kill lock.pid = true := by
  cases file with
  | none => simp [read_serve_lock, LockFile.lock]
  | some text =>
    cases text with
    | error e => simp [read_serve_lock, LockFile.lock, Except.toOption]
    | ok j =>
      cases hread : read_lock j with
      | none => simp [read_serve_lock, LockFile.lock, Except.toOption, hread]
      | some lock' =>
        have hlock : LockFile.lock (some (.ok j)) = some lock' := hread
        rw [hlock]
        cases halive : pid_alive kill lock'.pid with
        | true =>
          have hreads : read_serve_lock kill what path true (some (.ok j)) = ⟨some lock', [], false⟩ := by
            simp [read_serve_lock, hread, halive]
          rw [hreads, Reading.mk.injEq, and_iff_left ⟨rfl, rfl⟩]
          exact ⟨fun h => ⟨h, Option.some.inj h ▸ halive⟩, And.left⟩
        | false =>
          have hstale : (read_serve_lock kill what path true (some (.ok j))).stale = true := by
            simp [read_serve_lock, hread, halive]
          constructor
          · intro h
            rw [h] at hstale
            cases hstale
          · rintro ⟨h, h'⟩
            rw [← Option.some.inj h, halive] at h'
            cases h'

variable {others : Int32 → Bool} {what : Json → Bytes} {path : Bytes}

theorem owned_iff (hpos : ∀ pid, s.phase pid ≠ .exited → 0 < pid) : s.Owned others what path ↔ s.Served := by
  have hreads (pid : Int32) (lock : ServeLock) (hlistens : s.Listening pid) (hpid : lock.pid = pid.toInt64) :
      read_serve_lock (s.kill others) what path true s.lock = ⟨some lock, [], false⟩ ↔ s.lock.lock = some lock := by
    have hthere : s.phase pid ≠ .exited := by
      intro h
      rw [Listening, h] at hlistens
      cases hlistens
    have hzero : (0 : Int32).toInt64 < pid.toInt64 := Int32.toInt64_lt.2 (hpos pid hthere)
    rw [show (0 : Int32).toInt64 = 0 by decide] at hzero
    have halive : pid_alive (s.kill others) lock.pid = true := by
      simp [pid_alive, kill, hpid, hthere, hzero]
    rw [read_serve_lock_live, and_iff_left halive]
  constructor
  · intro h
    by_cases hpublished : ∃ pid, s.Published pid
    · obtain ⟨pid, lock, hlistens, hpid, hread⟩ := h hpublished
      exact .inr ⟨pid, hlistens, lock, (hreads pid lock hlistens hpid).1 hread, hpid⟩
    · exact .inl (not_exists.1 hpublished)
  · rintro (hsilent | ⟨pid, hlistens, lock, hlock, hpid⟩) hpublished
    · exact absurd hpublished (not_exists.2 hsilent)
    · exact ⟨pid, lock, hlistens, hpid, (hreads pid lock hlistens hpid).2 hlock⟩

/-- The same processes listen. -/
def SameListeners (s t : Host) : Prop := ∀ q wrote, t.phase q = .listening wrote ↔ s.phase q = .listening wrote

theorem quiet_same (hother : ∀ q, q ≠ pid → t.phase q = s.phase q) (hs : (s.phase pid).is_listening = false)
    (ht : (t.phase pid).is_listening = false) : SameListeners s t := by
  intro q wrote
  by_cases hq : q = pid
  · subst hq
    constructor
    · intro h
      rw [h] at ht
      cases ht
    · intro h
      rw [h] at hs
      cases hs
  · rw [hother q hq]

theorem listening_iff : s.Listening q ↔ ∃ wrote, s.phase q = .listening wrote := by
  unfold Listening
  cases s.phase q <;> simp [Phase.is_listening]

theorem SameListeners.silent (h : SameListeners s t) : t.Silent ↔ s.Silent :=
  forall_congr' fun q => not_congr (h q true)

theorem SameListeners.listening (h : SameListeners s t) (q : Int32) : t.Listening q ↔ s.Listening q := by
  rw [listening_iff, listening_iff]
  exact exists_congr fun wrote => h q wrote

theorem served_same (h : SameListeners s t) (hlock : t.lock = s.lock) : t.Served ↔ s.Served := by
  unfold Served
  rw [h.silent]
  simp only [h.listening, Names, hlock]

/-- A lock that names no server that listens will do if none is to be named. -/
theorem served_lost (h : SameListeners s t) (hlost : ∀ q, t.Names q → ¬ s.Listening q) : t.Served ↔ s.Silent := by
  unfold Served
  rw [h.silent]
  refine or_iff_left ?_
  rintro ⟨q, hq, hnames⟩
  exact hlost q hnames ((h.listening q).1 hq)

theorem served_removed (h : SameListeners s t) (hs : s.Served) {removed : Bool}
    (hlock : t.lock = remove_serve_lock removed s.lock) : t.Served ↔ (removed = true → s.Silent) := by
  cases removed with
  | true =>
    -- without a file no server is named
    rw [served_lost h, forall_prop_of_true rfl]
    rintro q ⟨lock, hq, -⟩
    rw [hlock] at hq
    cases hq
  | false =>
    rw [served_same h hlock]
    exact iff_of_true hs nofun

theorem served_written (h : SameListeners s t) (hs : s.Served) (hpid : (s.phase pid).is_listening = false) {w : Written}
    {loaded : LoadedModel} {peak_rss : UInt64} {options : ServeOptions} {now : Bytes}
    (hlock : t.lock = write_serve_lock (serve_lock pid loaded peak_rss options) now w s.lock) :
    t.Served ↔ (w = .not_opened ∨ s.Silent) := by
  cases w with
  | not_opened =>
    rw [served_same h hlock]
    exact iff_of_true hs (.inl rfl)
  | torn what =>
    rw [served_lost h, or_iff_right nofun]
    rintro q ⟨lock, hq, -⟩
    rw [hlock] at hq
    cases hq
  | whole good =>
    rw [served_lost h, or_iff_right nofun]
    -- the lock now names the process that wrote it, which does not listen yet
    have hnames : t.Names pid := by
      unfold Names
      rw [hlock]
      exact write_pid _ now good s.lock
    intro q hq hlistens
    rw [names_unique hq hnames, Listening, hpid] at hlistens
    cases hlistens

/-- A process that stops or exits leaves the others. -/
theorem served_gone (hother : ∀ q, q ≠ pid → t.phase q = s.phase q) (ht : (t.phase pid).is_listening = false)
    (hlock : t.lock = s.lock) (hs : s.Served) : t.Served ↔ (s.Names pid → ∀ q, q ≠ pid → ¬ s.Published q) := by
  have hnames (q : Int32) : t.Names q ↔ s.Names q := by unfold Names; rw [hlock]
  have hne {q : Int32} (hq : t.Listening q) : q ≠ pid := by
    rintro rfl
    rw [Listening, ht] at hq
    cases hq
  constructor
  · rintro (hsilent | ⟨n, hn, hnamed⟩) hpid q hq hpublished
    · exact hsilent q ((hother q hq).trans hpublished)
    · exact hne hn (names_unique ((hnames n).1 hnamed) hpid)
  · intro h
    rcases hs with hsilent | ⟨n, hn, hnamed⟩
    · left
      intro q hq
      have hqp : q ≠ pid := hne (listening_iff.2 ⟨true, hq⟩)
      exact hsilent q ((hother q hqp).symm.trans hq)
    · by_cases hpid : n = pid
      · -- the server the lock names goes, so none may be left that wrote its own
        left
        subst hpid
        intro q hq
        have hqp : q ≠ n := hne (listening_iff.2 ⟨true, hq⟩)
        exact h hnamed q hqp ((hother q hqp).symm.trans hq)
      · refine .inr ⟨n, ?_, (hnames n).2 hnamed⟩
        rw [Listening, hother n hpid]
        exact hn

theorem served_bound {wrote : Bool} (hother : ∀ q, q ≠ pid → t.phase q = s.phase q) (hready : s.phase pid = .ready wrote)
    (ht : t.phase pid = .listening wrote) (hlock : t.lock = s.lock) (hs : s.Served) :
    t.Served ↔ (s.phase pid = .ready true → s.Names pid ∨ ∃ q, s.Listening q ∧ s.Names q) := by
  have hnames (q : Int32) : t.Names q ↔ s.Names q := by unfold Names; rw [hlock]
  have hlistens (q : Int32) : t.Listening q ↔ q = pid ∨ s.Listening q := by
    by_cases hq : q = pid
    · subst hq
      simp [Listening, ht, Phase.is_listening]
    · simp [Listening, hother q hq, hq]
  have hnamed : (∃ q, t.Listening q ∧ t.Names q) ↔ s.Names pid ∨ ∃ q, s.Listening q ∧ s.Names q := by
    simp only [hlistens, hnames, or_and_right, exists_or, exists_eq_left]
  unfold Served
  rw [hnamed, hready, Phase.ready.injEq]
  constructor
  · rintro (hsilent | h) hwrote
    · subst hwrote
      exact absurd ht (hsilent pid)
    · exact h
  · intro h
    cases wrote with
    | true => exact .inr (h rfl)
    | false =>
      -- a server that wrote no lock needs none
      rcases hs with hsilent | h
      · left
        intro q hq
        by_cases hqp : q = pid
        · subst hqp
          rw [Published, ht] at hq
          cases hq
        · exact hsilent q ((hother q hqp).symm.trans hq)
      · exact .inr (.inr h)

/-- From a state whose lock is right, a step leads to such a state exactly if it
leaves the lock to a server that listens. -/
theorem served_step {a : Act} (h : s.next a = some t) (hs : s.Served) : t.Served ↔ s.Leaves a := by
  obtain ⟨hother, heffect⟩ := next_some h
  have hquiet {p p' : Phase} (hp : s.phase a.pid = p) (hp' : t.phase a.pid = p') (hl : p.is_listening = false)
      (hl' : p'.is_listening = false) : SameListeners s t := quiet_same hother (hp ▸ hl) (hp' ▸ hl')
  cases a with
  | spawn pid options =>
    obtain ⟨-, hexited, hloading, hlock⟩ := heffect
    exact iff_of_true ((served_same (hquiet hexited hloading rfl rfl) hlock).2 hs) trivial
  | write_lock pid loaded peak_rss now w =>
    obtain ⟨hloading, hready, options, hlock⟩ := heffect
    exact served_written (hquiet hloading hready rfl rfl) hs (hloading ▸ rfl) hlock
  | listen pid bound =>
    obtain ⟨wrote, hready, hphase, hlock⟩ := heffect
    cases bound with
    | true => exact (served_bound hother hready hphase hlock hs).trans ⟨fun h _ => h, fun h => h rfl⟩
    | false => exact iff_of_true ((served_same (hquiet hready hphase rfl rfl) hlock).2 hs) nofun
  | stop pid =>
    obtain ⟨-, hphase, hlock⟩ := heffect
    refine served_gone hother ?_ hlock hs
    show (t.phase pid).is_listening = false
    rw [hphase]
    cases s.phase pid <;> rfl
  | stop_removes pid removed =>
    obtain ⟨-, hphase, hlock⟩ := heffect
    refine served_removed (fun q wrote => ?_) hs hlock
    by_cases hq : q = pid
    · rw [hq, hphase]
    · rw [hother q hq]
  | start_removes pid removed =>
    obtain ⟨hreturned, hdone, hlock⟩ := heffect
    exact served_removed (hquiet hreturned hdone rfl rfl) hs hlock
  | exit pid =>
    obtain ⟨-, hphase, hlock⟩ := heffect
    exact served_gone hother (show (t.phase pid).is_listening = false by rw [hphase]; rfl) hlock hs

end Ownership

/-- In every state of a run the lock is that of a server that listens, if one that
wrote its own does, exactly when every step leaves it to one. -/
theorem serve_lock_owned_iff (others : Int32 → Bool) (what : Json → Bytes) (path : Bytes) (lock : LockFile) (acts : List Act) :
    (∀ pre post s, acts = pre ++ post → run lock pre = some s → s.Owned others what path) ↔
      ∀ pre a post s t, acts = pre ++ a :: post → run lock pre = some s → s.next a = some t → s.Leaves a := by
  have hserved : (∀ pre post s, acts = pre ++ post → run lock pre = some s → s.Owned others what path) ↔
      ∀ pre post s, acts = pre ++ post → run lock pre = some s → s.Served := by
    refine forall_congr' fun pre => forall_congr' fun post => forall_congr' fun s => forall_congr' fun _ => ?_
    exact forall_congr' fun hs => owned_iff (run_pos hs)
  rw [hserved]
  have hboot : (boot lock).Served := .inl fun pid h => Phase.noConfusion h
  exact @runM_iff_steps Host Act next (boot lock) Served Leaves hboot (fun s a t h hs => (served_step h hs).2)
    (fun s a t h hs => mt (served_step h hs).1) acts

/-! ## Two servers on one port -/

def toyModel : LoadedModel := ⟨bytes "/models/llama.gguf", bytes "llama", bytes "Q4_K_M", 8, 16, 4, 4096⟩

/-- The second publishes its model, cannot bind and gives up. -/
def second_server : List Act := [
  .spawn 100 ⟨4096, 8080⟩, .write_lock 100 toyModel 20 (bytes "2025-01-01T00:00:00Z") (.whole true), .listen 100 true,
  .spawn 200 ⟨4096, 8080⟩, .write_lock 200 toyModel 20 (bytes "2025-01-01T00:01:00Z") (.whole true), .listen 200 false,
  .start_removes 200 true, .exit 200]

/-- The first still serves, and nothing seems to. -/
theorem second_server_removes_lock :
    (∃ s, run none second_server = some s ∧ s.Published 100 ∧
      ∀ others what path, read_serve_lock (s.kill others) what path true s.lock = ⟨none, [], false⟩) ∧
    ∀ others what path,
      ¬ ∀ pre post s, second_server = pre ++ post → run none pre = some s → s.Owned others what path := by
  have hend : (run none second_server).map (fun s => (s.phase 100, s.lock.isNone)) = some (.listening true, true) := by
    decide +kernel
  obtain ⟨s, hrun, hs⟩ := Option.map_eq_some_iff.1 hend
  obtain ⟨hphase, hnone⟩ := Prod.mk.inj hs
  have hread (others : Int32 → Bool) (what : Json → Bytes) (path : Bytes) :
      read_serve_lock (s.kill others) what path true s.lock = ⟨none, [], false⟩ := by
    rw [Option.isNone_iff_eq_none.1 hnone]
    rfl
  refine ⟨⟨s, hrun, hphase, hread⟩, fun others what path h => ?_⟩
  obtain ⟨pid, lock, -, -, hlock⟩ := h second_server [] s (List.append_nil _).symm hrun ⟨100, hphase⟩
  rw [hread] at hlock
  cases hlock

end Host

end Hostely.Inference
