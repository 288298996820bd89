import Hostely.Lib.Runs
import Hostely.Services.Manager
/-!
# Running a child

`cli::run` starts a child with its stdout and stderr on two pipes, drains first
the one and then the other to the end, and waits for the child. The child is a
list of writes; when all are done it closes both pipes and exits.
-/

open Hostely.Lib

namespace Hostely.Services.Cli

inductive Pipe where
  | stdout | stderr
deriving DecidableEq, Repr

/-- Where `run` is. -/
inductive Place where
  | drain (p : Pipe)
  | waitpid
  | returned
deriving DecidableEq, Repr

structure State where
  /-- The writes still to do; of the first one what is left of it. -/
  child : List (Pipe × Bytes)
  /-- The child has closed both pipes and exited. -/
  exited : Bool
  /-- What was written and not yet read. -/
  buffer : Pipe → Bytes
  place : Place
  /-- What `drain` has read from each pipe. -/
  text : Pipe → Bytes
  exit_code : Int

/-- A child was started. -/
def start (child : List (Pipe × Bytes)) : State := ⟨child, false, fun _ => [], .drain .stdout, fun _ => [], 0⟩

inductive Act where
  /-- The child's `write` puts some bytes into its pipe. -/
  | put (n : Nat)
  /-- It has put all its bytes and returns. -/
  | written
  /-- The child closes both pipes and exits with a status. -/
  | exit (status : UInt8)
  /-- `read` returns some bytes. -/
  | read (n : Nat)
  /-- `read` returns 0: the pipe is empty and closed. -/
  | eof
  /-- `waitpid` returns. -/
  | reap (status : UInt8)
deriving DecidableEq, Repr

/-- After the end of one pipe. -/
def after : Pipe → Place
  | .stdout => .drain .stderr
  | .stderr => .waitpid

section
variable (cap : Pipe → Nat) (status : UInt8)

/-- The next state, if the act can happen. A call that is interrupted is made
again, which changes nothing. -/
def next (s : State) : Act → Option State
  | .put n =>
    match s.child with
    | (p, data) :: rest =>
      if 0 < n ∧ n ≤ data.length ∧ (s.buffer p).length + n ≤ cap p then
        some { s with
          child := (p, data.drop n) :: rest
          buffer := Function.update s.buffer p (s.buffer p ++ data.take n) }
      else none
    | [] => none
  | .written =>
    match s.child with
    | (_, []) :: rest => some { s with child := rest }
    | _ => none
  | .exit e => if s.child = [] ∧ s.exited = false ∧ e = status then some { s with exited := true } else none
  | .read n =>
    match s.place with
    | .drain p =>
      if 0 < n ∧ n ≤ 4096 ∧ n ≤ (s.buffer p).length then
        some { s with
          buffer := Function.update s.buffer p ((s.buffer p).drop n)
          text := Function.update s.text p (s.text p ++ (s.buffer p).take n) }
      else none
    | _ => none
  | .eof =>
    match s.place with
    | .drain p => if s.buffer p = [] ∧ s.exited then some { s with place := after p } else none
    | _ => none
  | .reap e =>
    if s.place = .waitpid ∧ s.exited ∧ e = status then some { s with place := .returned, exit_code := e.toNat }
    else none

def step (s : State) (a : Act) (t : State) : Prop := next cap status s a = some t

/-- `run` has not returned, and neither it nor the child can do anything. -/
def Stuck (s : State) : Prop := s.place ≠ .returned ∧ ∀ a, next cap status s a = none

end

/-- What `run` returns. -/
def State.result (s : State) : CliResult := ⟨s.exit_code, s.text .stdout, s.text .stderr⟩

/-- What a list of writes puts into one pipe. -/
def written (p : Pipe) (child : List (Pipe × Bytes)) : Bytes := child.flatMap fun w => if w.1 = p then w.2 else []

theorem written_cons (p q : Pipe) (data : Bytes) (rest : List (Pipe × Bytes)) :
    written p ((q, data) :: rest) = (if q = p then data else []) ++ written p rest := rfl

variable {cap : Pipe → Nat} {status : UInt8} {child : List (Pipe × Bytes)}

/-! ## What holds in every state -/

structure Inv (cap : Pipe → Nat) (child : List (Pipe × Bytes)) (s : State) : Prop where
  /-- No byte is lost, and none changes its place. -/
  conserved : ∀ p, s.text p ++ (s.buffer p ++ written p s.child) = written p child
  room : ∀ p, (s.buffer p).length ≤ cap p
  /-- stderr is not read before the end of stdout. -/
  unread : s.place = .drain .stdout → s.text .stderr = []
  exited : s.exited = true → s.child = []
  /-- A pipe is left only at its end. -/
  ended : s.place ≠ .drain .stdout → s.exited = true ∧ s.buffer .stdout = []
  drained : s.place = .waitpid ∨ s.place = .returned → s.buffer .stderr = []

theorem inv_start (cap : Pipe → Nat) (child : List (Pipe × Bytes)) : Inv cap child (start child) where
  conserved := fun _ => rfl
  room := fun _ => Nat.zero_le _
  unread := fun _ => rfl
  exited := fun h => by cases h
  ended := fun h => absurd rfl h
  drained := fun _ => rfl

section
variable {s : State}

/-- Bytes that the child puts into a pipe go behind those that are in it. -/
theorem Inv.put (hs : Inv cap child s) {p : Pipe} {data : Bytes} {rest : List (Pipe × Bytes)} {n : Nat}
    (hchild : s.child = (p, data) :: rest) (hn : n ≤ data.length) (hroom : (s.buffer p).length + n ≤ cap p) :
    Inv cap child { s with
      child := (p, data.drop n) :: rest
      buffer := Function.update s.buffer p (s.buffer p ++ data.take n) } := by
  have halive : ¬ s.exited = true := fun he => by simp [hs.exited he] at hchild
  have hplace : s.place = .drain .stdout := by
    by_contra hp
    exact halive (hs.ended hp).1
  refine ⟨fun q => ?_, fun q => ?_, hs.unread, fun he => absurd he halive, fun hp => absurd hplace hp, fun hp => ?_⟩
  · have hq := hs.conserved q
    rw [hchild, written_cons] at hq
    dsimp only
    rw [written_cons, ← hq]
    by_cases hpq : q = p
    · subst hpq
      rw [Function.update_self, if_pos rfl, if_pos rfl, List.append_assoc, ← List.append_assoc (data.take n),
        List.take_append_drop]
    · rw [Function.update_of_ne hpq, if_neg (Ne.symm hpq), if_neg (Ne.symm hpq)]
  · dsimp only
    by_cases hpq : q = p
    · subst hpq
      rw [Function.update_self, List.length_append, List.length_take]
      omega
    · rw [Function.update_of_ne hpq]
      exact hs.room q
  · rw [hplace] at hp
    rcases hp with hp | hp <;> cases hp

theorem Inv.next_write (hs : Inv cap child s) {p : Pipe} {rest : List (Pipe × Bytes)} (hchild : s.child = (p, []) :: rest) :
    Inv cap child { s with child := rest } := by
  refine ⟨fun q => ?_, hs.room, hs.unread, fun he => ?_, hs.ended, hs.drained⟩
  · have hq := hs.conserved q
    rw [hchild, written_cons] at hq
    simpa using hq
  · simp [hs.exited he] at hchild

/-- Bytes that `drain` reads go from the buffer to the end of the text. -/
theorem Inv.read (hs : Inv cap child s) {p : Pipe} (hplace : s.place = .drain p) (n : Nat) :
    Inv cap child { s with
      buffer := Function.update s.buffer p ((s.buffer p).drop n)
      text := Function.update s.text p (s.text p ++ (s.buffer p).take n) } := by
  refine ⟨fun q => ?_, fun q => ?_, fun hp => ?_, hs.exited, fun hp => ?_, fun hp => ?_⟩
  · have hq := hs.conserved q
    dsimp only
    by_cases hpq : q = p
    · subst hpq
      rw [Function.update_self, Function.update_self, List.append_assoc, ← List.append_assoc (List.take n _),
        List.take_append_drop, hq]
    · rw [Function.update_of_ne hpq, Function.update_of_ne hpq, hq]
  · dsimp only
    by_cases hpq : q = p
    · subst hpq
      rw [Function.update_self, List.length_drop]
      exact (Nat.sub_le _ _).trans (hs.room q)
    · rw [Function.update_of_ne hpq]
      exact hs.room q
  · rw [hplace] at hp
    obtain rfl := Place.drain.inj hp
    dsimp only
    rw [Function.update_of_ne (by decide)]
    exact hs.unread hplace
  · obtain ⟨he, hb⟩ := hs.ended hp
    refine ⟨he, ?_⟩
    by_cases hpq : Pipe.stdout = p
    · subst hpq
      exact absurd hplace hp
    · dsimp only
      rw [Function.update_of_ne hpq]
      exact hb
  · rw [hplace] at hp
    rcases hp with hp | hp <;> cases hp

theorem Inv.eof (hs : Inv cap child s) {p : Pipe} (hplace : s.place = .drain p) (hempty : s.buffer p = [])
    (hexited : s.exited = true) : Inv cap child { s with place := after p } := by
  cases p with
  | stdout =>
    exact ⟨hs.conserved, hs.room, fun hp => (by cases hp), hs.exited, fun _ => ⟨hexited, hempty⟩,
      fun hp => (by rcases hp with hp | hp <;> cases hp)⟩
  | stderr =>
    have hout := hs.ended (by rw [hplace]; decide)
    exact ⟨hs.conserved, hs.room, fun hp => (by cases hp), hs.exited, fun _ => hout, fun _ => hempty⟩

theorem inv_step {t : State} {a : Act} (hs : Inv cap child s) (h : step cap status s a t) : Inv cap child t := by
  unfold step next at h
  cases a with
  | put n =>
    dsimp only at h
    split at h
    · split at h
      · rename_i hchild hn
        cases h
        exact hs.put hchild hn.2.1 hn.2.2
      · cases h
    · cases h
  | written =>
    dsimp only at h
    split at h
    · rename_i hchild
      cases h
      exact hs.next_write hchild
    · cases h
  | exit e =>
    dsimp only at h
    split at h
    · rename_i hc
      cases h
      exact ⟨hs.conserved, hs.room, hs.unread, fun _ => hc.1, fun hp => ⟨rfl, (hs.ended hp).2⟩, hs.drained⟩
    · cases h
  | read n =>
    dsimp only at h
    split at h
    · split at h
      · rename_i hplace _
        cases h
        exact hs.read hplace n
      · cases h
    · cases h
  | eof =>
    dsimp only at h
    split at h
    · split at h
      · rename_i hplace hend
        cases h
        exact hs.eof hplace hend.1 hend.2
      · cases h
    · cases h
  | reap e =>
    dsimp only at h
    split at h
    · rename_i hc
      cases h
      have hout := hs.ended (by rw [hc.1]; decide)
      exact ⟨hs.conserved, hs.room, fun hp => (by cases hp), hs.exited, fun _ => hout, fun _ => hs.drained (.inl hc.1)⟩
    · cases h

end

theorem reachable_inv {s : State} (hr : Reaches (step cap status) (· = start child) s) : Inv cap child s := by
  refine Reaches.inv (I := Inv cap child) ?_ (fun _ _ _ => inv_step) hr
  rintro _ rfl
  exact inv_start cap child

/-- What the child wrote is what `run` returns. -/
theorem Inv.result {s : State} (hs : Inv cap child s) (hp : s.place = .returned) (p : Pipe) : s.text p = written p child := by
  obtain ⟨he, hout⟩ := hs.ended (by rw [hp]; decide)
  have hbuffer : s.buffer p = [] := by
    cases p with
    | stdout => exact hout
    | stderr => exact hs.drained (.inr hp)
  have hconserved := hs.conserved p
  rw [hbuffer, hs.exited he] at hconserved
  simpa [written] using hconserved

/-! ## Who can go on -/

section
variable {s : State}

/-- A write puts bytes as far as there is room. -/
theorem step_put {p : Pipe} {data : Bytes} {rest : List (Pipe × Bytes)} (hchild : s.child = (p, data) :: rest) {n : Nat}
    (hpos : 0 < n) (hn : n ≤ data.length) (hroom : (s.buffer p).length + n ≤ cap p) :
    step cap status s (.put n) { s with
      child := (p, data.drop n) :: rest
      buffer := Function.update s.buffer p (s.buffer p ++ data.take n) } := by
  simp only [step, next, hchild]
  exact if_pos ⟨hpos, hn, hroom⟩

theorem step_written {p : Pipe} {rest : List (Pipe × Bytes)} (hchild : s.child = (p, []) :: rest) :
    step cap status s .written { s with child := rest } := by
  simp only [step, next, hchild]

theorem step_read {p : Pipe} (hplace : s.place = .drain p) {n : Nat} (hpos : 0 < n) (hmax : n ≤ 4096)
    (hn : n ≤ (s.buffer p).length) :
    step cap status s (.read n) { s with
      buffer := Function.update s.buffer p ((s.buffer p).drop n)
      text := Function.update s.text p (s.text p ++ (s.buffer p).take n) } := by
  simp only [step, next, hplace]
  exact if_pos ⟨hpos, hmax, hn⟩

/-- Who has a step is not stuck. -/
theorem not_stuck_of_step {a : Act} {t : State} (h : step cap status s a t) : ¬ Stuck cap status s := by
  rintro ⟨-, hstuck⟩
  exact Option.some_ne_none t (h.symm.trans (hstuck a))

/-- With room in the pipe, a child that is not done can go on. -/
theorem child_goes_on {p : Pipe} {data : Bytes} {rest : List (Pipe × Bytes)} (hchild : s.child = (p, data) :: rest)
    (hroom : (s.buffer p).length < cap p) : ¬ Stuck cap status s := by
  cases data with
  | nil => exact not_stuck_of_step (step_written hchild)
  | cons c data => exact not_stuck_of_step (step_put hchild Nat.one_pos (by simp) hroom)

/-- A parent that drains a pipe with something in it, or one that is closed, can go
on. -/
theorem parent_goes_on {p : Pipe} (hplace : s.place = .drain p) (h : s.buffer p ≠ [] ∨ s.exited = true) :
    ¬ Stuck cap status s := by
  by_cases hb : s.buffer p = []
  · have heof : step cap status s .eof { s with place := after p } := by
      simp only [step, next, hplace]
      exact if_pos ⟨hb, h.resolve_left fun hne => hne hb⟩
    exact not_stuck_of_step heof
  · exact not_stuck_of_step (step_read hplace Nat.one_pos (by decide) (List.length_pos_iff.2 hb))

/-- Nobody waits for the other for ever when the stderr of the child fits into its
pipe. -/
theorem Inv.not_stuck (hs : Inv cap child s) (hcap : ∀ p, 0 < cap p)
    (hfits : (written .stderr child).length ≤ cap .stderr) : ¬ Stuck cap status s := by
  cases hplace : s.place with
  | returned => exact fun h => h.1 hplace
  | waitpid =>
    have hreap : step cap status s (.reap status) { s with place := .returned, exit_code := status.toNat } :=
      if_pos ⟨hplace, (hs.ended (by rw [hplace]; decide)).1, rfl⟩
    exact not_stuck_of_step hreap
  | drain p =>
    cases p with
    | stderr => exact parent_goes_on hplace (.inr (hs.ended (by rw [hplace]; decide)).1)
    | stdout =>
      by_cases hout : s.buffer .stdout ≠ [] ∨ s.exited = true
      · exact parent_goes_on hplace hout
      · rw [not_or, not_not, Bool.not_eq_true] at hout
        -- the parent waits for the end of stdout, and the child has room
        cases hchild : s.child with
        | nil =>
          have hexit : step cap status s (.exit status) { s with exited := true } := if_pos ⟨hchild, hout.2, rfl⟩
          exact not_stuck_of_step hexit
        | cons w rest =>
          obtain ⟨p, data⟩ := w
          cases data with
          | nil => exact not_stuck_of_step (step_written hchild)
          | cons c data =>
            refine child_goes_on hchild ?_
            cases p with
            | stdout =>
              rw [hout.1]
              exact hcap _
            | stderr =>
              have hconserved := congrArg List.length (hs.conserved .stderr)
              rw [hs.unread hplace, hchild, written_cons, if_pos rfl] at hconserved
              simp only [List.length_append, List.length_cons, List.length_nil] at hconserved
              omega

end

/-! ## A stderr that does not fit -/

/-- `run` drains stdout and has emptied it, and the child is at `todo`. -/
structure Awaits (s : State) (todo : List (Pipe × Bytes)) : Prop where
  child : s.child = todo
  place : s.place = .drain .stdout
  exited : s.exited = false
  empty : s.buffer .stdout = []

/-- A write to stdout passes byte by byte. -/
theorem pass_stdout {data : Bytes} {rest : List (Pipe × Bytes)} (hcap : 0 < cap .stdout) {s : State}
    (hs : Awaits s ((.stdout, data) :: rest)) (hr : Reaches (step cap status) (· = start child) s) :
    ∃ t, Reaches (step cap status) (· = start child) t ∧ Awaits t rest ∧ t.buffer .stderr = s.buffer .stderr := by
  induction data generalizing s with
  | nil => exact ⟨_, hr.step (step_written hs.child), ⟨rfl, hs.place, hs.exited, hs.empty⟩, rfl⟩
  | cons c data ih =>
    have hroom : (s.buffer .stdout).length + 1 ≤ cap .stdout := by rw [hs.empty]; exact hcap
    have hput := hr.step (step_put hs.child Nat.one_pos (by simp) hroom)
    have hread := hput.step (step_read (p := .stdout) (by exact hs.place) Nat.one_pos (by decide) (by simp))
    have hgo := fun hawaits => ih hawaits hread
    obtain ⟨t, ht, hawaits, hsame⟩ := hgo ⟨rfl, hs.place, hs.exited, by simp [hs.empty]⟩
    exact ⟨t, ht, hawaits, by simpa using hsame⟩

/-- The child waits for room in stderr, the parent for the end of stdout. -/
theorem stuck_full {c : UInt8} {data : Bytes} {rest : List (Pipe × Bytes)} {s : State}
    (hs : Awaits s ((.stderr, c :: data) :: rest)) (hfull : (s.buffer .stderr).length = cap .stderr) :
    Stuck cap status s := by
  refine ⟨fun hp => ?_, fun a => ?_⟩
  · rw [hs.place] at hp
    cases hp
  · cases a with
    | put n =>
      simp only [next, hs.child]
      exact if_neg (by omega)
    | written => simp only [next, hs.child]
    | exit e =>
      simp only [next, hs.child]
      exact if_neg fun h => (by cases h.1)
    | read n =>
      simp only [next, hs.place, hs.empty, List.length_nil]
      exact if_neg (by omega)
    | eof =>
      simp only [next, hs.place, hs.exited]
      exact if_neg fun h => (by cases h.2)
    | reap e =>
      simp only [next, hs.place]
      exact if_neg fun h => (by cases h.1)

/-- A write to stderr for which there is room passes at once. -/
theorem pass_stderr {data : Bytes} {rest : List (Pipe × Bytes)} {s : State} (hs : Awaits s ((.stderr, data) :: rest))
    (hfit : (s.buffer .stderr).length + data.length ≤ cap .stderr)
    (hr : Reaches (step cap status) (· = start child) s) :
    ∃ t, Reaches (step cap status) (· = start child) t ∧ Awaits t rest ∧
      (t.buffer .stderr).length = (s.buffer .stderr).length + data.length := by
  cases data with
  | nil => exact ⟨_, hr.step (step_written hs.child), ⟨rfl, hs.place, hs.exited, hs.empty⟩, rfl⟩
  | cons c data =>
    have hput := hr.step (step_put hs.child (n := (c :: data).length) (Nat.succ_pos _) (Nat.le_refl _) hfit)
    rw [List.drop_length] at hput
    exact ⟨_, hput.step (step_written rfl), ⟨rfl, hs.place, hs.exited, by simpa using hs.empty⟩, by simp⟩

/-- A write to stderr for which there is no room fills the pipe. -/
theorem fills_stderr {data : Bytes} {rest : List (Pipe × Bytes)} {s : State} (hs : Awaits s ((.stderr, data) :: rest))
    (hroom : (s.buffer .stderr).length ≤ cap .stderr) (hlong : cap .stderr < (s.buffer .stderr).length + data.length)
    (hr : Reaches (step cap status) (· = start child) s) :
    ∃ t, Reaches (step cap status) (· = start child) t ∧ Stuck cap status t := by
  by_cases hfull : (s.buffer .stderr).length = cap .stderr
  · cases data with
    | nil => exact absurd hlong (Nat.not_lt.2 hroom)
    | cons c data => exact ⟨s, hr, stuck_full hs hfull⟩
  · -- the last bytes for which there is room
    have hput := hr.step (step_put (n := cap .stderr - (s.buffer .stderr).length) hs.child
      (by omega) (by omega) (by omega))
    cases hdrop : data.drop (cap .stderr - (s.buffer .stderr).length) with
    | nil =>
      rw [List.drop_eq_nil_iff] at hdrop
      omega
    | cons c data' =>
      rw [hdrop] at hput
      refine ⟨_, hput, stuck_full ⟨rfl, hs.place, hs.exited, by simpa using hs.empty⟩ ?_⟩
      simp only [Function.update_self, List.length_append, List.length_take]
      omega

/-- The child goes on with its writes while the parent takes from stdout only,
until stderr is full. -/
theorem runs_into_stuck (todo : List (Pipe × Bytes)) (hcap : 0 < cap .stdout) {s : State} (hs : Awaits s todo)
    (hroom : (s.buffer .stderr).length ≤ cap .stderr)
    (hlong : cap .stderr < (s.buffer .stderr).length + (written .stderr todo).length)
    (hr : Reaches (step cap status) (· = start child) s) :
    ∃ t, Reaches (step cap status) (· = start child) t ∧ Stuck cap status t := by
  induction todo generalizing s with
  | nil =>
    simp only [written, List.flatMap_nil, List.length_nil] at hlong
    omega
  | cons w rest ih =>
    obtain ⟨p, data⟩ := w
    cases p with
    | stdout =>
      obtain ⟨t, ht, hawaits, hsame⟩ := pass_stdout hcap hs hr
      rw [← hsame] at hroom hlong
      exact ih hawaits hroom hlong ht
    | stderr =>
      rw [written_cons, if_pos rfl, List.length_append] at hlong
      by_cases hfit : (s.buffer .stderr).length + data.length ≤ cap .stderr
      · obtain ⟨t, ht, hawaits, hmore⟩ := pass_stderr hs hfit hr
        exact ih hawaits (by rwa [hmore]) (by omega) ht
      · exact fills_stderr hs hroom (Nat.lt_of_not_le hfit) hr

/-- For all positive capacities and all children: nobody ever waits for ever and
`run` returns exactly what the child wrote, exactly if all that the child writes to
stderr fits into its pipe. -/
theorem run_iff (cap : Pipe → Nat) (hcap : ∀ p, 0 < cap p) (status : UInt8) (child : List (Pipe × Bytes)) :
    (∀ s, Reaches (step cap status) (· = start child) s → ¬ Stuck cap status s ∧
      (s.place = .returned → s.result.stdout_text = written .stdout child ∧ s.result.stderr_text = written .stderr child)) ↔
    (written .stderr child).length ≤ cap .stderr := by
  constructor
  · intro hrun
    by_contra hlong
    have h0 : Reaches (step cap status) (· = start child) (start child) := .init rfl
    obtain ⟨t, ht, hstuck⟩ := runs_into_stuck child (hcap _) ⟨rfl, rfl, rfl, rfl⟩ (Nat.zero_le _)
      (by simpa [start] using Nat.lt_of_not_le hlong) h0
    exact (hrun t ht).1 hstuck
  · intro hfits s hr
    have hs := reachable_inv hr
    exact ⟨hs.not_stuck hcap hfits, fun hp => ⟨hs.result hp .stdout, hs.result hp .stderr⟩⟩

/-- Some text on each pipe, with room for four bytes. -/
theorem run_iff_short : ¬ Stuck (fun _ => 4) 0 (start [(.stderr, bytes "42%"), (.stdout, bytes "done\n")]) :=
  ((run_iff (fun _ => 4) (fun _ => by decide) 0 _).2 (by decide +kernel) _ (.init rfl)).1

/-- The child fills stderr and waits for room; the parent waits for the end of
stdout. -/
theorem long_stderr_deadlocks : ∃ s,
    Reaches (step (fun _ => 4) 0) (· = start [(.stderr, bytes "100%\n")]) s ∧ Stuck (fun _ => 4) 0 s := by
  have hput : step (fun _ => 4) 0 (start [(.stderr, bytes "100%\n")]) (.put 4) _ :=
    step_put rfl (by decide) (by decide +kernel) (by decide)
  have hdrop : (bytes "100%\n").drop 4 = [10] := by decide +kernel
  rw [hdrop] at hput
  exact ⟨_, .step (.init rfl) hput, stuck_full ⟨rfl, rfl, rfl, rfl⟩ (by decide +kernel)⟩

end Hostely.Services.Cli
