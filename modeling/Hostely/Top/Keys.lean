import Hostely.Top.Render
/-!
# Stopping a container from the dashboard

`run_top`'s loop of frames and key presses, with the sampler's snapshots and the signals
coming in between any two of its steps. Between two frames up to twelve keys are read,
so that a container can be chosen and stopped before the question is seen.
-/

open Hostely.Lib

namespace Hostely.Top

/-! ## Keys -/

inductive Key
  | Quit | Up | Down | Sort | IntervalUp | IntervalDown | Kill | Enter | Other
deriving DecidableEq

/-- The key in what one `read` of at most eight bytes has got, nothing on a timeout. -/
def read_key : Bytes → Option Key
  | [] => none
  | [c] => some <|
    if c = 113 then .Quit
    else if c = 115 then .Sort
    else if c = 107 then .Kill
    else if c = 43 ∨ c = 61 then .IntervalUp
    else if c = 45 ∨ c = 95 then .IntervalDown
    else if c = 13 ∨ c = 10 then .Enter
    else if c = 27 ∨ c = 3 then .Quit
    else .Other
  | 27 :: 91 :: 65 :: _ => some .Up
  | 27 :: 91 :: 66 :: _ => some .Down
  | _ => some .Other

def SortKey.next : SortKey → SortKey
  | .Cpu => .Mem
  | .Mem => .Name
  | .Name => .Net
  | .Net => .Cpu

/-! ## The loop -/

/-- Where the loop is: before a frame, before the `i`-th of the twelve reads, in
`Manager::stop`, before it takes the snapshot to show an error, before it puts it back. -/
inductive Place (F : Type)
  | draw
  | poll (i : Nat)
  | stopping (i : Nat)
  | failed (i : Nat) (message : Bytes)
  | storing (i : Nat) (snap : HostSnapshot F)
  | done

/-- What the user has seen and done, as far as stopping containers goes. -/
inductive Seen
  | frame (lines : List Bytes)
  /-- `k` on that container -/
  | chose (name : Bytes)
  | cancelled
  /-- the second `k`, and the call of `Manager::stop` -/
  | stopped (name : Bytes)
deriving DecidableEq

structure Loop (F : Type) where
  store : HostSnapshot F
  sort : SortKey
  selected : Int
  view_offset : Int
  confirm_kill : Bytes
  hist : GraphHistory F
  interrupted : Bool
  place : Place F
  seen : List Seen

def Loop.start (stored : HostSnapshot F) (sort_key : SortKey) : Loop F :=
  ⟨stored, sort_key, 0, 0, [], {}, false, .draw, []⟩

/-- A step of the loop, or what comes in between its steps. -/
inductive Act (F : Type)
  | sample (snap : HostSnapshot F)
  | signal
  | draw (resized : Bool) (size : TermSize)
  | poll (read : Bytes)
  /-- `Manager::stop` comes back, with an error or not. -/
  | returned (error : Option Bytes)
  | load
  | restore

def next_poll (i : Nat) : Place F := if i + 1 < 12 then .poll (i + 1) else .draw

section
variable {F : Type} (D : Printed F) (color : Bool)

def draw (s : Loop F) (resized : Bool) (size : TermSize) : Loop F :=
  let frame := render_screen D s.hist s.store s.sort s.selected s.confirm_kill size color (if resized then 0 else s.view_offset)
  { s with
    view_offset := frame.view_offset
    hist := frame.hist
    place := .poll 0
    seen := s.seen ++ [.frame frame.lines] }

/-- The container that `k` is about, if one is selected. -/
def under_cursor (s : Loop F) : Option Bytes :=
  if 0 ≤ s.selected then ((sort_rows D s.sort s.store.rows)[s.selected.toNat]?).map (·.name) else none

/-- A key when no container is to be confirmed. -/
def on_key (s : Loop F) : Key → Loop F
  | .Up => { s with selected := if s.selected > 0 then s.selected - 1 else 0 }
  | .Down => { s with selected := min (s.selected + 1) ((s.store.rows.length : Int) - 1) }
  | .Sort => { s with sort := s.sort.next, selected := 0, view_offset := 0 }
  | .Kill =>
    match under_cursor D s with
    | some name => { s with confirm_kill := name, seen := s.seen ++ [.chose name] }
    | none => s
  -- the interval is for the sampler; nothing here reads it
  | _ => s

def poll (s : Loop F) (i : Nat) (read : Bytes) : Loop F :=
  if s.interrupted then { s with place := .done }
  else
    let s := if read = [3] then { s with interrupted := true } else s
    match read_key read with
    | none => { s with place := next_poll i }
    | some .Quit =>
      if s.confirm_kill ≠ [] then { s with confirm_kill := [], place := .draw, seen := s.seen ++ [.cancelled] }
      else { s with place := .done }
    | some key =>
      -- `Enter` and other keys are passed over, as `on_key` does
      if s.confirm_kill = [] then { on_key D s key with place := next_poll i }
      else if key = .Kill then { s with confirm_kill := [], place := .stopping i, seen := s.seen ++ [.stopped s.confirm_kill] }
      else { s with place := next_poll i }

def step (s : Loop F) (a : Act F) : Option (Loop F) :=
  match a, s.place with
  | .sample snap, _ => some { s with store := snap }
  | .signal, _ => some { s with interrupted := true }
  | .draw resized size, .draw => some (draw D color s resized size)
  | .poll read, .poll i => some (poll D s i read)
  | .returned none, .stopping i => some { s with place := next_poll i }
  | .returned (some message), .stopping i => some { s with place := .failed i message }
  | .load, .failed i message => some { s with place := .storing i { s.store with error := message } }
  | .restore, .storing i snap => some { s with store := snap, place := next_poll i }
  | _, _ => none

/-- The loop after some steps; `none` when they are not steps it takes. -/
def run (stored : HostSnapshot F) (sort_key : SortKey) (as : List (Act F)) : Option (Loop F) :=
  as.foldlM (step D color) (.start stored sort_key)

end

/-! ## What a step does -/

section
variable {F : Type} {D : Printed F} {color : Bool} {s t : Loop F} {a : Act F}

def Act.Draws (a : Act F) : Prop := ∃ resized size, a = .draw resized size

/-- `k` is read. -/
def Act.Presses (a : Act F) : Prop := ∃ read, a = .poll read ∧ read_key read = some .Kill

theorem frame_last (h : GraphHistory F) (snap : HostSnapshot F) (sort_key : SortKey) (selected : Int) {name : Bytes} (hname : name ≠ [])
    (size : TermSize) (view_offset : Int) :
    (render_screen D h snap sort_key selected name size color view_offset).lines.getLast? = some (prompt name color) := by
  have hbar : status_bar D snap sort_key name size.width color = prompt name color := if_pos hname
  unfold render_screen
  dsimp only
  rw [hbar, List.getLast?_append, List.getLast?_singleton, Option.some_or]

/-- The ends of a step, as far as stopping containers goes. -/
inductive Ends (D : Printed F) (color : Bool) (s : Loop F) (a : Act F) (t : Loop F) : Prop
  | quiet (hdraw : ¬ a.Draws) (hconfirm : t.confirm_kill = s.confirm_kill) (hseen : t.seen = s.seen)
      (hsignal : a ≠ .signal → s.confirm_kill ≠ [] → t.interrupted = s.interrupted)
      (hpress : a.Presses → s.interrupted = false → s.confirm_kill = [] ∧ under_cursor D s = none)
  | drew (hdraw : a.Draws) (hconfirm : t.confirm_kill = s.confirm_kill)
      (hseen : ∃ lines, t.seen = s.seen ++ [.frame lines] ∧ (s.confirm_kill ≠ [] → lines.getLast? = some (prompt s.confirm_kill color)))
  | chose (name : Bytes) (hpress : a.Presses) (hconfirm : s.confirm_kill = []) (hcursor : under_cursor D s = some name)
      (ht : t.confirm_kill = name) (hseen : t.seen = s.seen ++ [.chose name]) (hsignal : s.interrupted = false ∧ t.interrupted = false)
  | stopped (hpress : a.Presses) (hsignal : s.interrupted = false) (hconfirm : s.confirm_kill ≠ []) (ht : t.confirm_kill = [])
      (hseen : t.seen = s.seen ++ [.stopped s.confirm_kill])
  | cancelled (hpress : ¬ a.Presses) (ht : t.confirm_kill = []) (hseen : t.seen = s.seen ++ [.cancelled]) (hplace : t.place = .draw)

/-- Only `k` on a container changes what is to be confirmed, where nothing is. -/
theorem on_key_ends (s : Loop F) (key : Key) :
    ((on_key D s key).confirm_kill = s.confirm_kill ∧ (on_key D s key).seen = s.seen ∧ (key = .Kill → under_cursor D s = none)) ∨
      ∃ name, key = .Kill ∧ under_cursor D s = some name ∧ (on_key D s key).confirm_kill = name ∧
        (on_key D s key).seen = s.seen ++ [.chose name] := by
  cases key with
  | Kill =>
    unfold on_key
    dsimp only
    cases hcursor : under_cursor D s with
    | none => exact .inl ⟨rfl, rfl, fun _ => rfl⟩
    | some name => exact .inr ⟨name, rfl, rfl, rfl, rfl⟩
  | _ => exact .inl ⟨rfl, rfl, nofun⟩

@[simp] theorem on_key_interrupted (s : Loop F) (key : Key) : (on_key D s key).interrupted = s.interrupted := by
  unfold on_key
  repeat' split
  all_goals rfl

theorem poll_interrupted (i : Nat) (read : Bytes) (h : s.interrupted = true) : poll D s i read = { s with place := .done } := if_pos h

/-- Only Ctrl-C interrupts, and it is read as `q`. -/
theorem poll_key {key : Key} (i : Nat) {read : Bytes} (h : s.interrupted = false) (hkey : read_key read = some key) (hquit : key ≠ .Quit) :
    poll D s i read =
      if s.confirm_kill = [] then { on_key D s key with place := next_poll i }
      else if key = .Kill then { s with confirm_kill := [], place := .stopping i, seen := s.seen ++ [.stopped s.confirm_kill] }
      else { s with place := next_poll i } := by
  have hread : read ≠ [3] := fun hread => hquit (by rw [hread] at hkey; exact (Option.some.inj hkey).symm)
  unfold poll
  rw [if_neg (Bool.eq_false_iff.1 h), if_neg hread, hkey]
  split
  · rename_i hnone
    cases hnone
  · rename_i h
    exact absurd (Option.some.inj h) hquit
  · rename_i key' hkey'
    obtain rfl := Option.some.inj hkey'
    rfl

theorem presses_iff {read : Bytes} : (Act.poll read : Act F).Presses ↔ read_key read = some .Kill :=
  ⟨fun ⟨_, h, hkey⟩ => Act.poll.inj h ▸ hkey, fun hkey => ⟨read, rfl, hkey⟩⟩

theorem poll_draws (read : Bytes) : ¬ (Act.poll read : Act F).Draws := fun ⟨_, _, h⟩ => by cases h

theorem poll_ends (s : Loop F) (i : Nat) (read : Bytes) : Ends D color s (.poll read) (poll D s i read) := by
  cases hinterrupted : s.interrupted with
  | true =>
    rw [poll_interrupted i read hinterrupted]
    exact .quiet (poll_draws read) rfl rfl (fun _ _ => rfl) fun _ h => absurd (h.symm.trans hinterrupted) Bool.false_ne_true
  | false =>
    cases hkey : read_key read with
    | none =>
      have hread : read ≠ [3] := fun h => by rw [h] at hkey; cases hkey
      unfold poll
      rw [if_neg (Bool.eq_false_iff.1 hinterrupted), if_neg hread, hkey]
      exact .quiet (poll_draws read) rfl rfl (fun _ _ => rfl) fun hpress => absurd (hkey.symm.trans (presses_iff.1 hpress)) nofun
    | some key =>
      by_cases hquit : key = .Quit
      · subst hquit
        have hpress : ¬ (Act.poll read : Act F).Presses := fun hpress => absurd (hkey.symm.trans (presses_iff.1 hpress)) nofun
        have hkept : (if read = [3] then { s with interrupted := true } else s).confirm_kill = s.confirm_kill ∧
            (if read = [3] then { s with interrupted := true } else s).seen = s.seen := by
          split <;> exact ⟨rfl, rfl⟩
        unfold poll
        rw [if_neg (Bool.eq_false_iff.1 hinterrupted), hkey]
        dsimp only
        rw [hkept.1]
        split
        · exact .cancelled hpress rfl (congrArg (· ++ [Seen.cancelled]) hkept.2) rfl
        · rename_i hnone
          exact .quiet (poll_draws read) rfl hkept.2 (fun _ h => absurd h hnone) fun h => absurd h hpress
      · have hpress : (Act.poll read : Act F).Presses ↔ key = .Kill := by rw [presses_iff, hkey, Option.some.injEq]
        rw [poll_key i hinterrupted hkey hquit]
        by_cases hconfirm : s.confirm_kill = []
        · rw [if_pos hconfirm]
          rcases on_key_ends s key with ⟨hsame, hseen, hnone⟩ | ⟨name, hkill, hcursor, hname, hseen⟩
          · exact .quiet (poll_draws read) hsame hseen (fun _ _ => on_key_interrupted s key) fun h _ => ⟨hconfirm, hnone (hpress.1 h)⟩
          · exact .chose name (hpress.2 hkill) hconfirm hcursor hname hseen ⟨hinterrupted, (on_key_interrupted s key).trans hinterrupted⟩
        · rw [if_neg hconfirm]
          split
          · rename_i hkill
            exact .stopped (hpress.2 hkill) hinterrupted hconfirm rfl rfl
          · rename_i hother
            exact .quiet (poll_draws read) rfl rfl (fun _ _ => rfl) fun h => absurd (hpress.1 h) hother

theorem step_ends (h : step D color s a = some t) : Ends D color s a t := by
  have hother (hnot : ∀ read, a ≠ .poll read) : ¬ a.Presses := fun ⟨read, hread, _⟩ => hnot read hread
  unfold step at h
  split at h
  case h_1 snap _ =>
    obtain rfl := Option.some.inj h
    exact .quiet (fun ⟨_, _, h⟩ => by cases h) rfl rfl (fun _ _ => rfl) fun h => absurd h (hother nofun)
  case h_2 =>
    obtain rfl := Option.some.inj h
    exact .quiet (fun ⟨_, _, h⟩ => by cases h) rfl rfl (fun h => absurd rfl h) fun h => absurd h (hother nofun)
  case h_3 resized size _ =>
    obtain rfl := Option.some.inj h
    exact .drew ⟨resized, size, rfl⟩ rfl ⟨_, rfl, fun hne => frame_last _ _ _ _ hne _ _⟩
  case h_4 read i _ =>
    obtain rfl := Option.some.inj h
    exact poll_ends s i read
  case h_9 => cases h
  all_goals
    obtain rfl := Option.some.inj h
    exact .quiet (fun ⟨_, _, h⟩ => by cases h) rfl rfl (fun _ _ => rfl) fun h => absurd h (hother nofun)

theorem step_poll {read : Bytes} (h : step D color s (.poll read) = some t) : ∃ i, t = poll D s i read := by
  cases hplace : s.place with
  | poll i =>
    simp only [step, hplace, Option.some.injEq] at h
    exact ⟨i, h.symm⟩
  | _ => simp [step, hplace] at h

/-- What has been seen stays. -/
theorem step_seen (h : step D color s a = some t) : s.seen <+: t.seen := by
  rcases step_ends h with ⟨-, -, hseen, -, -⟩ | ⟨-, -, lines, hseen, -⟩ | ⟨name, -, -, -, -, hseen, -⟩ | ⟨-, -, -, -, hseen⟩ |
    ⟨-, -, hseen, -⟩ <;> rw [hseen]
  all_goals exact List.prefix_append _ _

theorem steps_seen {as : List (Act F)} (h : as.foldlM (step D color) s = some t) : s.seen <+: t.seen := by
  induction as generalizing s with
  | nil => rw [Option.some.inj h]
  | cons a as ih =>
    obtain ⟨u, hu, h⟩ := Option.bind_eq_some_iff.1 h
    exact (step_seen hu).trans (ih h)

/-- A loop that has ended, or that has to draw and does not, reads no key. -/
theorem idle_reads_nothing {as : List (Act F)} (h : as.foldlM (step D color) s = some t)
    (hidle : s.place = .done ∨ s.place = .draw ∧ ∀ a ∈ as, ¬ a.Draws) : ∀ a ∈ as, ¬ a.Presses := by
  induction as generalizing s with
  | nil => exact List.forall_mem_nil _
  | cons a as ih =>
    obtain ⟨u, hu, h⟩ := Option.bind_eq_some_iff.1 h
    have hmoves : (∃ snap, a = .sample snap) ∨ a = .signal := by
      cases a with
      | sample snap => exact .inl ⟨snap, rfl⟩
      | signal => exact .inr rfl
      | draw resized size =>
        rcases hidle with hdone | ⟨-, hno⟩
        · simp [step, hdone] at hu
        · exact absurd ⟨resized, size, rfl⟩ (hno _ List.mem_cons_self)
      | _ => rcases hidle with hplace | ⟨hplace, -⟩ <;> simp [step, hplace] at hu
    have hplace : u.place = s.place ∧ ¬ a.Presses := by
      rcases hmoves with ⟨snap, rfl⟩ | rfl <;> obtain rfl := Option.some.inj hu
      · exact ⟨rfl, fun ⟨_, h, _⟩ => by cases h⟩
      · exact ⟨rfl, fun ⟨_, h, _⟩ => by cases h⟩
    refine List.forall_mem_cons.2 ⟨hplace.2, ih h ?_⟩
    rw [hplace.1]
    exact hidle.imp_right fun hidle => ⟨hidle.1, (List.forall_mem_cons.1 hidle.2).2⟩

/-! ## Runs -/

/-- A container is selected, and none is to be confirmed. -/
def Chooses (D : Printed F) (s : Loop F) : Prop := s.confirm_kill = [] ∧ ∃ name, under_cursor D s = some name ∧ name ≠ []

/-- Every container was stopped by a second `k`, with a frame between it and the first
that asks, and nothing but frames. -/
def Confirmed (color : Bool) (seen : List Seen) : Prop :=
  ∀ pre name post, seen = pre ++ .stopped name :: post →
    ∃ before frames, pre = before ++ .chose name :: frames ∧ (∀ e ∈ frames, ∃ lines, e = .frame lines) ∧
      ∃ lines, .frame lines ∈ frames ∧ lines.getLast? = some (prompt name color)

/-- Two `k` are read in the same round of twelve, the first of them on a container. -/
def Hasty (D : Printed F) (color : Bool) (stored : HostSnapshot F) (sort_key : SortKey) (as : List (Act F)) : Prop :=
  ∃ pre k mid k' post s, as = pre ++ k :: (mid ++ k' :: post) ∧ run D color stored sort_key pre = some s ∧ Chooses D s ∧
    k.Presses ∧ k'.Presses ∧ ∀ a ∈ mid, ¬ a.Draws ∧ a ≠ .signal

/-- The question is asked in every frame since the container was chosen. -/
theorem pending {stored : HostSnapshot F} {sort_key : SortKey} {as : List (Act F)} (h : run D color stored sort_key as = some t)
    (hconfirm : t.confirm_kill ≠ []) :
    ∃ pre k mid s before frames, as = pre ++ k :: mid ∧ run D color stored sort_key pre = some s ∧ Chooses D s ∧ k.Presses ∧
      t.seen = before ++ .chose t.confirm_kill :: frames ∧
      (∀ e ∈ frames, ∃ lines, e = .frame lines ∧ lines.getLast? = some (prompt t.confirm_kill color)) ∧
      (frames = [] → ∀ a ∈ mid, ¬ a.Draws) := by
  induction as using List.reverseRecOn generalizing t with
  | nil =>
    obtain rfl := Option.some.inj h
    exact absurd rfl hconfirm
  | append_singleton as a ih =>
    obtain ⟨u, hu, hstep⟩ := foldlM_concat.1 h
    cases step_ends hstep with
    | quiet hdraw hsame hseen _ _ =>
      obtain ⟨pre, k, mid, s, before, frames, rfl, hs, hchooses, hk, hsplit, hframes, hnone⟩ := ih hu (hsame ▸ hconfirm)
      refine ⟨pre, k, mid ++ [a], s, before, frames, by simp, hs, hchooses, hk, ?_, ?_, fun h => ?_⟩
      · rw [hseen, hsame, hsplit]
      · rwa [hsame]
      · exact List.forall_mem_append.2 ⟨hnone h, List.forall_mem_singleton.2 hdraw⟩
    | drew hdraw hsame hseen =>
      obtain ⟨pre, k, mid, s, before, frames, rfl, hs, hchooses, hk, hsplit, hframes, hnone⟩ := ih hu (hsame ▸ hconfirm)
      obtain ⟨lines, hseen, hlines⟩ := hseen
      refine ⟨pre, k, mid ++ [a], s, before, frames ++ [.frame lines], by simp, hs, hchooses, hk, ?_, ?_, fun h => by simp at h⟩
      · rw [hseen, hsame, hsplit, List.append_assoc, List.cons_append]
      · rw [hsame]
        exact List.forall_mem_append.2 ⟨hframes, List.forall_mem_singleton.2 ⟨lines, rfl, hlines (hsame ▸ hconfirm)⟩⟩
    | chose name hpress hnone hcursor hname hseen _ =>
      refine ⟨as, a, [], u, u.seen, [], rfl, hu, ⟨hnone, name, hcursor, hname ▸ hconfirm⟩, hpress, ?_, List.forall_mem_nil _,
        fun _ => List.forall_mem_nil _⟩
      rw [hseen, hname]
    | stopped _ _ _ hnone _ => exact absurd hnone hconfirm
    | cancelled _ hnone _ _ => exact absurd hnone hconfirm

theorem step_interrupted (h : step D color s a = some t) (hs : s.interrupted = true ∨ a = .signal) : t.interrupted = true := by
  unfold step at h
  split at h
  case h_2 =>
    obtain rfl := Option.some.inj h
    rfl
  case h_4 =>
    have hbefore := hs.resolve_right nofun
    obtain rfl := Option.some.inj h
    rw [poll_interrupted _ _ hbefore]
    exact hbefore
  case h_9 => cases h
  all_goals
    obtain rfl := Option.some.inj h
    exact hs.resolve_right nofun

section Run
variable {stored : HostSnapshot F} {sort_key : SortKey} {as : List (Act F)}

theorem not_signalled (h : run D color stored sort_key as = some t) (hno : t.interrupted = false) : .signal ∉ as := by
  induction as using List.reverseRecOn generalizing t with
  | nil => exact List.not_mem_nil
  | append_singleton as a ih =>
    obtain ⟨u, hu, hstep⟩ := foldlM_concat.1 h
    have hbefore : ¬ (u.interrupted = true ∨ a = .signal) :=
      fun hsignal => absurd (hno.symm.trans (step_interrupted hstep hsignal)) Bool.false_ne_true
    obtain ⟨hu_no, ha⟩ := not_or.1 hbefore
    rw [List.mem_append, List.mem_singleton, not_or]
    exact ⟨ih hu (Bool.eq_false_iff.2 hu_no), fun h => ha h.symm⟩

/-- The second `k` of a round stops the container, and no frame has asked. -/
theorem hasty_stops {name : Bytes} {before : List Seen} (h : as.foldlM (step D color) s = some t) (hname : name ≠ [])
    (hconfirm : s.confirm_kill = name) (hinterrupted : s.interrupted = false) (hseen : s.seen = before ++ [.chose name])
    (hquiet : ∀ a ∈ as, ¬ a.Draws ∧ a ≠ .signal) (hpress : ∃ a ∈ as, a.Presses) :
    before ++ [.chose name, .stopped name] <+: t.seen := by
  induction as generalizing s with
  | nil => simp at hpress
  | cons a as ih =>
    obtain ⟨u, hu, h⟩ := Option.bind_eq_some_iff.1 h
    obtain ⟨ha, hquiet⟩ := List.forall_mem_cons.1 hquiet
    have hlater (hnot : ¬ a.Presses) : ∃ a ∈ as, a.Presses := by
      obtain ⟨b, hb, hb_press⟩ := hpress
      rcases List.mem_cons.1 hb with rfl | hb
      · exact absurd hb_press hnot
      · exact ⟨b, hb, hb_press⟩
    cases step_ends hu with
    | quiet _ hsame hsame_seen hsignal hnone =>
      have hnot : ¬ a.Presses := fun hpress => hname (hconfirm.symm.trans (hnone hpress hinterrupted).1)
      exact ih h (hsame.trans hconfirm) ((hsignal ha.2 (hconfirm ▸ hname)).trans hinterrupted) (hsame_seen.trans hseen) hquiet
        (hlater hnot)
    | drew hdraw _ _ => exact absurd hdraw ha.1
    | chose _ _ hnone _ _ _ _ => exact absurd (hconfirm.symm.trans hnone) hname
    | stopped _ _ _ _ hstopped =>
      rw [hseen, hconfirm, List.append_assoc] at hstopped
      have hkept := steps_seen h
      rwa [hstopped] at hkept
    | cancelled hnot _ _ hplace =>
      obtain ⟨b, hb, hb_press⟩ := hlater hnot
      exact absurd hb_press (idle_reads_nothing h (.inr ⟨hplace, fun a ha => (hquiet a ha).1⟩) b hb)

/-- A `k` that chooses a container leaves it to be confirmed, if another key is read. -/
theorem press_chooses (h : step D color s a = some t) (hs : Chooses D s) (hpress : a.Presses) :
    t.place = .done ∨ ∃ name ≠ [], t.confirm_kill = name ∧ t.interrupted = false ∧ t.seen = s.seen ++ [.chose name] := by
  obtain ⟨hnone, name, hcursor, hname⟩ := hs
  cases step_ends h with
  | quiet _ _ _ _ hquiet =>
    cases hinterrupted : s.interrupted with
    | true =>
      obtain ⟨read, rfl, -⟩ := hpress
      obtain ⟨i, rfl⟩ := step_poll h
      rw [poll_interrupted i read hinterrupted]
      exact .inl rfl
    | false =>
      have hcursor' := (hquiet hpress hinterrupted).2
      cases hcursor.symm.trans hcursor'
  | drew hdraw _ _ =>
    obtain ⟨read, rfl, -⟩ := hpress
    obtain ⟨_, _, hdraw⟩ := hdraw
    cases hdraw
  | chose name' _ _ hcursor' hconfirm hseen hsignal =>
    obtain rfl := Option.some.inj (hcursor.symm.trans hcursor')
    exact .inr ⟨name, hname, hconfirm, hsignal.2, hseen⟩
  | stopped _ _ hsome _ _ => exact absurd hnone hsome
  | cancelled hnot _ _ _ => exact absurd hpress hnot

/-- A stop right after the choice is not confirmed. -/
theorem not_confirmed {before rest : List Seen} {name : Bytes} :
    ¬ Confirmed color (before ++ [.chose name, .stopped name] ++ rest) := by
  intro h
  obtain ⟨before', frames, hsplit, hframes, lines, hlines, -⟩ := h (before ++ [.chose name]) name rest (by simp)
  rcases List.eq_nil_or_concat frames with rfl | ⟨init, e, rfl⟩
  · cases hlines
  · rw [List.concat_eq_append, ← List.cons_append, ← List.append_assoc] at hsplit
    obtain ⟨-, hlast⟩ := List.append_inj' hsplit rfl
    obtain ⟨lines', he⟩ := hframes e (by simp)
    rw [he] at hlast
    cases hlast

theorem confirmed_concat {seen : List Seen} {e : Seen} (h : Confirmed color seen)
    (he : ∀ name, e = .stopped name → ∃ before frames, seen = before ++ .chose name :: frames ∧
      (∀ e ∈ frames, ∃ lines, e = .frame lines) ∧ ∃ lines, .frame lines ∈ frames ∧ lines.getLast? = some (prompt name color)) :
    Confirmed color (seen ++ [e]) := by
  intro pre name post hsplit
  rcases List.eq_nil_or_concat post with rfl | ⟨post, x, rfl⟩
  · obtain ⟨rfl, hlast⟩ := List.append_inj' hsplit rfl
    exact he name (List.cons.inj hlast).1
  · rw [List.concat_eq_append, ← List.cons_append, ← List.append_assoc] at hsplit
    exact h pre name post (List.append_inj' hsplit rfl).1

/-- Every stop is confirmed exactly if no two `k` are read between two frames, the first
of them on a container. -/
theorem confirmed_iff (h : run D color stored sort_key as = some t) : Confirmed color t.seen ↔ ¬ Hasty D color stored sort_key as := by
  constructor
  · rintro hconfirmed ⟨pre, k, mid, k', post, s, rfl, hs, hchooses, hk, hk', hmid⟩
    unfold run at h hs
    rw [List.foldlM_append] at h
    obtain ⟨s', hs', h⟩ := Option.bind_eq_some_iff.1 h
    obtain rfl := Option.some.inj (hs.symm.trans hs')
    obtain ⟨u, hu, h⟩ := Option.bind_eq_some_iff.1 h
    rcases press_chooses hu hchooses hk with hdone | ⟨name, hname, hconfirm, hinterrupted, hseen⟩
    · exact idle_reads_nothing h (.inl hdone) k' (by simp) hk'
    · rw [← List.singleton_append, ← List.append_assoc, List.foldlM_append] at h
      obtain ⟨v, hv, h⟩ := Option.bind_eq_some_iff.1 h
      have hquiet : ∀ a ∈ mid ++ [k'], ¬ a.Draws ∧ a ≠ .signal := by
        refine List.forall_mem_append.2 ⟨hmid, List.forall_mem_singleton.2 ?_⟩
        obtain ⟨read, rfl, -⟩ := hk'
        exact ⟨poll_draws read, nofun⟩
      have hstops := hasty_stops hv hname hconfirm hinterrupted hseen hquiet ⟨k', by simp, hk'⟩
      obtain ⟨rest, hrest⟩ := hstops.trans (steps_seen h)
      exact not_confirmed (hrest ▸ hconfirmed)
  · intro hslow
    induction as using List.reverseRecOn generalizing t with
    | nil =>
      obtain rfl := Option.some.inj h
      exact fun pre name post hsplit => by simp [Loop.start] at hsplit
    | append_singleton as a ih =>
      obtain ⟨u, hu, hstep⟩ := foldlM_concat.1 h
      have hbefore : Confirmed color u.seen := ih hu fun ⟨pre, k, mid, k', post, s, hsplit, hhasty⟩ =>
        hslow ⟨pre, k, mid, k', post ++ [a], s, by simp [hsplit], hhasty⟩
      cases step_ends hstep with
      | quiet _ _ hseen _ _ => exact hseen ▸ hbefore
      | drew _ _ hseen =>
        obtain ⟨lines, hseen, -⟩ := hseen
        exact hseen ▸ confirmed_concat hbefore nofun
      | chose _ _ _ _ _ hseen _ => exact hseen ▸ confirmed_concat hbefore nofun
      | cancelled _ _ hseen _ => exact hseen ▸ confirmed_concat hbefore nofun
      | stopped hpress hinterrupted hconfirm _ hseen =>
        obtain ⟨pre, k, mid, s, before, frames, rfl, hs, hchooses, hk, hsplit, hframes, hnone⟩ := pending hu hconfirm
        rw [hseen]
        refine confirmed_concat hbefore fun name hname => ?_
        obtain rfl := Seen.stopped.inj hname
        have hsome : frames ≠ [] := fun hempty => hslow ⟨pre, k, mid, a, [], s, by simp, hs, hchooses, hk, hpress, fun b hb =>
          ⟨hnone hempty b hb, fun hsignal => not_signalled hu hinterrupted (by simp [← hsignal, hb])⟩⟩
        obtain ⟨e, he⟩ := List.exists_mem_of_ne_nil _ hsome
        obtain ⟨lines, rfl, hlines⟩ := hframes e he
        exact ⟨before, frames, hsplit, fun e he => (hframes e he).imp fun _ h => h.1, lines, he, hlines⟩

end Run

end

/-- A frame, and `k` twice before the next one. -/
def twice : List (Act Rat) := [.draw false {}, .poll (bytes "k"), .poll (bytes "k")]

theorem twice_run : ∃ t, run exact_printed true (listed ["web"]) .Name twice = some t ∧
    t.seen.drop 1 = [.chose (bytes "web"), .stopped (bytes "web")] := by
  have hseen : (run exact_printed true (listed ["web"]) .Name twice).map (fun t => t.seen.drop 1) =
      some [.chose (bytes "web"), .stopped (bytes "web")] := by decide +kernel
  exact Option.map_eq_some_iff.1 hseen

theorem confirmed_iff_twice : ∃ t, run exact_printed true (listed ["web"]) .Name twice = some t ∧
    (Confirmed true t.seen ↔ ¬ Hasty exact_printed true (listed ["web"]) .Name twice) := by
  obtain ⟨t, ht, -⟩ := twice_run
  exact ⟨t, ht, confirmed_iff ht⟩

/-- The container is stopped, and its name was in no question on the screen. -/
theorem stopped_unasked : ¬ ∀ (as : List (Act Rat)) (t : Loop Rat), run exact_printed true (listed ["web"]) .Name as = some t →
    Confirmed true t.seen := by
  intro h
  obtain ⟨t, ht, hseen⟩ := twice_run
  have hconfirmed := h twice t ht
  rw [← List.take_append_drop 1 t.seen, hseen] at hconfirmed
  exact @not_confirmed true (t.seen.take 1) [] (bytes "web") (by simpa using hconfirmed)

end Hostely.Top
