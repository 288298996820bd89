import Hostely.Apps.Confined
import Hostely.Models.Resolve
/-!
# What was put up

The commands know an app by its state file alone. However the calls on all the apps of
a machine follow each other, the file of each says what the last `app up` that
succeeded left, unless an `app rm` came after it, and `ps`, `logs` and `stop` speak of
exactly these containers.
-/

open Hostely.Lib Hostely.Services

namespace Hostely.Apps

open Models (parent_path extension path_stem)

/-! ## app ps -/

/-- `ports += (ports.empty() ? "" : ", ") + h + "->" + c` -/
def ports_text (ports : List (Bytes × Bytes)) : Bytes :=
  ports.foldl (fun text (h, c) => text ++ (if text = [] then [] else bytes ", ") ++ h ++ bytes "->" ++ c) []

def status_of (m : Manager) (r : CliResult) (container : Bytes) : Bytes :=
  match m.list r with
  | .ok infos => ((infos.find? (·.name = container)).map (·.status)).getD (bytes "?")
  | .error _ => bytes "?"

def ps_line (m : Manager) (r : CliResult) (svc : AppServiceState) : Bytes :=
  svc.container ++ bytes "  " ++ status_of m r svc.container ++ bytes "  " ++ ports_text svc.ports

/-- The CLI is asked anew for each service. -/
def ps_lines (m : Manager) (ls : Nat → CliResult) (services : List AppServiceState) : List Bytes :=
  services.zipIdx.map fun (svc, i) => ps_line m (ls i) svc

/-- `entries` is what the iterator over the directory of the state files gives. -/
def app_ps (m : Manager) (ls : Bytes → Nat → CliResult) (entries : List Bytes) (h : Host) : List (Bytes × List Bytes) :=
  entries.filterMap fun path =>
    if extension path ≠ [] ∧ extension path ≠ bytes ".json" then none
    else (load_state h (path_stem path)).map fun st => (path_stem path, ps_lines m (ls path) st.services)

/-! ## app logs -/

def skipped (service : Option Bytes) (svc : AppServiceState) : Bool :=
  service.any fun name => name ≠ svc.service && name ≠ svc.container

def log_section (container text : Bytes) : Bytes :=
  bytes "── " ++ container ++ bytes " ──\n" ++ text ++ bytes "\n"

/-- The loop over the services; `logs` is what the CLI answers for the one at a place. -/
def read_logs (m : Manager) (logs : Nat → CliResult) (service : Option Bytes) (follow : Bool) :
    List (AppServiceState × Nat) → Bytes → Except Bytes Bytes
  | [], text => .ok text
  | (svc, i) :: rest, text =>
    if skipped service svc then read_logs m logs service follow rest text
    else match m.logs (logs i) svc.container with
      | .error e => .error (svc.container ++ bytes ": " ++ e.message)
      | .ok more =>
        let text := text ++ log_section svc.container more
        -- only one `container logs -f` can run
        if follow then .ok text else read_logs m logs service follow rest text

def app_logs (m : Manager) (logs : Nat → CliResult) (app : Bytes) (service : Option Bytes) (follow : Bool) (h : Host) :
    Except Bytes Bytes :=
  match load_state h app with
  | none => .error (bytes "no known app named '" ++ app ++ bytes "'")
  | some st => read_logs m logs service follow st.services.zipIdx []

/-! ## What the calls tell -/

/-- The services of an app that is up. -/
abbrev Book := Bytes → Option (List AppServiceState)

def AppCall.prepared : AppCall → Option (Bytes × List ComposeService)
  | up w dir _ extra_env => (prepare w dir extra_env).toOption
  | _ => none

/-- The services of a call of `up` as its loop left them. -/
def AppCall.services (m : Manager) (h : Host) (c : AppCall) : List AppServiceState :=
  match c with
  | up w _ _ _ =>
    match c.prepared with
    | some (_, ss) => (up_services m w c.app ss ⟨h, [], [], []⟩).1.services
    | none => []
  | _ => []

def AppCall.tells (m : Manager) (h : Host) (book : Book) (c : AppCall) : Book :=
  match c with
  | up .. => if (c.run m h).halt = none then Function.update book c.app (some (c.services m h)) else book
  | stop _ => book
  | rm w app => if w.removes then Function.update book app none else book

def calls (m : Manager) (cs : List AppCall) (s : Host × Book) : Host × Book :=
  cs.foldl (fun s c => ((c.run m s.1).host, c.tells m s.1 s.2)) s

/-- The name of the app is that of a file, and the names that go into the file are
UTF-8. -/
def AppCall.Plain (c : AppCall) : Prop :=
  47 ∉ c.app ∧ ∀ compose_path ss, c.prepared = some (compose_path, ss) → NamesDump c.app compose_path ss

/-! ## Names of state files -/

section
variable {dir app other : Bytes}

theorem state_file_plain (h : 47 ∉ app) : app_state_file dir app = (dir ++ bytes "/apps") ++ 47 :: (app ++ bytes ".json") := by
  have hrelative : looks_absolute (app ++ bytes ".json") = false := by
    cases app with
    | nil => decide
    | cons c app =>
      have hc : c ≠ 47 := fun heq => h (heq ▸ List.mem_cons_self)
      simp [looks_absolute, hc]
  unfold app_state_file
  dsimp only
  rw [hrelative, if_neg (by decide)]
  have hdash : bytes "/apps/" = bytes "/apps" ++ [47] := by decide
  rw [hdash]
  simp

theorem name_plain (h : 47 ∉ app) : 47 ∉ app ++ bytes ".json" := by
  rw [List.mem_append]
  exact fun hmem => hmem.elim h (by decide)

theorem state_file_name (h : 47 ∉ app) : Models.filename (app_state_file dir app) = app ++ bytes ".json" := by
  rw [state_file_plain h]
  exact afterLast_append (name_plain h) _

theorem state_file_parent (h : 47 ∉ app) : parent_path (app_state_file dir app) = dir ++ bytes "/apps" := by
  rw [state_file_plain h]
  exact beforeLast_append (name_plain h) _

theorem state_file_inj (h : 47 ∉ app) (h' : 47 ∉ other) (heq : app_state_file dir app = app_state_file dir other) : app = other := by
  have hname := congrArg Models.filename heq
  rw [state_file_name h, state_file_name h'] at hname
  exact List.append_cancel_right hname

theorem state_file_stem (h : 47 ∉ app) (hne : app ≠ []) :
    path_stem (app_state_file dir app) = app ∧ extension (app_state_file dir app) = bytes ".json" := by
  have hsplit : app ++ bytes ".json" = app ++ 46 :: bytes "json" := by
    have hjson : bytes ".json" = 46 :: bytes "json" := by decide
    rw [hjson]
  have hdots : app ++ bytes ".json" ≠ bytes ".." := fun heq => by
    have hlast := congrArg List.getLast? heq
    rw [List.getLast?_append_of_ne_nil _ (by decide)] at hlast
    exact absurd hlast (by decide)
  have hbefore : beforeLast 46 (app ++ bytes ".json") = app := by
    rw [hsplit]
    exact beforeLast_append (by decide) _
  have hafter : afterLast 46 (app ++ bytes ".json") = bytes "json" := by
    rw [hsplit]
    exact afterLast_append (by decide) _
  have hmem : 46 ∈ app ++ bytes ".json" := List.mem_append_right _ (by decide)
  unfold path_stem extension
  rw [state_file_name h]
  dsimp only
  rw [hbefore, hafter, if_pos ⟨hdots, hmem, hne⟩, if_pos ⟨hdots, hmem, hne⟩]
  exact ⟨rfl, by decide⟩

end

/-! ## One call -/

/-- What is told of each app is in its file, and no other file is there. -/
structure Told (h : Host) (book : Book) : Prop where
  loads : ∀ app, 47 ∉ app → (load_state h app).map AppState.services = book app
  files : ∀ file, parent_path file = h.state_dir ++ bytes "/apps" → h.files file ≠ none →
    ∃ app, book app ≠ none ∧ file = app_state_file h.state_dir app
  plain : ∀ app, book app ≠ none → 47 ∉ app ∧ app ≠ []

section
variable {m : Manager} {h h' : Host} {book : Book} {c : AppCall} {app : Bytes}

theorem load_congr (hdir : h'.state_dir = h.state_dir)
    (hfile : h'.files (app_state_file h.state_dir app) = h.files (app_state_file h.state_dir app)) :
    load_state h' app = load_state h app := by
  unfold load_state
  rw [hdir, hfile]

theorem Told.same (ht : Told h book) (hdir : h'.state_dir = h.state_dir) (hfiles : h'.files = h.files) : Told h' book where
  loads app happ := by
    rw [load_congr hdir (by rw [hfiles])]
    exact ht.loads app happ
  files file hparent hfile := by
    rw [hdir] at hparent ⊢
    rw [hfiles] at hfile
    exact ht.files file hparent hfile
  plain := ht.plain

/-- One file was written or removed. -/
theorem Told.update (ht : Told h book) (happ : 47 ∉ app) (hne : app ≠ []) (hdir : h'.state_dir = h.state_dir)
    (hothers : ∀ file, file ≠ app_state_file h.state_dir app → h'.files file = h.files file) {services : Option (List AppServiceState)}
    (hload : (load_state h' app).map AppState.services = services)
    (hpresent : h'.files (app_state_file h.state_dir app) ≠ none → services ≠ none) :
    Told h' (Function.update book app services) where
  loads other hother := by
    by_cases heq : other = app
    · rw [heq, Function.update_self]
      exact hload
    · rw [Function.update_of_ne heq, ← ht.loads other hother,
        load_congr hdir (hothers _ fun hfile => heq (state_file_inj hother happ hfile))]
  files file hparent hfile := by
    rw [hdir] at hparent ⊢
    by_cases heq : file = app_state_file h.state_dir app
    · exact ⟨app, by rw [Function.update_self]; exact hpresent (heq ▸ hfile), heq⟩
    · rw [hothers file heq] at hfile
      obtain ⟨other, hbook, rfl⟩ := ht.files file hparent hfile
      have hother : other ≠ app := fun hsame => heq (by rw [hsame])
      exact ⟨other, by rwa [Function.update_of_ne hother], rfl⟩
  plain other hother := by
    by_cases heq : other = app
    · exact heq ▸ ⟨happ, hne⟩
    · rw [Function.update_of_ne heq] at hother
      exact ht.plain other hother

/-- A call changes no other file than that of its app. -/
theorem call_frame (m : Manager) (c : AppCall) (h : Host) : (c.run m h).host.state_dir = h.state_dir ∧
    ∀ file, file ≠ app_state_file h.state_dir c.app → (c.run m h).host.files file = h.files file := by
  have huses : UsesNames (fun _ _ => True) c := by
    cases c with
    | up w dir name_override extra_env => exact fun _ _ _ _ _ => trivial
    | stop app => trivial
    | rm w app => trivial
  have hwithin := @call_within m (fun _ => True) h c (fun _ _ => trivial) huses
  exact ⟨hwithin.state_dir, hwithin.files⟩

theorem up_app_ne_nil (w : World) (dir : Bytes) (name_override : Option Bytes) (extra_env : List (Bytes × Bytes)) :
    (AppCall.up w dir name_override extra_env).app ≠ [] := by
  have hdir : app_name_from_dir dir ≠ [] := by
    unfold app_name_from_dir
    dsimp only
    split
    · decide
    · assumption
  show app_name dir name_override ≠ []
  unfold app_name
  split
  · split
    · assumption
    · exact hdir
  · exact hdir

/-- The loop over the services writes no file. -/
theorem loop_files {w : World} {ss : List ComposeService} {u : Up} {halt : Option Halt}
    (hu : up_services m w app ss ⟨h, [], [], []⟩ = (u, halt)) : u.host.state_dir = h.state_dir ∧ u.host.files = h.files := by
  have hstart : UpWithin app (fun _ => True) h ⟨h, [], [], []⟩ :=
    ⟨rfl, rfl, fun _ hc => absurd hc List.not_mem_nil, fun _ hn => absurd trivial hn, fun _ _ hk => .inl hk,
      fun _ hs => absurd hs List.not_mem_nil⟩
  have hloop := @UpWithin.services_loop m w app (fun _ => True) h _ ss hstart fun _ _ => trivial
  rw [hu] at hloop
  exact ⟨hloop.state_dir, hloop.files⟩

/-- A call of `up` that succeeds leaves its services in the file, any other one leaves
the file as it was. -/
theorem up_file {w : World} {dir : Bytes} {name_override : Option Bytes} {extra_env : List (Bytes × Bytes)}
    (hplain : (AppCall.up w dir name_override extra_env).Plain) :
    let c := AppCall.up w dir name_override extra_env
    ((c.run m h).halt = none ∧ (load_state (c.run m h).host c.app).map AppState.services = some (c.services m h)) ∨
      ((c.run m h).halt ≠ none ∧ (c.run m h).host.files = h.files) := by
  intro c
  have hcalled : Called m w h dir name_override extra_env (c.run m h) := app_up_called dir name_override extra_env
  have hprepared {compose_path : Bytes} {ss : List ComposeService} (hp : prepare w dir extra_env = .ok (compose_path, ss)) :
      c.prepared = some (compose_path, ss) := by
    show (prepare w dir extra_env).toOption = _
    rw [hp]
    rfl
  have hservices {compose_path : Bytes} {ss : List ComposeService} {u : Up} {halt : Option Halt}
      (hp : prepare w dir extra_env = .ok (compose_path, ss))
      (hu : up_services m w (app_name dir name_override) ss ⟨h, [], [], []⟩ = (u, halt)) : c.services m h = u.services := by
    show (match c.prepared with
      | some (_, ss) => (up_services m w c.app ss ⟨h, [], [], []⟩).1.services
      | none => []) = _
    rw [hprepared hp]
    exact congrArg (fun r => r.1.services) hu
  generalize c.run m h = e at hcalled
  cases hcalled with
  | unprepared hp => exact .inr ⟨by simp, rfl⟩
  | halted hp hu => exact .inr ⟨by simp, (loop_files hu).2⟩
  | unopened hp hu hopen => exact .inr ⟨by simp, (loop_files hu).2⟩
  | emptied hp hu hopen hd =>
    -- the names are UTF-8, and the rest went into the fingerprints
    have hloop := @up_services_looped m w _ _ (prepare_distinct hp (app_name dir name_override)) ⟨h, [], [], []⟩ (by simp [hu])
    rw [hu] at hloop
    obtain ⟨news, hnews, hrecords⟩ := hloop.services rfl
    rw [List.nil_append] at hnews
    have hdump := (namesDump_iff hrecords).2 (hplain.2 _ _ (hprepared hp))
    rw [← hnews, hd] at hdump
    cases hdump
  | @saved compose_path ss u hp hu hopen hd =>
    refine .inl ⟨rfl, ?_⟩
    have hload := @load_saved (u.host.write (app_state_file u.host.state_dir c.app) (some (some ⟨_, hd⟩))) _ c.app hd
      (Host.write_self ..)
    rw [hservices hp hu]
    exact congrArg (Option.map AppState.services) hload

end

/-- A known app loses its file, if that can be removed. -/
theorem rm_file (m : Manager) (w : World) (app : Bytes) (h : Host) :
    (load_state h app = none ∧ (app_rm m w app h).host = h) ∨
    (w.removes = true ∧ load_state h app ≠ none ∧ (app_rm m w app h).host.files (app_state_file h.state_dir app) = none) ∨
    (w.removes = false ∧ (app_rm m w app h).host.files = h.files) := by
  cases hload : load_state h app with
  | none => exact .inl ⟨rfl, by simp [app_rm, app_stop, hload]⟩
  | some st =>
    obtain ⟨hfiles, hdir⟩ := remove_all_files w (old_services h app).zipIdx h
    have hhost : (app_rm m w app h).host = if w.removes then
        (remove_all w (old_services h app).zipIdx h).write
          (app_state_file (remove_all w (old_services h app).zipIdx h).state_dir app) none
        else remove_all w (old_services h app).zipIdx h := by
      simp [app_rm, app_stop, hload, remove_all]
    rw [hhost]
    cases w.removes with
    | true =>
      refine .inr (.inl ⟨rfl, by simp, ?_⟩)
      rw [if_pos rfl, ← hdir]
      exact Host.write_self ..
    | false => exact .inr (.inr ⟨rfl, hfiles⟩)

/-! ## Every run -/

section
variable {m : Manager} {h : Host} {book : Book} {c : AppCall} {cs : List AppCall} {app : Bytes}

theorem Told.call (ht : Told h book) (hplain : c.Plain) : Told (c.run m h).host (c.tells m h book) := by
  obtain ⟨hdir, hothers⟩ := call_frame m c h
  cases c with
  | up w dir name_override extra_env =>
    rcases @up_file m h w dir name_override extra_env hplain with ⟨hhalt, hload⟩ | ⟨hhalt, hfiles⟩
    · have htells : (AppCall.up w dir name_override extra_env).tells m h book = Function.update book _ (some _) := if_pos hhalt
      rw [htells]
      exact ht.update hplain.1 (up_app_ne_nil w dir name_override extra_env) hdir hothers hload fun _ => by simp
    · have htells : (AppCall.up w dir name_override extra_env).tells m h book = book := if_neg hhalt
      rw [htells]
      exact ht.same hdir hfiles
  | stop app => exact ht.same hdir (by rw [AppCall.run, app_stop_host])
  | rm w app =>
    rcases rm_file m w app h with ⟨hload, hhost⟩ | ⟨hremoves, hload, hfile⟩ | ⟨hremoves, hfiles⟩
    · have hbook : book app = none := by
        rw [← ht.loads app hplain.1, hload]
        rfl
      have htells : (AppCall.rm w app).tells m h book = book := by
        show (if w.removes then Function.update book app none else book) = book
        rw [← hbook, Function.update_eq_self, ite_self]
      rw [htells, AppCall.run, hhost]
      exact ht
    · have hknown : book app ≠ none := by
        rw [← ht.loads app hplain.1]
        simpa using hload
      have htells : (AppCall.rm w app).tells m h book = Function.update book app none := if_pos hremoves
      rw [htells]
      refine ht.update hplain.1 (ht.plain app hknown).2 hdir hothers ?_ fun hpresent => absurd hfile hpresent
      have hload' : load_state ((AppCall.rm w app).run m h).host app = none := by
        unfold load_state
        rw [hdir]
        show (((app_rm m w app h).host.files (app_state_file h.state_dir app)).join.bind _) = none
        rw [hfile]
        rfl
      exact congrArg (Option.map AppState.services) hload'
    · have htells : (AppCall.rm w app).tells m h book = book := if_neg (by simp [hremoves])
      rw [htells]
      exact ht.same hdir hfiles

/-- The containers are those of the services in the compose file. -/
theorem up_names {w : World} {dir : Bytes} {name_override : Option Bytes} {extra_env : List (Bytes × Bytes)}
    (hhalt : ((AppCall.up w dir name_override extra_env).run m h).halt = none) :
    let c := AppCall.up w dir name_override extra_env
    ∃ compose_path ss, c.prepared = some (compose_path, ss) ∧
      (c.services m h).map AppServiceState.container = container_names c.app ss := by
  intro c
  have hcalled : Called m w h dir name_override extra_env (c.run m h) := app_up_called dir name_override extra_env
  change (c.run m h).halt = none at hhalt
  generalize c.run m h = e at hcalled hhalt
  cases hcalled with
  | unprepared hp => cases hhalt
  | halted hp hu => cases hhalt
  | unopened hp hu hopen => cases hhalt
  | emptied hp hu hopen hd => cases hhalt
  | @saved compose_path ss u hp hu hopen hd =>
    have hprepared : c.prepared = some (compose_path, ss) := by
      show (prepare w dir extra_env).toOption = _
      rw [hp]
      rfl
    refine ⟨compose_path, ss, hprepared, ?_⟩
    have hloop := @up_services_looped m w _ _ (prepare_distinct hp (app_name dir name_override)) ⟨h, [], [], []⟩ (by simp [hu])
    rw [hu] at hloop
    obtain ⟨news, hnews, hrecords⟩ := hloop.services rfl
    rw [List.nil_append] at hnews
    have hservices : c.services m h = news := by
      show (match c.prepared with
        | some (_, ss) => (up_services m w c.app ss ⟨h, [], [], []⟩).1.services
        | none => []) = _
      rw [hprepared, ← hnews]
      exact congrArg (fun r => r.1.services) hu
    rw [hservices]
    exact records_containers hrecords

/-- What is told of an app comes from a call of `up` on it. -/
def Named (cs : List AppCall) (book : Book) : Prop :=
  ∀ app services, book app = some services → ∃ c ∈ cs, c.app = app ∧
    ∃ compose_path ss, c.prepared = some (compose_path, ss) ∧ services.map AppServiceState.container = container_names app ss

theorem named_update (hn : Named cs book) (app : Bytes) : Named cs (Function.update book app none) := by
  intro other services hbook
  by_cases heq : other = app
  · rw [heq, Function.update_self] at hbook
    cases hbook
  · rw [Function.update_of_ne heq] at hbook
    exact hn other services hbook

theorem Named.call (hn : Named cs book) (hc : c ∈ cs) : Named cs (c.tells m h book) := by
  cases c with
  | up w dir name_override extra_env =>
    unfold AppCall.tells
    dsimp only
    split
    · rename_i hhalt
      intro other services hbook
      by_cases heq : other = (AppCall.up w dir name_override extra_env).app
      · rw [heq, Function.update_self] at hbook
        obtain rfl := Option.some.inj hbook
        exact ⟨_, hc, heq.symm, heq ▸ up_names hhalt⟩
      · rw [Function.update_of_ne heq] at hbook
        exact hn other services hbook
    · exact hn
  | stop app => exact hn
  | rm w app =>
    unfold AppCall.tells
    dsimp only
    split
    · exact named_update hn app
    · exact hn

theorem calls_told (hempty : ∀ file, parent_path file = h.state_dir ++ bytes "/apps" → h.files file = none)
    (hplain : ∀ c ∈ cs, c.Plain) :
    let s := calls m cs (h, fun _ => none)
    s.1.state_dir = h.state_dir ∧ Told s.1 s.2 ∧ Named cs s.2 := by
  have hload (app : Bytes) (happ : 47 ∉ app) : load_state h app = none := by
    unfold load_state
    rw [hempty _ (state_file_parent happ)]
    rfl
  have hstart : Told h fun _ => none :=
    ⟨fun app happ => by rw [hload app happ]; rfl, fun file hparent hfile => absurd (hempty file hparent) hfile,
      fun _ hnone => absurd rfl hnone⟩
  refine foldl_inv (I := fun s : Host × Book => s.1.state_dir = h.state_dir ∧ Told s.1 s.2 ∧ Named cs s.2)
    ⟨rfl, hstart, fun _ _ hnone => by cases hnone⟩ fun s c hc hs => ?_
  obtain ⟨hdir, ht, hn⟩ := hs
  exact ⟨(call_frame m c s.1).1.trans hdir, ht.call (hplain c hc), hn.call hc⟩

/-! ## What the commands say -/

/-- An entry of the directory is the state file of an app that is up. -/
theorem Told.entry (ht : Told h book) {file : Bytes} (hparent : parent_path file = h.state_dir ++ bytes "/apps")
    (hfile : h.files file ≠ none) : ∃ app services st, book app = some services ∧ file = app_state_file h.state_dir app ∧
      path_stem file = app ∧ extension file = bytes ".json" ∧ load_state h app = some st ∧ st.services = services := by
  obtain ⟨app, hbook, rfl⟩ := ht.files file hparent hfile
  obtain ⟨happ, hne⟩ := ht.plain app hbook
  obtain ⟨services, hservices⟩ := Option.ne_none_iff_exists'.1 hbook
  obtain ⟨st, hload, hst⟩ := Option.map_eq_some_iff.1 ((ht.loads app happ).trans hservices)
  obtain ⟨hstem, hext⟩ := @state_file_stem h.state_dir app happ hne
  exact ⟨app, services, st, hservices, rfl, hstem, hext, hload, hst⟩

variable {ls : Bytes → Nat → CliResult} {entries : List Bytes}

theorem mem_app_ps (ht : Told h book)
    (hentries : ∀ file, file ∈ entries ↔ parent_path file = h.state_dir ++ bytes "/apps" ∧ h.files file ≠ none)
    {lines : List Bytes} : (app, lines) ∈ app_ps m ls entries h ↔
      ∃ services, book app = some services ∧ lines = ps_lines m (ls (app_state_file h.state_dir app)) services := by
  unfold app_ps
  rw [List.mem_filterMap]
  constructor
  · rintro ⟨file, hmem, hsome⟩
    obtain ⟨hparent, hfile⟩ := (hentries file).1 hmem
    obtain ⟨other, services, st, hbook, rfl, hstem, hext, hload, rfl⟩ := ht.entry hparent hfile
    rw [hstem, if_neg (fun hno => hno.2 hext), hload] at hsome
    obtain ⟨rfl, rfl⟩ := Prod.mk.inj (Option.some.inj hsome)
    exact ⟨_, hbook, rfl⟩
  · rintro ⟨services, hbook, rfl⟩
    have hknown : book app ≠ none := by simp [hbook]
    obtain ⟨happ, hne⟩ := ht.plain app hknown
    obtain ⟨st, hload, rfl⟩ := Option.map_eq_some_iff.1 ((ht.loads app happ).trans hbook)
    have hfile : h.files (app_state_file h.state_dir app) ≠ none := by
      intro hnone
      rw [load_state, hnone] at hload
      cases hload
    obtain ⟨hstem, hext⟩ := @state_file_stem h.state_dir app happ hne
    refine ⟨_, (hentries _).2 ⟨state_file_parent happ, hfile⟩, ?_⟩
    rw [hstem, if_neg (fun hno => hno.2 hext), hload]
    rfl

/-- No app is shown twice. -/
theorem app_ps_nodup (ht : Told h book)
    (hentries : ∀ file, file ∈ entries ↔ parent_path file = h.state_dir ++ bytes "/apps" ∧ h.files file ≠ none)
    (hnodup : entries.Nodup) : ((app_ps m ls entries h).map Prod.fst).Nodup := by
  refine List.pairwise_map.2 (List.pairwise_filterMap.2 (hnodup.imp_of_mem ?_))
  intro file file' hmem hmem' hne a ha a' ha' heq
  obtain ⟨hparent, hfile⟩ := (hentries file).1 hmem
  obtain ⟨hparent', hfile'⟩ := (hentries file').1 hmem'
  obtain ⟨app, services, st, -, rfl, hstem, hext, hload, -⟩ := ht.entry hparent hfile
  obtain ⟨app', services', st', -, rfl, hstem', hext', hload', -⟩ := ht.entry hparent' hfile'
  rw [hstem, if_neg (fun hno => hno.2 hext), hload] at ha
  rw [hstem', if_neg (fun hno => hno.2 hext'), hload'] at ha'
  obtain rfl := Option.some.inj ha
  obtain rfl := Option.some.inj ha'
  exact hne (congrArg (app_state_file h.state_dir) heq)

/-- The services whose logs are read. -/
def logged (service : Option Bytes) (follow : Bool) (services : List (AppServiceState × Nat)) : List (AppServiceState × Nat) :=
  let wanted := services.filter fun e => !skipped service e.1
  if follow then wanted.take 1 else wanted

theorem read_logs_ok {logs : Nat → CliResult} (hm : m.available = true) (hlogs : ∀ i, (logs i).ok = true) (service : Option Bytes)
    (follow : Bool) {l : List (AppServiceState × Nat)} (hl : ∀ e ∈ l, e.1.container ≠ []) (text : Bytes) :
    read_logs m logs service follow l text =
      .ok (text ++ (logged service follow l).flatMap fun e => log_section e.1.container (logs e.2).stdout_text) := by
  induction l generalizing text with
  | nil => simp [read_logs, logged]
  | cons e l ih =>
    obtain ⟨he, hl⟩ := List.forall_mem_cons.1 hl
    rw [read_logs]
    by_cases hskip : skipped service e.1 = true
    · have hlogged : logged service follow (e :: l) = logged service follow l := by
        unfold logged
        rw [List.filter_cons_of_neg (by simp [hskip])]
      rw [if_pos hskip, ih hl, hlogged]
    · rw [if_neg hskip, Manager.logs_ok hm he (hlogs e.2)]
      cases follow with
      | true => simp [logged, hskip]
      | false =>
        have hrest := ih hl (text ++ log_section e.1.container (logs e.2).stdout_text)
        simpa [logged, hskip] using hrest

theorem container_name_ne_nil (app service : Bytes) : container_name app service ≠ [] := by
  rw [container_name, List.append_assoc]
  exact List.append_ne_nil_of_right_ne_nil _ (List.append_ne_nil_of_left_ne_nil (by decide) _)

/-- After any calls on any apps: `ps` shows each app that is up, once, with the services
that its last successful `up` left, whatever was done to the other apps; `logs` reads
and `stop` stops these; and the commands know of no other app. -/
theorem overview (m : Manager) (cs : List AppCall) (h : Host)
    (hempty : ∀ file, parent_path file = h.state_dir ++ bytes "/apps" → h.files file = none) (hplain : ∀ c ∈ cs, c.Plain) :
    let s := calls m cs (h, fun _ => none)
    (∀ ls entries, (∀ file, file ∈ entries ↔ parent_path file = h.state_dir ++ bytes "/apps" ∧ s.1.files file ≠ none) →
      entries.Nodup → ((app_ps m ls entries s.1).map Prod.fst).Nodup ∧
        ∀ app lines, (app, lines) ∈ app_ps m ls entries s.1 ↔
          ∃ services, s.2 app = some services ∧ lines = ps_lines m (ls (app_state_file h.state_dir app)) services) ∧
    (∀ app, 47 ∉ app → s.2 app = none → (app_stop m app s.1).halt = some (.error (no_known_app app)) ∧
      ∀ logs service follow, app_logs m logs app service follow s.1 = .error (bytes "no known app named '" ++ app ++ bytes "'")) ∧
    ∀ app services, s.2 app = some services →
      (∃ c ∈ cs, c.app = app ∧ ∃ compose_path ss, c.prepared = some (compose_path, ss) ∧
        services.map AppServiceState.container = container_names app ss) ∧
      (app_stop m app s.1).commands = services.reverse.flatMap (fun e => m.stop e.container) ∧
      (m.available = true → ∀ logs, (∀ i, (logs i).ok = true) → ∀ service follow, app_logs m logs app service follow s.1 =
        .ok ((logged service follow services.zipIdx).flatMap fun e => log_section e.1.container (logs e.2).stdout_text)) := by
  intro s
  obtain ⟨hdir, ht, hn⟩ := @calls_told m h cs hempty hplain
  change s.1.state_dir = h.state_dir at hdir
  change Told s.1 s.2 at ht
  refine ⟨fun ls entries hentries hnodup => ?_, fun app happ hnone => ?_, fun app services hbook => ?_⟩
  · rw [← hdir] at hentries ⊢
    exact ⟨app_ps_nodup ht hentries hnodup, fun app lines => mem_app_ps ht hentries⟩
  · have hload : load_state s.1 app = none := Option.map_eq_none_iff.1 ((ht.loads app happ).trans hnone)
    refine ⟨by rw [app_stop, hload], fun logs service follow => ?_⟩
    rw [app_logs, hload]
  · have hnames := hn app services hbook
    obtain ⟨happ, -⟩ := ht.plain app (by simp [hbook])
    obtain ⟨st, hload, rfl⟩ := Option.map_eq_some_iff.1 ((ht.loads app happ).trans hbook)
    refine ⟨hnames, by rw [app_stop, hload], fun hm logs hlogs service follow => ?_⟩
    have hcontainers : ∀ e ∈ st.services.zipIdx, e.1.container ≠ [] := by
      intro e he
      obtain ⟨c, -, -, compose_path, ss, -, hnames⟩ := hnames
      have hmem := List.mem_map_of_mem (f := AppServiceState.container) (List.fst_mem_of_mem_zipIdx he)
      rw [hnames] at hmem
      obtain ⟨x, -, hx⟩ := List.mem_map.1 hmem
      rw [← hx]
      exact container_name_ne_nil app x.name
    rw [app_logs, hload]
    exact read_logs_ok hm hlogs service follow hcontainers []

end

/-- The upgrade of the shop fails halfway, and the blog is removed. -/
def shop_and_blog : List AppCall := [
  toyUp [toyService "db" "postgres:16", toyService "web" "nginx"] fun _ => false,
  soloUp (bytes "blog") (bytes "db"),
  toyUp [toyService "db" "postgres:17", toyService "web" "nginx"] fun i => i = 1,
  .rm (toyWorld [] fun _ => false) (bytes "blog")]

theorem plain_of {c : AppCall} {compose_path : Bytes} {ss : List ComposeService} (happ : 47 ∉ c.app)
    (hprepared : c.prepared = some (compose_path, ss)) (hdump : NamesDump c.app compose_path ss) : c.Plain := by
  refine ⟨happ, fun compose_path' ss' hp => ?_⟩
  obtain ⟨rfl, rfl⟩ := Prod.mk.inj (Option.some.inj (hprepared.symm.trans hp))
  exact hdump

theorem shop_and_blog_plain : ∀ c ∈ shop_and_blog, c.Plain := by
  refine List.forall_mem_cons.2 ⟨plain_of (by decide +kernel) rfl ⟨?_, ?_, ?_⟩, List.forall_mem_cons.2
    ⟨plain_of (by decide +kernel) rfl ⟨?_, ?_, ?_⟩, List.forall_mem_cons.2 ⟨plain_of (by decide +kernel) rfl ⟨?_, ?_, ?_⟩,
      List.forall_mem_singleton.2 ⟨by decide +kernel, fun _ _ hp => by cases hp⟩⟩⟩⟩ <;> decide +kernel

theorem overview_shop :
    let s := calls toyManager shop_and_blog (toyHost, fun _ => none)
    (app_stop toyManager (bytes "blog") s.1).halt = some (.error (no_known_app (bytes "blog"))) ∧
      (app_stop toyManager (bytes "shop") s.1).commands = [.stop (bytes "shop-web"), .stop (bytes "shop-db")] := by
  intro s
  obtain ⟨-, hunknown, hknown⟩ := overview toyManager shop_and_blog toyHost (fun _ _ => rfl) shop_and_blog_plain
  have hblog : s.2 (bytes "blog") = none := by decide +kernel
  have hshop : ∃ services, s.2 (bytes "shop") = some services ∧
      services.reverse.flatMap (fun e => toyManager.stop e.container) = [.stop (bytes "shop-web"), .stop (bytes "shop-db")] := by
    refine ⟨(s.2 (bytes "shop")).getD [], by decide +kernel, by decide +kernel⟩
  obtain ⟨services, hservices, hstopped⟩ := hshop
  exact ⟨(hunknown _ (by decide) hblog).1, (hknown _ services hservices).2.1.trans hstopped⟩

end Hostely.Apps
