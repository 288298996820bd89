import Hostely.Apps.Reconcile
import Hostely.Lib.Runs
/-!
# Two apps side by side

A container is found by its name alone, which joins the name of the app and that of
the service with a dash. Both may contain dashes, so two apps may mean one container.
-/

open Hostely.Lib Hostely.Services

namespace Hostely.Apps

/-- The container that a command is about; `run` makes a new one. -/
def target : Command → Option Bytes
  | .stop name => some name
  | .rm name => some name
  | .start name => some name
  | .run _ => none

/-- A call on one of the two apps. -/
def step_either (m : Manager) (a b : Bytes) (h : Host) (c : AppCall) (h' : Host) : Prop :=
  (c.app = a ∨ c.app = b) ∧ (c.run m h).host = h'

/-- The machine before either app was up. -/
structure Unused (dir a b : Bytes) (h : Host) : Prop where
  state_dir : h.state_dir = dir
  states : load_state h a = none ∧ load_state h b = none
  containers : ∀ n k, h.containers n = some k → k.app ≠ a ∧ k.app ≠ b

/-- The compose file of a call has services of these names only. -/
def UsesNames (used : Bytes → Bytes → Prop) (c : AppCall) : Prop :=
  match c with
  | .up w dir _ extra_env => ∀ compose_path ss, prepare w dir extra_env = .ok (compose_path, ss) →
    ∀ s ∈ ss, used c.app s.name
  | _ => True

/-- The call leaves the containers of the other app alone: it sends no command about
one, and each is there as it was. -/
def Spares (m : Manager) (a b : Bytes) (c : AppCall) (h : Host) : Prop :=
  ∀ n k, h.containers n = some k → (k.app = a ∨ k.app = b) → k.app ≠ c.app →
    (∀ cmd ∈ (c.run m h).commands, target cmd ≠ some n) ∧ (c.run m h).host.containers n = some k

/-- App `b` is called `a-r` and has a service `t`, and `a` has a service `r-t`. -/
def Ambiguous (used : Bytes → Bytes → Prop) (a b : Bytes) : Prop :=
  ∃ r t, b = a ++ bytes "-" ++ r ∧ used a (r ++ bytes "-" ++ t) ∧ used b t

def Clear (used : Bytes → Bytes → Prop) (a b : Bytes) : Prop := ¬ Ambiguous used a b ∧ ¬ Ambiguous used b a

/-- Whatever calls were made on the two apps, the next one spares the other app. -/
def AlwaysSpared (m : Manager) (used : Bytes → Bytes → Prop) (dir a b : Bytes) : Prop :=
  ∀ h, Reaches (guarded (fun _ c => UsesNames used c) (step_either m a b)) (Unused dir a b) h →
    ∀ c, (c.app = a ∨ c.app = b) → UsesNames used c → Spares m a b c h

/-! ## Names -/

/-- Two apps mean one container when one is called like the other with something after
a dash, which is then in front of the other's service. -/
theorem container_name_eq {a b s t : Bytes} (hab : a ≠ b) (h : container_name a s = container_name b t) :
    (∃ r, b = a ++ bytes "-" ++ r ∧ s = r ++ bytes "-" ++ t) ∨ ∃ r, a = b ++ bytes "-" ++ r ∧ t = r ++ bytes "-" ++ s := by
  have hdash : bytes "-" = [45] := by decide
  -- the longer name has the dash of the shorter at the same place
  have longer : ∀ {a b s t x : Bytes}, a ≠ b → b = a ++ x → bytes "-" ++ s = x ++ (bytes "-" ++ t) →
      ∃ r, b = a ++ bytes "-" ++ r ∧ s = r ++ bytes "-" ++ t := by
    intro a b s t x hab hb hx
    cases x with
    | nil => exact absurd (hb.trans (List.append_nil a)).symm hab
    | cons c r =>
      rw [hdash] at hx ⊢
      obtain ⟨rfl, hs⟩ := List.cons.inj hx
      exact ⟨r, by simpa using hb, by simpa using hs⟩
  rw [container_name, container_name, List.append_assoc, List.append_assoc] at h
  rcases List.append_eq_append_iff.1 h with ⟨x, hb, hx⟩ | ⟨x, ha, hx⟩
  · exact .inl (longer hab hb hx)
  · exact .inr (longer hab.symm ha hx)

theorem ambiguous_iff {used : Bytes → Bytes → Prop} {a b : Bytes} (hab : a ≠ b) :
    (∃ s t, used a s ∧ used b t ∧ container_name a s = container_name b t) ↔ Ambiguous used a b ∨ Ambiguous used b a := by
  constructor
  · rintro ⟨s, t, hs, ht, he⟩
    rcases container_name_eq hab he with ⟨r, hb, rfl⟩ | ⟨r, ha, rfl⟩
    · exact .inl ⟨r, t, hb, hs, ht⟩
    · exact .inr ⟨r, s, ha, ht, hs⟩
  · rintro (⟨r, t, rfl, hs, ht⟩ | ⟨r, s, rfl, ht, hs⟩)
    · exact ⟨_, t, hs, ht, by simp [container_name]⟩
    · exact ⟨s, _, hs, ht, by simp [container_name]⟩

/-! ## What one call does -/

/-- From `h` a call on `app` went no further than the containers of these names. -/
structure Within (app : Bytes) (mine : Bytes → Prop) (h : Host) (e : Ended) : Prop where
  state_dir : e.host.state_dir = h.state_dir
  files : ∀ file, file ≠ app_state_file h.state_dir app → e.host.files file = h.files file
  commands : ∀ cmd ∈ e.commands, ∀ n, target cmd = some n → mine n
  others : ∀ n, ¬ mine n → e.host.containers n = h.containers n
  own : ∀ n k, e.host.containers n = some k → h.containers n = some k ∨ (k.app = app ∧ mine n)
  entries : ∀ s ∈ old_services e.host app, mine s.container

/-- The same of the loop, which writes no file. -/
structure UpWithin (app : Bytes) (mine : Bytes → Prop) (h : Host) (u : Up) : Prop where
  state_dir : u.host.state_dir = h.state_dir
  files : u.host.files = h.files
  commands : ∀ cmd ∈ u.commands, ∀ n, target cmd = some n → mine n
  others : ∀ n, ¬ mine n → u.host.containers n = h.containers n
  own : ∀ n k, u.host.containers n = some k → h.containers n = some k ∨ (k.app = app ∧ mine n)
  services : ∀ s ∈ u.services, mine s.container

section
variable {m : Manager} {w : World} {app : Bytes} {mine : Bytes → Prop} {h : Host} {u : Up}

theorem reconcile_commands {cli : Nat → Verb → CliResult} {service name fingerprint : Bytes} (old : List AppServiceState) :
    ∀ cmd ∈ (reconcile m cli service name fingerprint old).2, target cmd = some name := by
  have hfold (l : List (AppServiceState × Nat)) (acc : Bool × List Command) (hacc : ∀ cmd ∈ acc.2, target cmd = some name) :
      ∀ cmd ∈ (l.foldl (reconcile_entry m cli service name fingerprint) acc).2, target cmd = some name := by
    induction l generalizing acc with
    | nil => exact hacc
    | cons e l ih =>
      refine ih _ ?_
      unfold reconcile_entry
      split
      · exact hacc
      · split
        · split
          · exact hacc
          · exact List.forall_mem_append.2 ⟨hacc, by simp [target]⟩
          · exact hacc
        · exact hacc
  exact hfold _ _ fun _ hc => absurd hc List.not_mem_nil

theorem stop_target (m : Manager) (name : Bytes) : ∀ cmd ∈ m.stop name, target cmd = some name := by
  unfold Manager.stop
  split
  · exact fun _ hc => absurd hc List.not_mem_nil
  · exact List.forall_mem_singleton.2 rfl

theorem run_target (m : Manager) (r : CliResult) (opts : RunOptions) : ∀ cmd ∈ (m.run r opts).1, target cmd = none := by
  unfold Manager.run
  split
  · exact fun _ hc => absurd hc List.not_mem_nil
  · split
    · exact fun _ hc => absurd hc List.not_mem_nil
    · exact List.forall_mem_singleton.2 rfl

theorem UpWithin.more (hu : UpWithin app mine h u) {name : Bytes} (hname : mine name) {commands : List Command}
    (hc : ∀ cmd ∈ commands, target cmd = some name ∨ target cmd = none) :
    UpWithin app mine h { u with commands := u.commands ++ commands } := by
  refine ⟨hu.state_dir, hu.files, List.forall_mem_append.2 ⟨hu.commands, fun cmd hmem n hn => ?_⟩, hu.others, hu.own,
    hu.services⟩
  rcases hc cmd hmem with ht | ht
  · obtain rfl := Option.some.inj (ht.symm.trans hn)
    exact hname
  · cases ht.symm.trans hn

theorem UpWithin.rm (hu : UpWithin app mine h u) {name : Bytes} (hname : mine name) (r : CliResult) :
    UpWithin app mine h { u with host := u.host.rm_container r name } := by
  have hchanged := rm_container_changed u.host r name
  refine ⟨by simpa using hu.state_dir, by simpa using hu.files, hu.commands, fun n hn => ?_, fun n k hk => ?_, hu.services⟩
  · have hne : n ≠ name := fun he => hn (he ▸ hname)
    exact (hchanged.kept n (by simpa using hne)).trans (hu.others n hn)
  · rcases hchanged.gone n List.not_mem_nil with he | he
    · exact hu.own n k (he.symm.trans hk)
    · cases he.symm.trans hk

theorem UpWithin.launch (hu : UpWithin app mine h u) {name : Bytes} (hname : mine name) (s : ComposeService) :
    UpWithin app mine h { u with host := u.host.launch name ⟨s, app⟩ } := by
  refine ⟨hu.state_dir, hu.files, hu.commands, fun n hn => ?_, fun n k hk => ?_, hu.services⟩
  · have hne : n ≠ name := fun he => hn (he ▸ hname)
    exact (Function.update_of_ne hne _ _).trans (hu.others n hn)
  · by_cases hne : n = name
    · subst hne
      have hself : (u.host.launch n ⟨s, app⟩).containers n = some ⟨s, app⟩ := Function.update_self ..
      obtain rfl := Option.some.inj (hself.symm.trans hk)
      exact .inr ⟨rfl, hname⟩
    · exact hu.own n k ((Function.update_of_ne hne _ _).symm.trans hk)

theorem UpWithin.record (hu : UpWithin app mine h u) {st : AppServiceState} (hst : mine st.container) :
    UpWithin app mine h { u with services := u.services ++ [st] } :=
  ⟨hu.state_dir, hu.files, hu.commands, hu.others, hu.own,
    List.forall_mem_append.2 ⟨hu.services, List.forall_mem_singleton.2 hst⟩⟩

theorem UpWithin.claim (hu : UpWithin app mine h u) (claimed_ports : List Int) :
    UpWithin app mine h { u with claimed_ports := claimed_ports } :=
  ⟨hu.state_dir, hu.files, hu.commands, hu.others, hu.own, hu.services⟩

theorem UpWithin.clear_stale (hu : UpWithin app mine h u) {s : ComposeService} (hs : mine (container_name app s.name)) :
    UpWithin app mine h (clear_stale m w app s u) := by
  have hcommands : ∀ cmd ∈ m.stop (container_name app s.name) ++ [.rm (container_name app s.name)],
      target cmd = some (container_name app s.name) ∨ target cmd = none := by
    intro cmd hc
    rcases List.mem_append.1 hc with hc | hc
    · exact .inl (stop_target m _ cmd hc)
    · exact .inl (by rw [List.mem_singleton.1 hc, target])
  have hboth := (hu.rm hs (w.cli u.services.length 0 .rm)).more hs hcommands
  rwa [← List.append_assoc] at hboth

theorem UpWithin.finish (hu : UpWithin app mine h u) {s : ComposeService} (hs : mine (container_name app s.name))
    (fingerprint : Bytes) (needs_run : Bool) (ports : List (Bytes × Bytes)) :
    UpWithin app mine h (finish_service m w app s fingerprint needs_run ports u).1 := by
  unfold finish_service
  cases needs_run with
  | false => exact hu.record hs
  | true =>
    rw [if_pos rfl]
    have hnone := run_target m (w.cli u.services.length 0 .run) (run_options app s ports)
    cases hr : m.run (w.cli u.services.length 0 .run) (run_options app s ports) with
    | mk commands r =>
      rw [hr] at hnone
      have hrun : UpWithin app mine h { u with commands := u.commands ++ commands } :=
        hu.more hs fun cmd hc => .inr (hnone cmd hc)
      cases r with
      | error e => exact hrun
      | ok id => exact (hrun.launch hs s).record hs

theorem UpWithin.service (hu : UpWithin app mine h u) {s : ComposeService} (hs : mine (container_name app s.name)) :
    UpWithin app mine h (up_service m w app s u).1 := by
  have hattempt := @up_service_attempt m w app s u
  generalize up_service m w app s u = r at hattempt ⊢
  have hstarted {fingerprint : Bytes} {needs_run : Bool} {started : List Command}
      (hr : reconcile m (w.cli u.services.length) s.name (container_name app s.name) fingerprint
        (old_services u.host app) = (needs_run, started)) :
      UpWithin app mine h { u with commands := u.commands ++ started } := by
    have hname := @reconcile_commands m (w.cli u.services.length) s.name (container_name app s.name) fingerprint
      (old_services u.host app)
    rw [hr] at hname
    exact hu.more hs fun cmd hc => .inl (hname cmd hc)
  cases hattempt with
  | thrown hf => exact hu
  | @endless fingerprint needs_run started hf hr =>
    cases needs_run with
    | false => exact hstarted hr
    | true => exact (hstarted hr).clear_stale hs
  | kept hf hr hp => exact ((hstarted hr).claim _).record hs
  | run hf hr hp => exact (((hstarted hr).clear_stale hs).claim _).finish hs _ _ _

theorem UpWithin.services_loop {ss : List ComposeService} (hu : UpWithin app mine h u)
    (hss : ∀ s ∈ ss, mine (container_name app s.name)) : UpWithin app mine h (up_services m w app ss u).1 := by
  induction ss generalizing u with
  | nil => exact hu
  | cons s rest ih =>
    obtain ⟨hs, hrest⟩ := List.forall_mem_cons.1 hss
    have hone := @UpWithin.service m w app mine h u hu s hs
    unfold up_services
    cases hround : up_service m w app s u with
    | mk u₁ halt =>
      rw [hround] at hone
      cases halt with
      | none => exact ih hone hrest
      | some halt => exact hone

theorem UpWithin.ended (hu : UpWithin app mine h u) (hold : ∀ e ∈ old_services h app, mine e.container)
    (halt : Option Halt) : Within app mine h ⟨u.host, u.commands, halt⟩ := by
  refine ⟨hu.state_dir, fun file _ => congrFun hu.files file, hu.commands, hu.others, hu.own, ?_⟩
  rw [old_services_congr app hu.files hu.state_dir]
  exact hold

/-- The state file is written after the loop. -/
theorem UpWithin.written (hu : UpWithin app mine h u) {content : Option Content}
    (hnew : ∀ e ∈ old_services (u.host.write (app_state_file u.host.state_dir app) content) app, mine e.container)
    (halt : Option Halt) :
    Within app mine h ⟨u.host.write (app_state_file u.host.state_dir app) content, u.commands, halt⟩ := by
  refine ⟨hu.state_dir, fun file hne => ?_, hu.commands, hu.others, hu.own, hnew⟩
  rw [← hu.state_dir] at hne
  exact (Function.update_of_ne hne _ _).trans (congrFun hu.files file)

theorem up_within {dir : Bytes} {name_override : Option Bytes} {extra_env : List (Bytes × Bytes)}
    (hold : ∀ e ∈ old_services h (app_name dir name_override), mine e.container)
    (hss : ∀ compose_path ss, prepare w dir extra_env = .ok (compose_path, ss) →
      ∀ s ∈ ss, mine (container_name (app_name dir name_override) s.name)) :
    Within (app_name dir name_override) mine h (app_up m w dir name_override extra_env h) := by
  have hstart : UpWithin (app_name dir name_override) mine h ⟨h, [], [], []⟩ :=
    ⟨rfl, rfl, fun _ hc => absurd hc List.not_mem_nil, fun _ _ => rfl, fun _ _ hk => .inl hk,
      fun _ hs => absurd hs List.not_mem_nil⟩
  have hloop {compose_path : Bytes} {ss : List ComposeService} {u : Up} {halt : Option Halt}
      (hp : prepare w dir extra_env = .ok (compose_path, ss))
      (hu : up_services m w (app_name dir name_override) ss ⟨h, [], [], []⟩ = (u, halt)) :
      UpWithin (app_name dir name_override) mine h u := by
    have hafter := @UpWithin.services_loop m w _ mine h _ ss hstart (hss compose_path ss hp)
    rwa [hu] at hafter
  have hcalled := @app_up_called m w h dir name_override extra_env
  generalize app_up m w dir name_override extra_env h = e at hcalled ⊢
  cases hcalled with
  | unprepared hp => exact ⟨rfl, fun _ _ => rfl, hstart.commands, hstart.others, hstart.own, hold⟩
  | halted hp hu => exact (hloop hp hu).ended hold _
  | unopened hp hu hopen => exact (hloop hp hu).ended hold _
  | emptied hp hu hopen hd =>
    refine (hloop hp hu).written ?_ _
    simp [old_services, load_state]
  | saved hp hu hopen hd =>
    refine (hloop hp hu).written ?_ _
    rw [old_services_of_load (load_saved (Host.write_self ..))]
    exact (hloop hp hu).services

theorem stop_within (hold : ∀ e ∈ old_services h app, mine e.container) : Within app mine h (app_stop m app h) := by
  unfold app_stop
  cases hload : load_state h app with
  | none =>
    exact ⟨rfl, fun _ _ => rfl, fun _ hc => absurd hc List.not_mem_nil, fun _ _ => rfl, fun _ _ hk => .inl hk, hold⟩
  | some st =>
    refine ⟨rfl, fun _ _ => rfl, fun cmd hc n hn => ?_, fun _ _ => rfl, fun _ _ hk => .inl hk, hold⟩
    obtain ⟨e, he, hmem⟩ := List.mem_flatMap.1 hc
    obtain rfl := Option.some.inj ((stop_target m _ cmd hmem).symm.trans hn)
    rw [old_services_of_load hload] at hold
    exact hold e (List.mem_reverse.1 he)

theorem rm_within (hold : ∀ e ∈ old_services h app, mine e.container) : Within app mine h (app_rm m w app h) := by
  have hstop := @stop_within m app mine h hold
  unfold app_rm
  dsimp only
  split
  · exact hstop
  · obtain ⟨hfiles, hdir⟩ := remove_all_files w (old_services h app).zipIdx h
    have hchanged := remove_all_changed w (old_services h app).zipIdx h
    have hmine : ∀ n ∈ (old_services h app).zipIdx.map (fun e => e.1.container), mine n := by
      intro n hn
      obtain ⟨e, he, rfl⟩ := List.mem_map.1 hn
      exact hold e.1 (List.fst_mem_of_mem_zipIdx he)
    have hcommands : ∀ cmd ∈ (app_stop m app h).commands ++ (old_services h app).map (fun s => Command.rm s.container),
        ∀ n, target cmd = some n → mine n := by
      refine List.forall_mem_append.2 ⟨hstop.commands, fun cmd hc n hn => ?_⟩
      obtain ⟨e, he, rfl⟩ := List.mem_map.1 hc
      obtain rfl := Option.some.inj hn
      exact hold e he
    have hothers : ∀ n, ¬ mine n → (remove_all w (old_services h app).zipIdx h).containers n = h.containers n :=
      fun n hn => hchanged.kept n fun hmem => hn (hmine n hmem)
    have hown : ∀ n k, (remove_all w (old_services h app).zipIdx h).containers n = some k →
        h.containers n = some k ∨ (k.app = app ∧ mine n) := by
      intro n k hk
      rcases hchanged.gone n List.not_mem_nil with he | he
      · exact .inl (he.symm.trans hk)
      · cases he.symm.trans hk
    split
    · refine ⟨hdir, fun file hne => ?_, hcommands, hothers, hown, ?_⟩
      · have hne' : file ≠ app_state_file (remove_all w (old_services h app).zipIdx h).state_dir app := by rwa [hdir]
        exact (Function.update_of_ne hne' _ _).trans (congrFun hfiles file)
      · simp [old_services, load_state]
    · refine ⟨hdir, fun file _ => congrFun hfiles file, hcommands, hothers, hown, ?_⟩
      have hsame := old_services_congr app hfiles hdir
      exact fun e he => hold e (hsame ▸ he)

theorem call_within {c : AppCall} (hold : ∀ e ∈ old_services h c.app, mine e.container)
    (hup : UsesNames (fun app s => mine (container_name app s)) c) : Within c.app mine h (c.run m h) := by
  cases c with
  | up w dir name_override extra_env => exact up_within hold hup
  | stop app => exact stop_within hold
  | rm w app => exact rm_within hold

end

/-! ## Runs of calls on both -/

/-- The containers that an app whose services have these names may have. -/
def Mine (used : Bytes → Bytes → Prop) (app n : Bytes) : Prop := ∃ s, used app s ∧ n = container_name app s

/-- Each of the two has and remembers only containers of its own. -/
structure Separate (used : Bytes → Bytes → Prop) (dir a b : Bytes) (h : Host) : Prop where
  state_dir : h.state_dir = dir
  owned : ∀ n k, h.containers n = some k → (k.app = a ∨ k.app = b) → Mine used k.app n
  entries : ∀ app, app = a ∨ app = b → ∀ e ∈ old_services h app, Mine used app e.container

section
variable {m : Manager} {used : Bytes → Bytes → Prop} {dir a b : Bytes} {h h' : Host} {c : AppCall}

theorem usesNames_mine (hc : UsesNames used c) : UsesNames (fun app s => Mine used c.app (container_name app s)) c := by
  cases c with
  | up w dir name_override extra_env => exact fun compose_path ss hp s hs => ⟨s.name, hc compose_path ss hp s hs, rfl⟩
  | stop app => trivial
  | rm w app => trivial

theorem separate_within (hs : Separate used dir a b h) (happ : c.app = a ∨ c.app = b) (hc : UsesNames used c) :
    Within c.app (Mine used c.app) h (c.run m h) :=
  call_within (hs.entries c.app happ) (usesNames_mine hc)

theorem separate_step (hfiles : app_state_file dir a ≠ app_state_file dir b) (hs : Separate used dir a b h)
    (hc : UsesNames used c) (hstep : step_either m a b h c h') : Separate used dir a b h' := by
  obtain ⟨happ, rfl⟩ := hstep
  have hw := @separate_within m used dir a b h c hs happ hc
  refine ⟨hw.state_dir.trans hs.state_dir, fun n k hk hboth => ?_, fun app hboth => ?_⟩
  · rcases hw.own n k hk with hold | ⟨happ, hmine⟩
    · exact hs.owned n k hold hboth
    · rwa [happ]
  · by_cases he : app = c.app
    · subst he
      exact hw.entries
    · have hfile : app_state_file h.state_dir app ≠ app_state_file h.state_dir c.app := by
        rw [hs.state_dir]
        rcases hboth with rfl | rfl <;> rcases happ with happ | happ <;> rw [happ] at he ⊢
        · exact absurd rfl he
        · exact hfiles
        · exact hfiles.symm
        · exact absurd rfl he
      have hsame : old_services (c.run m h).host app = old_services h app := by
        rw [old_services, load_state, hw.state_dir, hw.files _ hfile]
        rfl
      rw [hsame]
      exact hs.entries app hboth

/-- Where no name is ambiguous a call spares the other app. -/
theorem separate_spares (hab : a ≠ b) (hclear : Clear used a b) (hs : Separate used dir a b h)
    (happ : c.app = a ∨ c.app = b) (hc : UsesNames used c) : Spares m a b c h := by
  intro n k hk hboth hne
  have hw := @separate_within m used dir a b h c hs happ hc
  have hother : ¬ Mine used c.app n := by
    rintro ⟨s, hs', hn⟩
    obtain ⟨t, ht, hn'⟩ := hs.owned n k hk hboth
    have hname : container_name c.app s = container_name k.app t := hn.symm.trans hn'
    refine (ambiguous_iff hab).not.2 (not_or.2 hclear) ?_
    rcases happ with happ | happ <;> rcases hboth with hk' | hk' <;> rw [happ] at hne hs' hname <;>
      rw [hk'] at hne ht hname
    · exact absurd rfl hne
    · exact ⟨s, t, hs', ht, hname⟩
    · exact ⟨t, s, ht, hs', hname.symm⟩
    · exact absurd rfl hne
  exact ⟨fun cmd hcmd ht => hother (hw.commands cmd hcmd n ht), (hw.others n hother).trans hk⟩

end

/-! ## One container for two apps -/

def soloService (s : Bytes) : ComposeService := ⟨s, bytes "nginx", [], [], [], [], [], [], []⟩

/-- `app_up` on a compose file with one service, on a machine that does what it is told. -/
def soloUp (app s : Bytes) : AppCall := .up (toyWorld [soloService s] fun _ => false) [] (some app) []

section
variable {m : Manager} {app s : Bytes} {h : Host}

theorem soloUp_app (happ : app ≠ []) : (soloUp app s).app = app := if_pos happ

theorem solo_prepare (s : Bytes) :
    prepare (toyWorld [soloService s] fun _ => false) [] [] = .ok (bytes "shop/compose.yaml", [soloService s]) := by
  have htopo : topo_sort [soloService s] = .ok [soloService s] := by
    simp [topo_sort, visit, soloService, Topo.paint]
    rfl
  simp only [prepare, toyWorld, htopo]
  rfl

theorem up_services_one (m : Manager) (w : World) (app : Bytes) (s : ComposeService) (u : Up) :
    (up_services m w app [s] u).1 = (up_service m w app s u).1 := by
  unfold up_services
  cases up_service m w app s u with
  | mk u' halt => cases halt <;> rfl

theorem finish_service_commands (m : Manager) (w : World) (app : Bytes) (s : ComposeService) (fingerprint : Bytes)
    (needs_run : Bool) (ports : List (Bytes × Bytes)) (u : Up) :
    ∀ cmd ∈ u.commands, cmd ∈ (finish_service m w app s fingerprint needs_run ports u).1.commands := by
  intro cmd hcmd
  unfold finish_service
  cases needs_run with
  | false => exact hcmd
  | true =>
    rw [if_pos rfl]
    cases hr : m.run (w.cli u.services.length 0 .run) (run_options app s ports) with
    | mk commands r => cases r <;> exact List.mem_append_left _ hcmd

/-- The service is new to its app: the round clears the name of its container and then
takes it. -/
theorem solo_round (hold : old_services h app = []) :
    .rm (container_name app s) ∈
        (up_services m (toyWorld [soloService s] fun _ => false) app [soloService s] ⟨h, [], [], []⟩).1.commands ∧
      (m.available = true →
        (up_services m (toyWorld [soloService s] fun _ => false) app [soloService s] ⟨h, [], [], []⟩).1.host.containers
          (container_name app s) = some ⟨soloService s, app⟩) := by
  obtain ⟨fingerprint, hf⟩ : ∃ fingerprint, config_fingerprint (soloService s) = some fingerprint :=
    Option.isSome_iff_exists.1 (show (config_fingerprint (soloService [])).isSome = true by decide +kernel)
  have hround : up_service m (toyWorld [soloService s] fun _ => false) app (soloService s) ⟨h, [], [], []⟩ =
      finish_service m (toyWorld [soloService s] fun _ => false) app (soloService s) fingerprint true []
        (clear_stale m (toyWorld [soloService s] fun _ => false) app (soloService s) ⟨h, [], [], []⟩) := by
    unfold up_service
    rw [hf]
    simp only [hold]
    rfl
  rw [up_services_one, hround]
  constructor
  · refine finish_service_commands _ _ _ _ _ _ _ _ _ ?_
    exact List.mem_append_right _ (List.mem_singleton.2 rfl)
  · intro hm
    have hstarts : starts m (toyWorld [soloService s] fun _ => false) 0 (soloService s) = true := by
      rw [starts, hm]
      rfl
    rcases @finish_service_run m (toyWorld [soloService s] fun _ => false) app (soloService s) fingerprint []
        (clear_stale m (toyWorld [soloService s] fun _ => false) app (soloService s) ⟨h, [], [], []⟩) with
      ⟨_, u, he, hhost, _⟩ | ⟨hno, _⟩
    · rw [he, hhost]
      exact Function.update_self ..
    · exact absurd (hstarts.symm.trans hno) (by decide)

/-- What the loop leaves of containers and commands, the call leaves. -/
theorem solo_run (happ : app ≠ []) (hold : old_services h app = []) :
    .rm (container_name app s) ∈ ((soloUp app s).run m h).commands ∧
      (m.available = true → ((soloUp app s).run m h).host.containers (container_name app s) = some ⟨soloService s, app⟩) := by
  have hname : app_name [] (some app) = app := if_pos happ
  have hround := @solo_round m app s h hold
  have hcalled := @app_up_called m (toyWorld [soloService s] fun _ => false) h [] (some app) []
  have same {compose_path : Bytes} {ss : List ComposeService}
      (hp : prepare (toyWorld [soloService s] fun _ => false) [] [] = .ok (compose_path, ss)) : ss = [soloService s] :=
    (Prod.mk.inj (Except.ok.inj (hp.symm.trans (solo_prepare s)))).2
  have hrun : (soloUp app s).run m h = app_up m (toyWorld [soloService s] fun _ => false) [] (some app) [] h := rfl
  rw [hrun]
  generalize app_up m (toyWorld [soloService s] fun _ => false) [] (some app) [] h = e at hcalled ⊢
  cases hcalled with
  | unprepared hp => cases hp.symm.trans (solo_prepare s)
  | halted hp hu | unopened hp hu hopen | emptied hp hu hopen hd | saved hp hu hopen hd =>
    obtain rfl := same hp
    rw [hname] at hu
    rw [hu] at hround
    exact hround

theorem soloUp_uses {used : Bytes → Bytes → Prop} (happ : app ≠ []) (hs : used app s) : UsesNames used (soloUp app s) := by
  intro compose_path ss hp
  obtain ⟨-, rfl⟩ := Prod.mk.inj (Except.ok.inj ((solo_prepare s).symm.trans hp))
  rw [List.forall_mem_singleton, soloUp_app happ]
  exact hs

/-- Both apps are brought up, each with the one service: the second call removes the
container of the first. -/
theorem solo_not_spared {m : Manager} (hm : m.available = true) {a b dir x y s t : Bytes}
    (hfiles : app_state_file dir y ≠ app_state_file dir x) (hx : x ≠ []) (hy : y ≠ []) (hboth : x = a ∨ x = b)
    (he : container_name x s = container_name y t) :
    ¬ Spares m a b (soloUp y t) ((soloUp x s).run m ⟨dir, fun _ => none, fun _ => none⟩).host := by
  intro hspares
  have hxy : x ≠ y := fun h => hfiles (by rw [h])
  have hfirst := (@solo_run m x s ⟨dir, fun _ => none, fun _ => none⟩ hx rfl).2 hm
  have hwithin : Within (soloUp x s).app (fun _ => True) ⟨dir, fun _ => none, fun _ => none⟩
      ((soloUp x s).run m ⟨dir, fun _ => none, fun _ => none⟩) :=
    call_within (fun _ _ => trivial) fun _ _ _ _ _ => trivial
  rw [soloUp_app hx] at hwithin
  have hold : old_services ((soloUp x s).run m ⟨dir, fun _ => none, fun _ => none⟩).host y = [] := by
    simp [old_services, load_state, hwithin.state_dir, hwithin.files _ hfiles]
  have hsecond := (@solo_run m y t _ hy hold).1
  have hspared := hspares (container_name x s) ⟨soloService s, x⟩ hfirst hboth (by rwa [soloUp_app hy])
  exact hspared.1 _ hsecond (congrArg some he.symm)

end

/-- Apps whose state files differ spare each other in every run when no service names
of theirs are ambiguous, and, where there is a CLI to launch anything, only then. -/
theorem apps_spared_iff {m : Manager} {used : Bytes → Bytes → Prop} {dir a b : Bytes}
    (hfiles : app_state_file dir a ≠ app_state_file dir b) :
    (Clear used a b → AlwaysSpared m used dir a b) ∧
      (m.available = true → a ≠ [] → b ≠ [] → AlwaysSpared m used dir a b → Clear used a b) := by
  have hab : a ≠ b := fun h => hfiles (by rw [h])
  constructor
  · intro hclear h hr c happ hc
    refine separate_spares hab hclear (Reaches.inv (I := Separate used dir a b) ?_ ?_ hr) happ hc
    · intro h hunused
      refine ⟨hunused.state_dir, fun n k hk hboth => ?_, fun app hboth => ?_⟩
      · obtain ⟨hna, hnb⟩ := hunused.containers n k hk
        exact absurd hboth (not_or.2 ⟨hna, hnb⟩)
      · have hnone : load_state h app = none := by
          rcases hboth with rfl | rfl
          · exact hunused.states.1
          · exact hunused.states.2
        simp [old_services, hnone]
    · rintro h c h' hs ⟨huses, hstep⟩
      exact separate_step hfiles hs huses hstep
  · -- a name for two containers: bring up one app, then the other
    intro hm ha hb hall
    have hnew : Unused dir a b ⟨dir, fun _ => none, fun _ => none⟩ :=
      ⟨rfl, ⟨rfl, rfl⟩, fun _ _ h => by cases h⟩
    rw [Clear, ← not_or, ← ambiguous_iff hab]
    rintro ⟨s, t, hs, ht, he⟩
    refine solo_not_spared hm hfiles.symm ha hb (.inl rfl) he (hall _ (.step (.init hnew) ⟨soloUp_uses ha hs, ?_, rfl⟩) _ ?_ ?_)
    · exact .inl (soloUp_app ha)
    · exact .inr (soloUp_app hb)
    · exact soloUp_uses hb ht

/-- The files of two apps that each have a database. -/
theorem apps_spared_toy :
    AlwaysSpared toyManager (fun _ s => s = bytes "db") (bytes "state") (bytes "shop") (bytes "blog") := by
  refine (apps_spared_iff (by decide)).1 ⟨?_, ?_⟩
  · rintro ⟨r, t, hname, -⟩
    have hhead : some (98 : UInt8) = some 115 := congrArg List.head? hname
    cases hhead
  · rintro ⟨r, t, hname, -⟩
    have hhead : some (115 : UInt8) = some 98 := congrArg List.head? hname
    cases hhead

/-- The service `b-c` of app `a` and the service `c` of app `a-b` are one container:
bringing `a-b` up removes what `a` launched. -/
theorem dashed_names_collide :
    ∃ h, Reaches (step_either toyManager (bytes "a") (bytes "a-b")) (Unused (bytes "state") (bytes "a") (bytes "a-b")) h ∧
      h.containers (bytes "a-b-c") = some ⟨soloService (bytes "b-c"), bytes "a"⟩ ∧
      .rm (bytes "a-b-c") ∈ ((soloUp (bytes "a-b") (bytes "c")).run toyManager h).commands ∧
      ¬ Spares toyManager (bytes "a") (bytes "a-b") (soloUp (bytes "a-b") (bytes "c")) h := by
  have hnew : Unused (bytes "state") (bytes "a") (bytes "a-b") ⟨bytes "state", fun _ => none, fun _ => none⟩ :=
    ⟨rfl, ⟨rfl, rfl⟩, nofun⟩
  have hreach : Reaches (step_either toyManager (bytes "a") (bytes "a-b")) (Unused (bytes "state") (bytes "a") (bytes "a-b"))
      ((soloUp (bytes "a") (bytes "b-c")).run toyManager ⟨bytes "state", fun _ => none, fun _ => none⟩).host :=
    .step (.init hnew) ⟨.inl (soloUp_app (by decide)), rfl⟩
  refine ⟨_, hreach, ?_, ?_, solo_not_spared (by decide) (by decide) (by decide) (by decide) (.inl rfl) (by decide)⟩
  · decide +kernel
  · decide +kernel

end Hostely.Apps
