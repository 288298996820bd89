import Hostely.Apps.App
import Hostely.Lib.Ledger
/-!
# What app_up does

`Round` says once what a round of the loop can do. From it follows what the
whole loop does to the containers (`Changed`), which services it records, and
how a call of `app_up` can end (`UpEnd`). Which services a call launches, and
whether it gets through all of them, depends on its inputs alone: `launches`.
-/

open Hostely.Lib Hostely.Services

namespace Hostely.Apps

theorem container_name_inj (app : Bytes) : Function.Injective (container_name app) := by
  intro a b h
  exact List.append_cancel_left h

theorem container_name_ne (app service : Bytes) : container_name app service ≠ [] := by
  intro h
  obtain ⟨_, hdash⟩ := List.append_eq_nil_iff.1 (List.append_eq_nil_iff.1 h).1
  exact absurd hdash (by decide)

/-! ## Reconciling -/

/-- The old entry has the service with this fingerprint. -/
def AppServiceState.Matches (e : AppServiceState) (service fingerprint : Bytes) : Prop :=
  e.service = service ∧ e.config_hash = fingerprint

section Reconcile
variable {m : Manager} {cli : Nat → Verb → CliResult} {service name fingerprint : Bytes}

/-- Only an entry that matches changes anything. -/
theorem reconcile_entry_cases (acc : Bool × List Command) (e : AppServiceState × Nat) :
    reconcile_entry m cli service name fingerprint acc e = acc ∨ e.1.Matches service fingerprint := by
  unfold reconcile_entry
  split
  · exact .inl rfl
  · split
    · exact .inr ⟨not_not.1 ‹_›, ‹_›⟩
    · exact .inl rfl

/-- A service that is kept has an entry in the old state. -/
theorem reconcile_kept {old : List AppServiceState} (h : (reconcile m cli service name fingerprint old).1 = false) :
    ∃ e ∈ old, e.Matches service fingerprint := by
  by_contra hno
  have hfold (l : List (AppServiceState × Nat)) (hl : ∀ e ∈ l, e.1 ∈ old) (acc : Bool × List Command) :
      l.foldl (reconcile_entry m cli service name fingerprint) acc = acc := by
    induction l generalizing acc with
    | nil => rfl
    | cons e l ih =>
      rw [List.foldl_cons]
      rcases reconcile_entry_cases acc e with he | he
      · rw [he]
        exact ih (fun x hx => hl x (List.mem_cons_of_mem _ hx)) acc
      · exact absurd ⟨e.1, hl e List.mem_cons_self, he⟩ hno
  rw [reconcile, hfold _ fun e he => List.fst_mem_of_mem_zipIdx he] at h
  cases h

end Reconcile

/-! ## Ports -/

theorem old_services_valid (h : Host) (app : Bytes) : ∀ e ∈ old_services h app, ValidPairs e.ports := by
  intro e he
  unfold old_services at he
  cases hst : load_state h app with
  | none =>
    rw [hst] at he
    cases he
  | some st =>
    rw [hst] at he
    obtain ⟨j, _, hread⟩ := Option.bind_eq_some_iff.1 hst
    exact read_state_valid j.2 hread e he

/-- What is recorded for a service does not depend on the ports picked for it,
once an entry has its name. -/
theorem recorded_ports_of_mem {service : Bytes} {old : List AppServiceState} (h : ∃ e ∈ old, e.service = service)
    (p q : List (Bytes × Bytes)) : recorded_ports service old p = recorded_ports service old q := by
  induction old generalizing p q with
  | nil =>
    obtain ⟨_, he, _⟩ := h
    cases he
  | cons x old ih =>
    simp only [recorded_ports, List.foldl_cons] at ih ⊢
    by_cases hx : x.service = service
    · rw [if_pos hx, if_pos hx]
    · obtain ⟨e, he, hes⟩ := h
      have hmem : e ∈ old := (List.mem_cons.1 he).resolve_left fun hxe => hx (hxe ▸ hes)
      rw [if_neg hx, if_neg hx]
      exact ih ⟨e, hmem, hes⟩ p q

theorem recorded_ports_valid {service : Bytes} {old : List AppServiceState} (h : ∀ e ∈ old, ValidPairs e.ports)
    {p : List (Bytes × Bytes)} (hp : ValidPairs p) : ValidPairs (recorded_ports service old p) := by
  induction old generalizing p with
  | nil => exact hp
  | cons x old ih =>
    simp only [recorded_ports, List.foldl_cons] at ih ⊢
    apply ih (fun e he => h e (List.mem_cons_of_mem _ he))
    split
    · exact h x List.mem_cons_self
    · exact hp

theorem pick_ports_valid {in_use : Nat → Int → Bool} {claimed claimed' : List Int} {wanted ports : List (Bytes × Bytes)}
    (hv : ValidPairs wanted) (h : pick_ports in_use claimed wanted = some (ports, claimed')) : ValidPairs ports := by
  have hstep : ∀ acc : List (Bytes × Bytes) × List Int, ∀ p ∈ wanted, ∀ acc', ValidPairs acc.1 →
      add_port in_use acc p = some acc' → ValidPairs acc'.1 := by
    intro acc p hp acc' hacc hadd
    unfold add_port at hadd
    dsimp only at hadd
    split at hadd
    · obtain rfl := Option.some.inj hadd
      exact List.forall_mem_append.2 ⟨hacc, by simpa using hv p hp⟩
    · obtain ⟨actual, _, hadd⟩ := Option.bind_eq_some_iff.1 hadd
      obtain rfl := Option.some.inj hadd
      exact List.forall_mem_append.2 ⟨hacc, by simpa using ⟨to_string_valid actual, (hv p hp).2⟩⟩
  exact foldlM_some_inv (fun acc => ValidPairs acc.1) (fun _ hp => absurd hp List.not_mem_nil) hstep h

/-! ## One round -/

section
variable (m : Manager) (w : World) (app : Bytes)

/-- The service at position `i` is to be run. -/
def recreates (old : List AppServiceState) (i : Nat) (s : ComposeService) (fingerprint : Bytes) : Bool :=
  (reconcile m (w.cli i) s.name (container_name app s.name) fingerprint old).1

/-- `mgr.run` succeeds for the service at position `i`. -/
def starts (i : Nat) (s : ComposeService) : Bool := m.available && s.image ≠ [] && (w.cli i 0 .run).ok

/-- The ways a round can go, with all it leaves. -/
inductive Attempt (s : ComposeService) (u : Up) : Up × Option Halt → Prop
  | thrown : config_fingerprint s = none → Attempt s u (u, some .thrown)
  | endless {fingerprint : Bytes} {needs_run : Bool} {started : List Command} :
    config_fingerprint s = some fingerprint →
    reconcile m (w.cli u.services.length) s.name (container_name app s.name) fingerprint (old_services u.host app) =
      (needs_run, started) →
    Attempt s u
      (if needs_run then clear_stale m w app s { u with commands := u.commands ++ started }
        else { u with commands := u.commands ++ started }, some .endless)
  | kept {fingerprint : Bytes} {started : List Command} {ports : List (Bytes × Bytes)} {claimed_ports : List Int} :
    config_fingerprint s = some fingerprint →
    reconcile m (w.cli u.services.length) s.name (container_name app s.name) fingerprint (old_services u.host app) =
      (false, started) →
    pick_ports (w.port_in_use u.services.length) u.claimed_ports s.ports = some (ports, claimed_ports) →
    Attempt s u
      ({ u with
          claimed_ports := claimed_ports
          commands := u.commands ++ started
          services := u.services ++ [⟨s.name, container_name app s.name, s.image, fingerprint,
            recorded_ports s.name (old_services u.host app) []⟩] }, none)
  | run {fingerprint : Bytes} {started : List Command} {ports : List (Bytes × Bytes)} {claimed_ports : List Int} :
    config_fingerprint s = some fingerprint →
    reconcile m (w.cli u.services.length) s.name (container_name app s.name) fingerprint (old_services u.host app) =
      (true, started) →
    pick_ports (w.port_in_use u.services.length) u.claimed_ports s.ports = some (ports, claimed_ports) →
    Attempt s u (finish_service m w app s fingerprint true ports
      { clear_stale m w app s { u with commands := u.commands ++ started } with claimed_ports := claimed_ports })

/-- The ways a round that returns can go, from `u`. -/
inductive Round (s : ComposeService) (u : Up) : Up → Option Halt → Prop
  | thrown : config_fingerprint s = none → Round s u u (some .thrown)
  | kept {fingerprint : Bytes} {u' : Up} :
    config_fingerprint s = some fingerprint →
    recreates m w app (old_services u.host app) u.services.length s fingerprint = false →
    u'.host = u.host →
    u'.services = u.services ++ [⟨s.name, container_name app s.name, s.image, fingerprint,
      recorded_ports s.name (old_services u.host app) []⟩] →
    u'.commands = u.commands ++
      (reconcile m (w.cli u.services.length) s.name (container_name app s.name) fingerprint
        (old_services u.host app)).2 →
    Round s u u' none
  | launched {fingerprint : Bytes} {ports : List (Bytes × Bytes)} {u' : Up} :
    config_fingerprint s = some fingerprint →
    recreates m w app (old_services u.host app) u.services.length s fingerprint = true →
    starts m w u.services.length s = true →
    u'.host = (u.host.rm_container (w.cli u.services.length 0 .rm) (container_name app s.name)).launch
      (container_name app s.name) ⟨s, app⟩ →
    u'.services = u.services ++ [⟨s.name, container_name app s.name, s.image, fingerprint, ports⟩] →
    ValidPairs ports →
    Round s u u' none
  | failed {fingerprint : Bytes} {message : Bytes} {u' : Up} :
    config_fingerprint s = some fingerprint →
    recreates m w app (old_services u.host app) u.services.length s fingerprint = true →
    starts m w u.services.length s = false →
    u'.host = u.host.rm_container (w.cli u.services.length 0 .rm) (container_name app s.name) →
    Round s u u' (some (.error message))

end

section
variable {m : Manager} {w : World} {app : Bytes}

theorem starts_iff (i : Nat) (s : ComposeService) (ports : List (Bytes × Bytes)) :
    (∃ id, (m.run (w.cli i 0 .run) (run_options app s ports)).2 = .ok id) ↔ starts m w i s = true := by
  rw [Manager.run_ok_iff]
  simp only [Manager.accepts, starts, Bool.and_eq_true, decide_eq_true_eq]
  simp [run_options, container_name_ne]

theorem finish_service_kept (s : ComposeService) (fingerprint : Bytes) (ports : List (Bytes × Bytes)) (u : Up) :
    finish_service m w app s fingerprint false ports u =
      ({ u with services := u.services ++ [⟨s.name, container_name app s.name, s.image, fingerprint, ports⟩] }, none) :=
  rfl

/-- The end of a round that runs the service. -/
theorem finish_service_run (s : ComposeService) (fingerprint : Bytes) (ports : List (Bytes × Bytes)) (u : Up) :
    (starts m w u.services.length s = true ∧ ∃ u', finish_service m w app s fingerprint true ports u = (u', none) ∧
      u'.host = u.host.launch (container_name app s.name) ⟨s, app⟩ ∧
      u'.services = u.services ++ [⟨s.name, container_name app s.name, s.image, fingerprint, ports⟩]) ∨
    (starts m w u.services.length s = false ∧ ∃ u' message,
      finish_service m w app s fingerprint true ports u = (u', some (.error message)) ∧ u'.host = u.host) := by
  have hiff := @starts_iff m w app u.services.length s ports
  unfold finish_service
  rw [if_pos rfl]
  cases hr : m.run (w.cli u.services.length 0 .run) (run_options app s ports) with
  | mk commands r =>
    rw [hr] at hiff
    cases r with
    | ok id => exact .inl ⟨hiff.1 ⟨id, rfl⟩, _, rfl, rfl, rfl⟩
    | error e => exact .inr ⟨by simpa using hiff, _, _, rfl, rfl⟩

theorem up_service_attempt (s : ComposeService) (u : Up) : Attempt m w app s u (up_service m w app s u) := by
  unfold up_service
  cases hf : config_fingerprint s with
  | none => exact .thrown hf
  | some fingerprint =>
    dsimp only
    cases hr : reconcile m (w.cli u.services.length) s.name (container_name app s.name) fingerprint
        (old_services u.host app) with
    | mk needs_run started =>
      cases needs_run with
      | false =>
        cases hp : pick_ports (w.port_in_use u.services.length) u.claimed_ports s.ports with
        | none => simpa [hp] using Attempt.endless hf hr
        | some picked =>
          -- the ports just picked give way to the recorded ones
          obtain ⟨e, he, hes⟩ := reconcile_kept (congrArg Prod.fst hr)
          have hne : old_services u.host app ≠ [] := List.ne_nil_of_mem he
          have hkept := Attempt.kept hf hr hp
          rw [← recorded_ports_of_mem ⟨e, he, hes.1⟩ picked.1 []] at hkept
          simpa [hp, hne, finish_service_kept] using hkept
      | true =>
        have hclaimed : (clear_stale m w app s { u with commands := u.commands ++ started }).claimed_ports =
            u.claimed_ports := rfl
        cases hp : pick_ports (w.port_in_use u.services.length) u.claimed_ports s.ports with
        | none => simpa [hclaimed, hp] using Attempt.endless hf hr
        | some picked => simpa [hclaimed, hp] using Attempt.run hf hr hp

theorem up_service_round (s : ComposeService) (u : Up) (h : (up_service m w app s u).2 ≠ some .endless) :
    Round m w app s u (up_service m w app s u).1 (up_service m w app s u).2 := by
  have hattempt := @up_service_attempt m w app s u
  generalize up_service m w app s u = r at h hattempt ⊢
  cases hattempt with
  | thrown hf => exact .thrown hf
  | endless hf hr => exact absurd rfl h
  | kept hf hr hp => exact .kept hf (congrArg Prod.fst hr) rfl rfl (by rw [hr])
  | @run fingerprint started ports claimed_ports hf hr hp =>
    have hneeds : recreates m w app (old_services u.host app) u.services.length s fingerprint = true :=
      congrArg Prod.fst hr
    rcases @finish_service_run m w app s fingerprint ports
      { clear_stale m w app s { u with commands := u.commands ++ started } with claimed_ports := claimed_ports } with
      ⟨hs, u', he, hhost, hservices⟩ | ⟨hs, u', message, he, hhost⟩
    · rw [he]
      exact .launched hf hneeds hs hhost hservices (pick_ports_valid (fingerprint_valid hf).2.1 hp)
    · rw [he]
      exact .failed hf hneeds hs hhost

end

/-! ## The loop -/

section
variable (m : Manager) (w : World) (app : Bytes) (old : List AppServiceState)

/-- The services launched from position `i` on until one stops the call, and
whether none does. -/
def launches : Nat → List ComposeService → List ComposeService × Bool
  | _, [] => ([], true)
  | i, s :: rest =>
    match config_fingerprint s with
    | none => ([], false)
    | some fingerprint =>
      if !recreates m w app old i s fingerprint then launches (i + 1) rest
      else if starts m w i s then (s :: (launches (i + 1) rest).1, (launches (i + 1) rest).2)
      else ([], false)

variable {m w app old}

theorem launches_sublist (i : Nat) (ss : List ComposeService) : (launches m w app old i ss).1.Sublist ss := by
  induction ss generalizing i with
  | nil => exact List.Sublist.refl []
  | cons s rest ih =>
    unfold launches
    split
    · exact List.nil_sublist _
    · split
      · exact (ih _).cons s
      · split
        · exact (ih _).cons_cons s
        · exact List.nil_sublist _

/-- When the loop gets through, every service was launched or has an entry with
its fingerprint. -/
theorem launches_finished {i : Nat} {ss : List ComposeService} (h : (launches m w app old i ss).2 = true) :
    ∀ s ∈ ss, s ∈ (launches m w app old i ss).1 ∨
      ∃ e ∈ old, ∃ fingerprint, config_fingerprint s = some fingerprint ∧ e.Matches s.name fingerprint := by
  induction ss generalizing i with
  | nil => exact fun _ h => absurd h List.not_mem_nil
  | cons s rest ih =>
    unfold launches at h ⊢
    cases hf : config_fingerprint s with
    | none => simp [hf] at h
    | some fingerprint =>
      simp only [hf] at h ⊢
      cases hr : recreates m w app old i s fingerprint with
      | false =>
        simp only [hr, Bool.not_false, if_true] at h ⊢
        obtain ⟨e, he, hm⟩ := reconcile_kept hr
        exact List.forall_mem_cons.2 ⟨.inr ⟨e, he, fingerprint, hf, hm⟩, ih h⟩
      | true =>
        cases hs : starts m w i s with
        | false => simp [hr, hs] at h
        | true =>
          simp only [hr, hs, Bool.not_true, Bool.false_eq_true, if_false, if_true] at h ⊢
          refine List.forall_mem_cons.2 ⟨.inl List.mem_cons_self, fun x hx => ?_⟩
          exact (ih h x hx).imp_left (List.mem_cons_of_mem _)

end

/-- The containers that launching these services places. -/
def placed (app : Bytes) (launched : List ComposeService) : List (Bytes × Container) :=
  launched.map fun s => (container_name app s.name, ⟨s, app⟩)

def container_names (app : Bytes) (ss : List ComposeService) : List Bytes :=
  ss.map fun s => container_name app s.name

theorem placed_keys (app : Bytes) (l : List ComposeService) : (placed app l).map Prod.fst = container_names app l := by
  simp [placed, container_names]

/-- The entry records the service as it is now. -/
structure AppServiceState.Records (app : Bytes) (s : ComposeService) (st : AppServiceState) : Prop where
  service : st.service = s.name
  container : st.container = container_name app s.name
  image : st.image = s.image
  hash : config_fingerprint s = some st.config_hash
  ports : ValidPairs st.ports

theorem records_of_mem {app : Bytes} {ss : List ComposeService} {news : List AppServiceState}
    (h : List.Forall₂ (AppServiceState.Records app) ss news) : ∀ st ∈ news, ∃ s ∈ ss, AppServiceState.Records app s st := by
  induction h with
  | nil => exact fun _ hst => absurd hst List.not_mem_nil
  | cons hrec _ ih =>
    refine List.forall_mem_cons.2 ⟨⟨_, List.mem_cons_self, hrec⟩, fun st hst => ?_⟩
    obtain ⟨s, hs, hr⟩ := ih st hst
    exact ⟨s, List.mem_cons_of_mem _ hs, hr⟩

theorem records_containers {app : Bytes} {ss : List ComposeService} {news : List AppServiceState}
    (h : List.Forall₂ (AppServiceState.Records app) ss news) : news.map AppServiceState.container = container_names app ss := by
  induction h with
  | nil => rfl
  | cons hrec _ ih =>
    rw [List.map_cons, ih, hrec.container]
    rfl

theorem old_services_congr {h h' : Host} (app : Bytes) (hf : h'.files = h.files) (hd : h'.state_dir = h.state_dir) :
    old_services h' app = old_services h app := by
  unfold old_services load_state
  rw [hf, hd]

theorem old_services_of_load {h : Host} {app : Bytes} {st : AppState} (hload : load_state h app = some st) :
    old_services h app = st.services := by
  rw [old_services, hload]
  rfl

section Loop
variable (m : Manager) (w : World) (app : Bytes)

/-- What the loop over `ss` does from `u`. -/
structure Looped (ss : List ComposeService) (u u' : Up) (halt : Option Halt) : Prop where
  files : u'.host.files = u.host.files
  state_dir : u'.host.state_dir = u.host.state_dir
  finished : halt = none ↔ (launches m w app (old_services u.host app) u.services.length ss).2 = true
  changed : ∃ touched, (∀ k ∈ touched, k ∈ container_names app ss) ∧
    (halt = none → ∀ k ∈ touched, k ∈ container_names app (launches m w app (old_services u.host app) u.services.length ss).1) ∧
    Changed touched (placed app (launches m w app (old_services u.host app) u.services.length ss).1)
      u.host.containers u'.host.containers
  services : halt = none → ∃ news, u'.services = u.services ++ news ∧ List.Forall₂ (AppServiceState.Records app) ss news

variable {m w app}

theorem rm_container_changed (h : Host) (r : CliResult) (name : Bytes) :
    Changed [name] [] h.containers (h.rm_container r name).containers := by
  unfold Host.rm_container
  split
  · exact Changed.erase name
  · exact ⟨by simp, fun _ _ => rfl, fun _ _ => .inl rfl⟩

@[simp] theorem rm_container_files (h : Host) (r : CliResult) (name : Bytes) :
    (h.rm_container r name).files = h.files := by
  unfold Host.rm_container
  split <;> rfl

@[simp] theorem rm_container_state_dir (h : Host) (r : CliResult) (name : Bytes) :
    (h.rm_container r name).state_dir = h.state_dir := by
  unfold Host.rm_container
  split <;> rfl

theorem looped_nil (u : Up) : Looped m w app [] u u none :=
  ⟨rfl, rfl, by simp [launches], ⟨[], by simp, by simp, Changed.refl⟩, fun _ => ⟨[], by simp, .nil⟩⟩

/-- A round that ends the call launches nothing. -/
theorem looped_halted {s : ComposeService} {u u' : Up} {halt : Halt} (h : Round m w app s u u' (some halt))
    (rest : List ComposeService) : Looped m w app (s :: rest) u u' (some halt) := by
  cases h with
  | thrown hf =>
    have hl : launches m w app (old_services u.host app) u.services.length (s :: rest) = ([], false) := by
      simp [launches, hf]
    refine ⟨rfl, rfl, by simp [hl], ⟨[], by simp, by simp, ?_⟩, by simp⟩
    rw [hl]
    exact Changed.refl
  | failed hf hr hs hhost =>
    have hl : launches m w app (old_services u.host app) u.services.length (s :: rest) = ([], false) := by
      simp [launches, hf, hr, hs]
    refine ⟨by rw [hhost]; simp, by rw [hhost]; simp, by simp [hl],
      ⟨[container_name app s.name], by simp [container_names], by simp, ?_⟩, by simp⟩
    rw [hl, hhost]
    exact rm_container_changed u.host _ _

section
variable {s : ComposeService} {rest : List ComposeService} {u u₁ u' : Up} {halt : Option Halt} {fingerprint : Bytes}
  {ports : List (Bytes × Bytes)}

/-- A round that goes on adds the record of its service. -/
theorem Looped.recorded (hf : config_fingerprint s = some fingerprint)
    (hservices : u₁.services = u.services ++ [⟨s.name, container_name app s.name, s.image, fingerprint, ports⟩])
    (hports : ValidPairs ports) (hrest : Looped m w app rest u₁ u' halt) (hn : halt = none) :
    ∃ news, u'.services = u.services ++ news ∧ List.Forall₂ (AppServiceState.Records app) (s :: rest) news := by
  obtain ⟨news, hnews, hrecords⟩ := hrest.services hn
  rw [hservices, List.append_assoc, List.singleton_append] at hnews
  exact ⟨_, hnews, .cons ⟨rfl, rfl, rfl, hf, hports⟩ hrecords⟩

/-- A service that is left alone, and the rounds after it. -/
theorem looped_kept (hf : config_fingerprint s = some fingerprint)
    (hr : recreates m w app (old_services u.host app) u.services.length s fingerprint = false)
    (hhost : u₁.host = u.host)
    (hservices : u₁.services = u.services ++ [⟨s.name, container_name app s.name, s.image, fingerprint, ports⟩])
    (hports : ValidPairs ports) (hrest : Looped m w app rest u₁ u' halt) :
    Looped m w app (s :: rest) u u' halt := by
  obtain ⟨touched, htouched, hall, hchanged⟩ := hrest.changed
  have hold : old_services u₁.host app = old_services u.host app := by rw [hhost]
  have hlen : u₁.services.length = u.services.length + 1 := by simp [hservices]
  have hl : launches m w app (old_services u.host app) u.services.length (s :: rest) =
      launches m w app (old_services u₁.host app) u₁.services.length rest := by
    rw [hold, hlen, launches]
    simp [hf, hr]
  refine ⟨hrest.files.trans (by rw [hhost]), hrest.state_dir.trans (by rw [hhost]), by rw [hl]; exact hrest.finished,
    ⟨touched, fun k hk => List.mem_cons_of_mem _ (htouched k hk), by rw [hl]; exact hall, ?_⟩, ?_⟩
  · rw [hl, ← hhost]
    exact hchanged
  · exact Looped.recorded hf hservices hports hrest

/-- A service that is recreated, and the rounds after it, none of which has its
container's name. -/
theorem looped_launched (hf : config_fingerprint s = some fingerprint)
    (hr : recreates m w app (old_services u.host app) u.services.length s fingerprint = true)
    (hs : starts m w u.services.length s = true)
    (hhost : u₁.host = (u.host.rm_container (w.cli u.services.length 0 .rm) (container_name app s.name)).launch
      (container_name app s.name) ⟨s, app⟩)
    (hservices : u₁.services = u.services ++ [⟨s.name, container_name app s.name, s.image, fingerprint, ports⟩])
    (hports : ValidPairs ports) (hrest : Looped m w app rest u₁ u' halt)
    (hnew : container_name app s.name ∉ container_names app rest) : Looped m w app (s :: rest) u u' halt := by
  obtain ⟨touched, htouched, hall, hchanged⟩ := hrest.changed
  have hfiles : u₁.host.files = u.host.files := by rw [hhost]; simp [Host.launch]
  have hdir : u₁.host.state_dir = u.host.state_dir := by rw [hhost]; simp [Host.launch]
  have hold : old_services u₁.host app = old_services u.host app := old_services_congr app hfiles hdir
  have hlen : u₁.services.length = u.services.length + 1 := by simp [hservices]
  have hl : launches m w app (old_services u.host app) u.services.length (s :: rest) =
      (s :: (launches m w app (old_services u₁.host app) u₁.services.length rest).1,
        (launches m w app (old_services u₁.host app) u₁.services.length rest).2) := by
    rw [hold, hlen, launches]
    simp [hf, hr, hs]
  -- the old container goes and the new one comes under the same name
  have hround : Changed ([container_name app s.name] ++ [container_name app s.name])
      ([] ++ [(container_name app s.name, (⟨s, app⟩ : Container))]) u.host.containers u₁.host.containers := by
    rw [hhost]
    exact (rm_container_changed u.host _ _).trans (Changed.place _ _) (by simp)
  refine ⟨hrest.files.trans hfiles, hrest.state_dir.trans hdir, by rw [hl]; exact hrest.finished,
    ⟨([container_name app s.name] ++ [container_name app s.name]) ++ touched, ?_, ?_, ?_⟩, ?_⟩
  · intro k hk
    simp only [List.mem_append, List.mem_singleton, or_self] at hk
    rcases hk with rfl | hk
    · exact List.mem_cons_self
    · exact List.mem_cons_of_mem _ (htouched k hk)
  · intro hn k hk
    rw [hl]
    simp only [List.mem_append, List.mem_singleton, or_self] at hk
    rcases hk with rfl | hk
    · exact List.mem_cons_self
    · exact List.mem_cons_of_mem _ (hall hn k hk)
  · -- what the later rounds touch is not what this one placed
    rw [hl]
    apply hround.trans hchanged
    intro x hx
    obtain rfl := List.mem_singleton.1 hx
    exact fun hk => hnew (htouched _ hk)
  · exact Looped.recorded hf hservices hports hrest

/-- A round that goes on, and the rounds after it. -/
theorem looped_cons (h : Round m w app s u u₁ none) (hrest : Looped m w app rest u₁ u' halt)
    (hnew : container_name app s.name ∉ container_names app rest) : Looped m w app (s :: rest) u u' halt := by
  cases h with
  | kept hf hr hhost hservices _ =>
    have hports : ValidPairs (recorded_ports s.name (old_services u.host app) []) :=
      recorded_ports_valid (old_services_valid _ _) fun _ hp => absurd hp List.not_mem_nil
    exact looped_kept hf hr hhost hservices hports hrest
  | launched hf hr hs hhost hservices hports => exact looped_launched hf hr hs hhost hservices hports hrest hnew

end

/-- The loop over services of different names, by induction on them. -/
theorem up_services_looped {ss : List ComposeService} (hnodup : (container_names app ss).Nodup) (u : Up)
    (h : (up_services m w app ss u).2 ≠ some .endless) :
    Looped m w app ss u (up_services m w app ss u).1 (up_services m w app ss u).2 := by
  induction ss generalizing u with
  | nil => exact looped_nil u
  | cons s rest ih =>
    obtain ⟨hnew, hrest⟩ := List.nodup_cons.1 hnodup
    unfold up_services at h ⊢
    cases hround : up_service m w app s u with
    | mk u₁ halt =>
      have hspec := @up_service_round m w app s u
      rw [hround] at hspec
      cases halt with
      | none =>
        simp only [hround] at h ⊢
        exact looped_cons (hspec (by simp)) (ih hrest u₁ h) hnew
      | some halt =>
        simp only [hround] at h ⊢
        exact looped_halted (hspec h) rest

end Loop

/-! ## A whole call -/

/-- The services of one call have different names, whatever the file says. -/
theorem prepare_distinct {w : World} {dir compose_path : Bytes} {extra_env : List (Bytes × Bytes)}
    {ss : List ComposeService} (h : prepare w dir extra_env = .ok (compose_path, ss)) (app : Bytes) :
    (container_names app ss).Nodup := by
  unfold prepare at h
  split at h
  · cases h
  · split at h
    · cases h
    · split at h
      · cases h
      · rename_i ordered htopo
        obtain ⟨rfl, rfl⟩ := Prod.mk.inj (Except.ok.inj h)
        have hnames := (topo_sort_distinct htopo).map (container_name_inj app)
        rw [List.map_map] at hnames
        rw [container_names, List.map_map]
        exact hnames

section Call
variable (m : Manager) (w : World) (app compose_path : Bytes) (ss : List ComposeService) (h : Host)

/-- The services a call on `h` launches, until one stops it. -/
def launched : List ComposeService := (launches m w app (old_services h app) 0 ss).1

/-- No service stops the call: each has a fingerprint, and each that is
recreated is started. -/
def finishes : Bool := (launches m w app (old_services h app) 0 ss).2

/-- `dump` takes the names that go into the state file. -/
def NamesDump : Prop :=
  validUtf8 compose_path = true ∧ validUtf8 app = true ∧ ∀ s ∈ ss, validUtf8 s.name = true

/-- How a call that returns ends, once its services are prepared. -/
inductive UpEnd : Host → Option Halt → Prop
  /-- Before the state file is opened: only containers changed. -/
  | early {h' : Host} {halt : Halt} {touched : List Bytes} :
    ¬ (finishes m w app ss h = true ∧ w.opens = true) → old_services h' app = old_services h app →
    Changed touched (placed app (launched m w app ss h)) h.containers h'.containers → UpEnd h' (some halt)
  /-- With the state file empty. -/
  | emptied {h' : Host} {touched : List Bytes} :
    finishes m w app ss h = true → w.opens = true → ¬ NamesDump app compose_path ss → load_state h' app = none →
    (∀ k ∈ touched, k ∈ container_names app (launched m w app ss h)) →
    Changed touched (placed app (launched m w app ss h)) h.containers h'.containers → UpEnd h' (some .thrown)
  | saved {h' : Host} {touched : List Bytes} {news : List AppServiceState}
    {hd : (state_json ⟨app, compose_path, news⟩).dump.isSome} :
    finishes m w app ss h = true → w.opens = true → NamesDump app compose_path ss →
    h'.files (app_state_file h'.state_dir app) = some (some ⟨state_json ⟨app, compose_path, news⟩, hd⟩) →
    List.Forall₂ (AppServiceState.Records app) ss news →
    (∀ k ∈ touched, k ∈ container_names app ss) →
    Changed touched (placed app (launched m w app ss h)) h.containers h'.containers → UpEnd h' none

variable {m w app compose_path ss h}

theorem launched_sub : ∀ s ∈ launched m w app ss h, s ∈ ss := fun _ hs => (launches_sublist 0 ss).subset hs

theorem namesDump_iff {news : List AppServiceState} (hnews : List.Forall₂ (AppServiceState.Records app) ss news) :
    (state_json ⟨app, compose_path, news⟩).dump.isSome = true ↔ NamesDump app compose_path ss := by
  rw [state_json_valid, NamesDump]
  refine and_congr_right fun hpath => and_congr_right fun happ => ?_
  induction hnews with
  | nil => simp
  | cons hst _ ih =>
    rw [List.forall_mem_cons, List.forall_mem_cons, ih hpath happ]
    apply and_congr_left
    intro _
    obtain ⟨himage, _, hhash⟩ := fingerprint_valid hst.hash
    constructor
    · rintro ⟨_, _, _, _, hservice⟩
      rwa [← hst.service]
    · intro hname
      refine ⟨hhash, ?_, by rw [hst.image]; exact himage, hst.ports, by rw [hst.service]; exact hname⟩
      rw [hst.container, container_name, List.append_assoc, validUtf8_append happ, validUtf8_append (by decide)]
      exact hname

variable (m w h) in
/-- The ways a call can go, with all it leaves. -/
inductive Called (dir : Bytes) (name_override : Option Bytes) (extra_env : List (Bytes × Bytes)) : Ended → Prop
  | unprepared {message : Bytes} :
    prepare w dir extra_env = .error message → Called dir name_override extra_env ⟨h, [], some (.error message)⟩
  | halted {compose_path : Bytes} {ss : List ComposeService} {u : Up} {halt : Halt} :
    prepare w dir extra_env = .ok (compose_path, ss) →
    up_services m w (app_name dir name_override) ss ⟨h, [], [], []⟩ = (u, some halt) →
    Called dir name_override extra_env ⟨u.host, u.commands, some halt⟩
  | unopened {compose_path : Bytes} {ss : List ComposeService} {u : Up} {halt : Halt} :
    prepare w dir extra_env = .ok (compose_path, ss) →
    up_services m w (app_name dir name_override) ss ⟨h, [], [], []⟩ = (u, none) → w.opens = false →
    Called dir name_override extra_env ⟨u.host, u.commands, some halt⟩
  | emptied {compose_path : Bytes} {ss : List ComposeService} {u : Up} :
    prepare w dir extra_env = .ok (compose_path, ss) →
    up_services m w (app_name dir name_override) ss ⟨h, [], [], []⟩ = (u, none) → w.opens = true →
    (state_json ⟨app_name dir name_override, compose_path, u.services⟩).dump.isSome = false →
    Called dir name_override extra_env
      ⟨u.host.write (app_state_file u.host.state_dir (app_name dir name_override)) (some none), u.commands, some .thrown⟩
  | saved {compose_path : Bytes} {ss : List ComposeService} {u : Up} :
    prepare w dir extra_env = .ok (compose_path, ss) →
    up_services m w (app_name dir name_override) ss ⟨h, [], [], []⟩ = (u, none) → w.opens = true →
    (hd : (state_json ⟨app_name dir name_override, compose_path, u.services⟩).dump.isSome) →
    Called dir name_override extra_env
      ⟨u.host.write (app_state_file u.host.state_dir (app_name dir name_override)) (some (some ⟨_, hd⟩)), u.commands, none⟩

theorem app_up_called (dir : Bytes) (name_override : Option Bytes) (extra_env : List (Bytes × Bytes)) :
    Called m w h dir name_override extra_env (app_up m w dir name_override extra_env h) := by
  unfold app_up
  cases hp : prepare w dir extra_env with
  | error message => exact .unprepared hp
  | ok prepared =>
    obtain ⟨compose_path, ss⟩ := prepared
    dsimp only
    cases hu : up_services m w (app_name dir name_override) ss ⟨h, [], [], []⟩ with
    | mk u halt =>
      cases halt with
      | some halt => exact .halted hp hu
      | none =>
        dsimp only
        rcases save_cases w.opens ⟨app_name dir name_override, compose_path, u.services⟩ u.host with
          ⟨hopen, hhost, hne⟩ | ⟨hopen, hd, he⟩ | ⟨hopen, hd, he⟩
        · obtain ⟨halt, hhalt⟩ := Option.ne_none_iff_exists'.1 hne
          rw [hhost, hhalt]
          exact .unopened hp hu hopen
        · rw [he]
          exact .emptied hp hu hopen hd
        · rw [he]
          exact .saved hp hu hopen hd

/-- What holds of anything that is prepared holds of this. -/
theorem prepare_ok_iff {dir : Bytes} {extra_env : List (Bytes × Bytes)} {P : Bytes → List ComposeService → Prop}
    (hp : prepare w dir extra_env = .ok (compose_path, ss)) :
    (∀ compose_path ss, prepare w dir extra_env = .ok (compose_path, ss) → P compose_path ss) ↔ P compose_path ss := by
  refine ⟨fun h => h _ _ hp, fun h compose_path' ss' hp' => ?_⟩
  obtain ⟨rfl, rfl⟩ := Prod.mk.inj (Except.ok.inj (hp'.symm.trans hp))
  exact h

theorem app_up_end {dir : Bytes} {name_override : Option Bytes} {extra_env : List (Bytes × Bytes)}
    (hp : prepare w dir extra_env = .ok (compose_path, ss))
    (hret : (app_up m w dir name_override extra_env h).halt ≠ some .endless) :
    UpEnd m w (app_name dir name_override) compose_path ss h (app_up m w dir name_override extra_env h).host
      (app_up m w dir name_override extra_env h).halt := by
  have hloop := @up_services_looped m w _ ss (prepare_distinct hp (app_name dir name_override)) ⟨h, [], [], []⟩
  have hcalled := @app_up_called m w h dir name_override extra_env
  generalize app_up m w dir name_override extra_env h = e at hret hcalled ⊢
  have same {compose_path' : Bytes} {ss' : List ComposeService} (hp' : prepare w dir extra_env = .ok (compose_path', ss')) :
      compose_path' = compose_path ∧ ss' = ss := Prod.mk.inj (Except.ok.inj (hp'.symm.trans hp))
  cases hcalled with
  | unprepared hp' => cases hp'.symm.trans hp
  | halted hp' hu =>
    obtain ⟨rfl, rfl⟩ := same hp'
    rw [hu] at hloop
    have hl := hloop hret
    obtain ⟨touched, _, _, hchanged⟩ := hl.changed
    refine .early ?_ (old_services_congr _ hl.files hl.state_dir) hchanged
    rintro ⟨hfin, _⟩
    cases hl.finished.2 hfin
  | unopened hp' hu hopen =>
    obtain ⟨rfl, rfl⟩ := same hp'
    rw [hu] at hloop
    have hl := hloop nofun
    obtain ⟨touched, _, _, hchanged⟩ := hl.changed
    exact .early (by simp [hopen]) (old_services_congr _ hl.files hl.state_dir) hchanged
  | emptied hp' hu hopen hd =>
    obtain ⟨rfl, rfl⟩ := same hp'
    rw [hu] at hloop
    have hl := hloop nofun
    obtain ⟨touched, hss, hall, hchanged⟩ := hl.changed
    obtain ⟨news, hnews, hrecords⟩ := hl.services rfl
    rw [List.nil_append] at hnews
    refine .emptied (hl.finished.1 rfl) hopen ?_ (by simp [load_state]) (hall rfl) hchanged
    rw [← namesDump_iff hrecords, ← hnews, hd]
    decide
  | saved hp' hu hopen hd =>
    obtain ⟨rfl, rfl⟩ := same hp'
    rw [hu] at hloop
    have hl := hloop nofun
    obtain ⟨touched, hss, hall, hchanged⟩ := hl.changed
    obtain ⟨news, hnews, hrecords⟩ := hl.services rfl
    rw [List.nil_append] at hnews
    subst hnews
    exact .saved (hl.finished.1 rfl) hopen ((namesDump_iff hrecords).1 hd) (Host.write_self ..) hrecords hss hchanged

end Call

/-! ## app_stop and app_rm -/

theorem app_stop_host (m : Manager) (app : Bytes) (h : Host) : (app_stop m app h).host = h := by
  unfold app_stop
  split <;> rfl

section Remove
variable (w : World)

/-- The loop of `app_rm`. -/
def remove_all (l : List (AppServiceState × Nat)) (h : Host) : Host :=
  l.foldl (fun h (s, k) => h.rm_container (w.cli k 0 .rm) s.container) h

theorem remove_all_changed (l : List (AppServiceState × Nat)) (h : Host) :
    Changed (l.map fun e => e.1.container) [] h.containers (remove_all w l h).containers := by
  induction l generalizing h with
  | nil => exact Changed.refl
  | cons e l ih => exact (rm_container_changed h _ _).trans (ih _) fun x hx => absurd hx List.not_mem_nil

theorem remove_all_files (l : List (AppServiceState × Nat)) (h : Host) :
    (remove_all w l h).files = h.files ∧ (remove_all w l h).state_dir = h.state_dir := by
  induction l generalizing h with
  | nil => exact ⟨rfl, rfl⟩
  | cons e l ih =>
    obtain ⟨hf, hd⟩ := ih (h.rm_container (w.cli e.2 0 .rm) e.1.container)
    exact ⟨hf.trans (rm_container_files h _ _), hd.trans (rm_container_state_dir h _ _)⟩

/-- When the CLI removes what it is told to, nothing of the list is left. -/
theorem remove_all_gone {l : List (AppServiceState × Nat)} (hok : ∀ e ∈ l, (w.cli e.2 0 .rm).ok = true) (h : Host) :
    ∀ k ∈ l.map (fun e => e.1.container), (remove_all w l h).containers k = none := by
  induction l generalizing h with
  | nil => exact fun _ hk => absurd hk List.not_mem_nil
  | cons e l ih =>
    obtain ⟨he, hl⟩ := List.forall_mem_cons.1 hok
    refine List.forall_mem_cons.2 ⟨?_, ih hl _⟩
    -- gone after its own round, and no later round brings it back
    have hgone : (h.rm_container (w.cli e.2 0 .rm) e.1.container).containers e.1.container = none := by
      rw [Host.rm_container, if_pos he]
      exact Function.update_self ..
    rcases (remove_all_changed w l (h.rm_container (w.cli e.2 0 .rm) e.1.container)).gone e.1.container (by simp) with
      hsame | hnone
    · exact hsame.trans hgone
    · exact hnone

/-- `app_rm` fails and changes nothing, or removes the containers of the state
file and then, if it can, the file. -/
theorem app_rm_host (m : Manager) (app : Bytes) (h : Host) :
    (load_state h app = none ∧ (app_rm m w app h).host = h) ∨
    ((app_rm m w app h).host.containers = (remove_all w (old_services h app).zipIdx h).containers ∧
      (old_services (app_rm m w app h).host app = old_services h app ∨
        old_services (app_rm m w app h).host app = [])) := by
  cases hload : load_state h app with
  | none =>
    left
    simp [app_rm, app_stop, hload]
  | some st =>
    right
    obtain ⟨hf, hd⟩ := remove_all_files w (old_services h app).zipIdx h
    have hhost : (app_rm m w app h).host = if w.removes then
        (remove_all w (old_services h app).zipIdx h).write
          (app_state_file (remove_all w (old_services h app).zipIdx h).state_dir app) none
        else remove_all w (old_services h app).zipIdx h := by
      simp [app_rm, app_stop, hload, remove_all]
    rw [hhost]
    split
    · refine ⟨rfl, .inr ?_⟩
      simp [old_services, load_state]
    · exact ⟨rfl, .inl (old_services_congr app hf hd)⟩

end Remove

end Hostely.Apps
