import Hostely.Apps.Truth
/-!
# app_up twice

After a successful `app_up`, a second one on the same compose file finds every
service recorded with the fingerprint it computes again, and every container in
the list. It picks ports once more, the live ones taken, and then drops them
for the recorded ones; so it sends no command and writes the state it found.
-/

open Hostely.Lib Hostely.Services

namespace Hostely.Apps

/-- The compose file, its `.env` and the environment read the same, and so do
the LAN IP and the state directory. -/
structure Unchanged (w w' : World) : Prop where
  find_compose_file : w'.find_compose_file = w.find_compose_file
  load_compose : w'.load_compose = w.load_compose
  lan_ip : w'.lan_ip = w.lan_ip
  opens : w'.opens = w.opens

/-- `Manager::list` reports a container of this name. -/
def Reports (m : Manager) (r : CliResult) (name : Bytes) : Prop :=
  ∃ infos, m.list r = .ok infos ∧ ∃ info ∈ infos, info.name = name

/-! ## A service that is up to date -/

section Service
variable {m : Manager} {service name fingerprint : Bytes}

theorem find_container_running {cli : Verb → CliResult} (h : Reports m (cli .ls) name) :
    find_container m cli name = .running := by
  obtain ⟨infos, hlist, info, hinfo, hname⟩ := h
  have hany : infos.any (·.name = name) = true := List.any_eq_true.2 ⟨info, hinfo, by simpa using hname⟩
  simp [find_container, hlist, hany]

/-- Every entry that matches keeps the running container, and sends nothing. -/
theorem reconcile_entry_running {cli : Nat → Verb → CliResult} (hr : ∀ k, Reports m (cli k .ls) name)
    (acc : Bool × List Command) (e : AppServiceState × Nat) :
    (reconcile_entry m cli service name fingerprint acc e).2 = acc.2 ∧
    ((reconcile_entry m cli service name fingerprint acc e).1 = false ↔
      acc.1 = false ∨ e.1.Matches service fingerprint) := by
  unfold reconcile_entry AppServiceState.Matches
  rw [find_container_running (hr e.2)]
  by_cases hs : e.1.service = service
  · by_cases hh : e.1.config_hash = fingerprint <;> simp [hs, hh]
  · simp [hs]

theorem reconcile_running {cli : Nat → Verb → CliResult} (hr : ∀ k, Reports m (cli k .ls) name)
    {old : List AppServiceState} (hold : ∃ e ∈ old, e.Matches service fingerprint) :
    reconcile m cli service name fingerprint old = (false, []) := by
  have hfold (l : List (AppServiceState × Nat)) (acc : Bool × List Command) :
      (l.foldl (reconcile_entry m cli service name fingerprint) acc).2 = acc.2 ∧
      ((l.foldl (reconcile_entry m cli service name fingerprint) acc).1 = false ↔
        acc.1 = false ∨ ∃ e ∈ l, e.1.Matches service fingerprint) := by
    induction l generalizing acc with
    | nil => simp
    | cons e l ih =>
      obtain ⟨hcommands, hneeds⟩ := @reconcile_entry_running m service name fingerprint cli hr acc e
      rw [List.foldl_cons, (ih _).1, (ih _).2, hcommands, hneeds]
      simp [or_assoc]
  obtain ⟨e, he, hm⟩ := hold
  rw [← List.zipIdx_map_fst 0 old] at he
  obtain ⟨x, hx, rfl⟩ := List.mem_map.1 he
  obtain ⟨hcommands, hneeds⟩ := hfold old.zipIdx (true, [])
  exact Prod.ext (hneeds.2 (.inr ⟨x, hx, hm⟩)) hcommands

theorem recorded_ports_absent {old : List AppServiceState} (h : ∀ e ∈ old, e.service ≠ service)
    (ports : List (Bytes × Bytes)) : recorded_ports service old ports = ports := by
  induction old with
  | nil => rfl
  | cons x old ih =>
    obtain ⟨hx, hold⟩ := List.forall_mem_cons.1 h
    rw [recorded_ports, List.foldl_cons, if_neg hx]
    exact ih hold

/-- A service recorded once has the ports of its entry. -/
theorem recorded_ports_unique {old : List AppServiceState} (hnodup : (old.map AppServiceState.service).Nodup)
    {e : AppServiceState} (he : e ∈ old) (ports : List (Bytes × Bytes)) :
    recorded_ports e.service old ports = e.ports := by
  induction old generalizing ports with
  | nil => cases he
  | cons x old ih =>
    rw [List.map_cons, List.nodup_cons] at hnodup
    rw [recorded_ports, List.foldl_cons, ← recorded_ports]
    rcases List.mem_cons.1 he with rfl | he
    · rw [if_pos rfl]
      exact recorded_ports_absent (fun y hy hs => hnodup.1 (List.mem_map.2 ⟨y, hy, hs⟩)) _
    · exact ih hnodup.2 he _

end Service

/-! ## The second call -/

section Second
variable {m : Manager} {w : World} {app : Bytes}

theorem records_service {ss : List ComposeService} {news : List AppServiceState}
    (h : List.Forall₂ (AppServiceState.Records app) ss news) :
    news.map AppServiceState.service = ss.map ComposeService.name := by
  induction h with
  | nil => rfl
  | cons hrec _ ih => rw [List.map_cons, List.map_cons, ih, hrec.service]

/-- A round for a service whose entry is up to date adds that entry again. -/
theorem round_idle {s : ComposeService} {u u' : Up} {halt : Option Halt} (h : Round m w app s u u' halt)
    {st : AppServiceState} (hrec : st.Records app s) (hst : st ∈ old_services u.host app)
    (hnodup : ((old_services u.host app).map AppServiceState.service).Nodup)
    (hr : ∀ k, Reports m (w.cli u.services.length k .ls) st.container) :
    halt = none ∧ u'.host = u.host ∧ u'.services = u.services ++ [st] ∧ u'.commands = u.commands := by
  have hidle (fingerprint : Bytes) (hf : config_fingerprint s = some fingerprint) :
      reconcile m (w.cli u.services.length) s.name (container_name app s.name) fingerprint (old_services u.host app) =
        (false, []) := by
    rw [hrec.container] at hr
    exact reconcile_running hr ⟨st, hst, hrec.service, Option.some.inj (hrec.hash.symm.trans hf)⟩
  cases h with
  | thrown hf => exact absurd (hf.symm.trans hrec.hash) (by simp)
  | kept hf hkept hhost hservices hcommands =>
    have hports := recorded_ports_unique hnodup hst []
    have hhash := Option.some.inj (hf.symm.trans hrec.hash)
    refine ⟨rfl, hhost, ?_, ?_⟩
    · rw [hservices, ← hrec.service, hports, ← hrec.image, hhash, hrec.service, ← hrec.container, ← hrec.service]
    · rw [hcommands, hidle _ hf, List.append_nil]
  | launched hf hrun => exact absurd hrun (by simp [recreates, hidle _ hf])
  | failed hf hrun => exact absurd hrun (by simp [recreates, hidle _ hf])

/-- So does the loop, by induction on the services that are left. -/
theorem up_services_idle {ss : List ComposeService} {news : List AppServiceState}
    (hrec : List.Forall₂ (AppServiceState.Records app) ss news) (u : Up)
    (hst : ∀ st ∈ news, st ∈ old_services u.host app)
    (hnodup : ((old_services u.host app).map AppServiceState.service).Nodup)
    (hr : ∀ st ∈ news, ∀ i k, Reports m (w.cli i k .ls) st.container)
    (hports : (up_services m w app ss u).2 ≠ some .endless) :
    ∃ u', up_services m w app ss u = (u', none) ∧ u'.host = u.host ∧ u'.services = u.services ++ news ∧
      u'.commands = u.commands := by
  induction hrec generalizing u with
  | nil => exact ⟨u, rfl, rfl, by simp, rfl⟩
  | @cons s st rest news hs hrest ih =>
    obtain ⟨hst, hst'⟩ := List.forall_mem_cons.1 hst
    obtain ⟨hr, hr'⟩ := List.forall_mem_cons.1 hr
    unfold up_services at hports ⊢
    cases hround : up_service m w app s u with
    | mk u₁ halt =>
      have hspec := @up_service_round m w app s u
      rw [hround] at hspec
      -- the round ends like the loop, so not in an endless search
      have hne : halt ≠ some .endless := by
        rintro rfl
        simp [hround] at hports
      obtain ⟨rfl, hhost, hservices, hcommands⟩ := round_idle (hspec hne) hs hst hnodup (hr _)
      simp only [hround] at hports ⊢
      obtain ⟨u', hu, hhost', hservices', hcommands'⟩ := ih u₁ (by rwa [hhost]) (by rwa [hhost]) hr' hports
      exact ⟨u', hu, hhost'.trans hhost, by rw [hservices', hservices]; simp, hcommands'.trans hcommands⟩

end Second

theorem prepare_unchanged {w w' : World} (h : Unchanged w w') (dir : Bytes) (extra_env : List (Bytes × Bytes)) :
    prepare w' dir extra_env = prepare w dir extra_env := by
  unfold prepare
  rw [h.find_compose_file, h.load_compose, h.lan_ip]

/-- What a successful call leaves in the state file. -/
theorem app_up_saved {m : Manager} {w : World} {dir : Bytes} {name_override : Option Bytes}
    {extra_env : List (Bytes × Bytes)} {h : Host} (hok : (app_up m w dir name_override extra_env h).halt = none) :
    ∃ compose_path ss news, prepare w dir extra_env = .ok (compose_path, ss) ∧ w.opens = true ∧
      List.Forall₂ (AppServiceState.Records (app_name dir name_override)) ss news ∧
      ∃ hd, (app_up m w dir name_override extra_env h).host.files
        (app_state_file (app_up m w dir name_override extra_env h).host.state_dir (app_name dir name_override)) =
          some (some ⟨state_json ⟨app_name dir name_override, compose_path, news⟩, hd⟩) := by
  cases hp : prepare w dir extra_env with
  | error message => simp [app_up, hp] at hok
  | ok p =>
    obtain ⟨compose_path, ss⟩ := p
    have hend := @app_up_end m w _ ss h dir name_override extra_env hp (by rw [hok]; simp)
    rw [hok] at hend
    cases hend with
    | saved hfin hopen hdump hfile hnews hkeys hc => exact ⟨compose_path, ss, _, rfl, hopen, hnews, _, hfile⟩

/-- `app_up` is idempotent: after a success, while the CLI lists the containers
it recorded and what it reads is unchanged, it sends no command, succeeds, and
writes the state that is there already. -/
theorem app_up_idempotent (m : Manager) (w w' : World) (dir : Bytes) (name_override : Option Bytes)
    (extra_env : List (Bytes × Bytes)) (h h' : Host)
    (hfirst : (app_up m w dir name_override extra_env h).halt = none)
    (hsame : Unchanged w w')
    (hfiles : h'.files = (app_up m w dir name_override extra_env h).host.files)
    (hdir : h'.state_dir = (app_up m w dir name_override extra_env h).host.state_dir)
    (hlist : ∀ st ∈ old_services h' (app_name dir name_override), ∀ i k, Reports m (w'.cli i k .ls) st.container)
    (hports : (app_up m w' dir name_override extra_env h').halt ≠ some .endless) :
    (app_up m w' dir name_override extra_env h').commands = [] ∧
    (app_up m w' dir name_override extra_env h').halt = none ∧
    (app_up m w' dir name_override extra_env h').host = h' ∧
    ∃ st, load_state (app_up m w dir name_override extra_env h).host (app_name dir name_override) = some st ∧
      load_state (app_up m w' dir name_override extra_env h').host (app_name dir name_override) = some st := by
  obtain ⟨compose_path, ss, news, hp, hopen, hnews, hd, hfile⟩ := app_up_saved hfirst
  have hload := load_saved hfile
  rw [← hfiles, ← hdir] at hfile
  have hold := old_services_of_load (load_saved hfile)
  have hp' := (prepare_unchanged hsame dir extra_env).trans hp
  have hnodup : ((old_services h' (app_name dir name_override)).map AppServiceState.service).Nodup := by
    have hnames := prepare_distinct hp (app_name dir name_override)
    rw [container_names, ← Function.comp_def, ← List.map_map] at hnames
    rw [hold, records_service hnews]
    exact hnames.of_map _
  have hloop : (up_services m w' (app_name dir name_override) ss ⟨h', [], [], []⟩).2 ≠ some .endless := by
    intro hend
    apply hports
    unfold app_up
    simp only [hp']
    cases hu : up_services m w' (app_name dir name_override) ss ⟨h', [], [], []⟩ with
    | mk u halt =>
      rw [hu] at hend
      simp only at hend
      simp [hend]
  obtain ⟨u, hu, hhost, hservices, hcommands⟩ := up_services_idle hnews ⟨h', [], [], []⟩
    (by rw [hold]; exact fun _ hst => hst) hnodup (by rw [hold] at hlist; exact hlist) hloop
  rw [List.nil_append] at hservices
  -- the state is written over itself
  have hsave : save_state w'.opens ⟨app_name dir name_override, compose_path, news⟩ h' = (h', none) := by
    have hwrite : h'.write (app_state_file h'.state_dir (app_name dir name_override)) (some (some ⟨_, hd⟩)) = h' := by
      rw [Host.write, ← hfile, Function.update_eq_self]
    rw [hsame.opens, hopen, save_state]
    simp only [Bool.not_true, Bool.false_eq_true, if_false, dif_pos hd, hwrite]
  have hcall : app_up m w' dir name_override extra_env h' = ⟨h', [], none⟩ := by
    unfold app_up
    simp only [hp', hu, hservices, hhost, hcommands, hsave]
  rw [hcall]
  exact ⟨rfl, rfl, rfl, _, hload, load_saved hfile⟩

/-! ## A shop that is up -/

def shopWeb : ComposeService :=
  { web with ports := [(bytes "8080", bytes "80")], env := [(bytes "DB_HOST", bytes "db")] }

def shopListing : Bytes := bytes <|
  "ID IMAGE OS ARCH STATE ADDR PORTS NAMES\n" ++
  "1 postgres:16 linux arm64 running - - shop-db\n" ++
  "2 nginx linux arm64 running - 8080:80 shop-web\n"

def shopWorld (listing : Bytes) (in_use : Int → Bool) : World :=
  { toyWorld [db16, shopWeb] fun _ => false with
    lan_ip := bytes "192.168.1.10"
    cli _ _ verb := ⟨0, if verb = .ls then listing else [], []⟩
    port_in_use _ _ p := in_use p }

/-- The second call finds the port of the web service taken, by the web service. -/
theorem app_up_idempotent_shop :
    let first := app_up toyManager (shopWorld [] fun _ => false) (bytes "shop") none [] toyHost
    let second := app_up toyManager (shopWorld shopListing fun p => p = 8080) (bytes "shop") none [] first.host
    second.commands = [] ∧ second.halt = none ∧ second.host = first.host ∧
      ∃ st, load_state first.host (bytes "shop") = some st ∧ load_state second.host (bytes "shop") = some st := by
  refine app_up_idempotent toyManager (shopWorld [] fun _ => false) (shopWorld shopListing fun p => p = 8080)
    (bytes "shop") none [] toyHost _ (by decide +kernel) ⟨rfl, rfl, rfl, rfl⟩ rfl rfl ?_ (by decide +kernel)
  have hinfos : ∀ st ∈ old_services (app_up toyManager (shopWorld [] fun _ => false) (bytes "shop") none [] toyHost).host
      (bytes "shop"), ∃ info ∈ parse_ls shopListing, info.name = st.container := by decide +kernel
  exact fun st hst _ _ => ⟨_, rfl, hinfos st hst⟩

end Hostely.Apps
