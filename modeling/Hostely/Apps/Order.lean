import Hostely.Apps.Topo
/-!
# The order of the commands

`app_up` sends all it has to say about a service before it turns to the next one,
and turns to the next one only when the service is up. So a service is launched
when all that it depends on is up, and `app_stop` goes the other way.
-/

open Hostely.Lib Hostely.Services Relation

namespace Hostely.Apps

section Sends
variable (m : Manager) (w : World) (app : Bytes) (old : List AppServiceState)

/-- The service is up when the commands are sent: its container was there, or
one of them runs it. -/
def Up.Ready (s : ComposeService) (sent : List Command) : Prop :=
  (∃ i fingerprint, config_fingerprint s = some fingerprint ∧ recreates m w app old i s fingerprint = false) ∨
  ∃ ports, .run (run_argv m.cli_path (run_options app s ports)) ∈ sent

variable {m w app old}

theorem Up.Ready.mono {s : ComposeService} {sent sent' : List Command} (h : Up.Ready m w app old s sent)
    (hsub : sent ⊆ sent') : Up.Ready m w app old s sent' :=
  h.imp_right fun ⟨ports, hrun⟩ => ⟨ports, hsub hrun⟩

theorem reconcile_container {cli : Nat → Verb → CliResult} {service name fingerprint : Bytes} :
    ∀ c ∈ (reconcile m cli service name fingerprint old).2, c.container = some name := by
  have hentry (acc : Bool × List Command) (e : AppServiceState × Nat) (hacc : ∀ c ∈ acc.2, c.container = some name) :
      ∀ c ∈ (reconcile_entry m cli service name fingerprint acc e).2, c.container = some name := by
    unfold reconcile_entry
    split
    · exact hacc
    · split
      · split
        · exact hacc
        · exact List.forall_mem_append.2 ⟨hacc, fun c hc => List.mem_singleton.1 hc ▸ rfl⟩
        · exact hacc
      · exact hacc
  have hfold (l : List (AppServiceState × Nat)) (acc : Bool × List Command) (hacc : ∀ c ∈ acc.2, c.container = some name) :
      ∀ c ∈ (l.foldl (reconcile_entry m cli service name fingerprint) acc).2, c.container = some name := by
    induction l generalizing acc with
    | nil => exact hacc
    | cons e l ih => exact ih _ (hentry acc e hacc)
  exact hfold _ _ fun _ hc => absurd hc List.not_mem_nil

theorem reconcile_sends {cli : Nat → Verb → CliResult} {service name fingerprint : Bytes} {needs_run : Bool}
    {started : List Command} (h : reconcile m cli service name fingerprint old = (needs_run, started)) :
    ∀ c ∈ started, c.container = some name := by
  have hcontainer := @reconcile_container m old cli service name fingerprint
  rwa [h] at hcontainer

theorem finish_service_sends (s : ComposeService) (fingerprint : Bytes) (ports : List (Bytes × Bytes)) (u : Up) : ∃ sent,
    (finish_service m w app s fingerprint true ports u).1.commands = u.commands ++ sent ∧
    (∀ c ∈ sent, c.container = some (container_name app s.name)) ∧
    old_services (finish_service m w app s fingerprint true ports u).1.host app = old_services u.host app ∧
    ((finish_service m w app s fingerprint true ports u).2 = none →
      .run (run_argv m.cli_path (run_options app s ports)) ∈ sent) := by
  have hcontainer := @Manager.run_container m (w.cli u.services.length 0 .run) (run_options app s ports)
  unfold finish_service
  rw [if_pos rfl]
  cases hr : m.run (w.cli u.services.length 0 .run) (run_options app s ports) with
  | mk commands r =>
    rw [hr] at hcontainer
    cases r with
    | error e => exact ⟨commands, rfl, hcontainer, rfl, nofun⟩
    | ok id =>
      have hsent := Manager.run_sent (congrArg Prod.snd hr)
      rw [hr] at hsent
      exact ⟨commands, rfl, hcontainer, rfl, fun _ => by simp [show commands = _ from hsent]⟩

theorem clear_stale_sends (s : ComposeService) (u : Up) : ∃ sent,
    (clear_stale m w app s u).commands = u.commands ++ sent ∧
    (∀ c ∈ sent, c.container = some (container_name app s.name)) ∧
    old_services (clear_stale m w app s u).host app = old_services u.host app := by
  refine ⟨m.stop (container_name app s.name) ++ [.rm (container_name app s.name)], by simp [clear_stale], ?_,
    old_services_congr app (rm_container_files ..) (rm_container_state_dir ..)⟩
  exact List.forall_mem_append.2 ⟨Manager.stop_container, fun c hc => List.mem_singleton.1 hc ▸ rfl⟩

/-- What a round sends is about its own service, which is up if the round does
not end the call. -/
theorem up_service_sends (s : ComposeService) (u : Up) : ∃ round,
    (up_service m w app s u).1.commands = u.commands ++ round ∧
    (∀ c ∈ round, c.container = some (container_name app s.name)) ∧
    old_services (up_service m w app s u).1.host app = old_services u.host app ∧
    ((up_service m w app s u).2 = none → Up.Ready m w app (old_services u.host app) s round) := by
  have hattempt := @up_service_attempt m w app s u
  generalize up_service m w app s u = r at hattempt ⊢
  cases hattempt with
  | thrown hf => exact ⟨[], by simp, fun _ hc => absurd hc List.not_mem_nil, rfl, nofun⟩
  | @endless fingerprint needs_run started hf hr =>
    have hstarted := reconcile_sends hr
    cases needs_run with
    | false => exact ⟨started, rfl, hstarted, rfl, nofun⟩
    | true =>
      obtain ⟨cleared, hcommands, hcleared, hold⟩ :=
        @clear_stale_sends m w app s { u with commands := u.commands ++ started }
      exact ⟨started ++ cleared, hcommands.trans (List.append_assoc ..), List.forall_mem_append.2 ⟨hstarted, hcleared⟩, hold,
        nofun⟩
  | @kept fingerprint started ports claimed_ports hf hr hp =>
    exact ⟨started, rfl, reconcile_sends hr, rfl, fun _ => .inl ⟨u.services.length, fingerprint, hf, congrArg Prod.fst hr⟩⟩
  | @run fingerprint started ports claimed_ports hf hr hp =>
    have hstarted := reconcile_sends hr
    obtain ⟨cleared, hcommands, hcleared, hold⟩ :=
      @clear_stale_sends m w app s { u with commands := u.commands ++ started }
    obtain ⟨sent, hsent, habout, hold', hrun⟩ := @finish_service_sends m w app s fingerprint ports
      { clear_stale m w app s { u with commands := u.commands ++ started } with claimed_ports := claimed_ports }
    refine ⟨started ++ cleared ++ sent, ?_, ?_, hold'.trans hold, fun hn => .inr ⟨ports, ?_⟩⟩
    · rw [hsent]
      simp only [hcommands, List.append_assoc]
    · exact List.forall_mem_append.2 ⟨List.forall_mem_append.2 ⟨hstarted, hcleared⟩, habout⟩
    · exact List.mem_append_right _ (hrun hn)

variable (m w app old) in
/-- The commands of the loop, round by round. -/
inductive Sends : List ComposeService → List Command → Prop
  | nil : Sends [] []
  | halted {s : ComposeService} {rest : List ComposeService} {round : List Command} :
    (∀ c ∈ round, c.container = some (container_name app s.name)) → Sends (s :: rest) round
  | next {s : ComposeService} {rest : List ComposeService} {round sent : List Command} :
    (∀ c ∈ round, c.container = some (container_name app s.name)) → Up.Ready m w app old s round →
    Sends rest sent → Sends (s :: rest) (round ++ sent)

theorem up_services_sends (ss : List ComposeService) (u : Up) : ∃ sent,
    (up_services m w app ss u).1.commands = u.commands ++ sent ∧ Sends m w app (old_services u.host app) ss sent := by
  induction ss generalizing u with
  | nil => exact ⟨[], by simp [up_services], .nil⟩
  | cons s rest ih =>
    obtain ⟨round, hcommands, habout, hold, hready⟩ := @up_service_sends m w app s u
    unfold up_services
    cases hr : up_service m w app s u with
    | mk u₁ halt =>
      rw [hr] at hcommands hold hready
      cases halt with
      | some halt => exact ⟨round, hcommands, .halted habout⟩
      | none =>
        obtain ⟨sent, hsent, hrest⟩ := ih u₁
        refine ⟨round ++ sent, ?_, .next habout (hready rfl) ?_⟩
        · rw [hsent, show u₁.commands = _ from hcommands, List.append_assoc]
        · rwa [show old_services u₁.host app = _ from hold] at hrest

theorem Sends.container {ss : List ComposeService} {sent : List Command} (h : Sends m w app old ss sent) :
    ∀ c ∈ sent, ∃ s ∈ ss, c.container = some (container_name app s.name) := by
  induction h with
  | nil => exact fun _ hc => absurd hc List.not_mem_nil
  | halted habout => exact fun c hc => ⟨_, List.mem_cons_self, habout c hc⟩
  | next habout _ _ ih =>
    refine List.forall_mem_append.2 ⟨fun c hc => ⟨_, List.mem_cons_self, habout c hc⟩, fun c hc => ?_⟩
    obtain ⟨s, hs, hname⟩ := ih c hc
    exact ⟨s, List.mem_cons_of_mem _ hs, hname⟩

omit m w old in
/-- A command about a later service is not in the round of an earlier one. -/
theorem not_in_round {x s : ComposeService} {rest : List ComposeService} (hnodup : ((x :: rest).map ComposeService.name).Nodup)
    (hs : s ∈ rest) {round : List Command} (habout : ∀ c ∈ round, c.container = some (container_name app x.name)) {c : Command}
    (hc : c.container = some (container_name app s.name)) : c ∉ round := by
  intro hround
  have hname := container_name_inj app (Option.some.inj ((habout c hround).symm.trans hc))
  rw [List.map_cons, List.nodup_cons, hname] at hnodup
  exact hnodup.1 (List.mem_map_of_mem hs)

/-- When a command about a service is sent, those before it are up, and nothing
more is said about them. -/
theorem Sends.before {ss : List ComposeService} {sent : List Command} (h : Sends m w app old ss sent)
    (hnodup : (ss.map ComposeService.name).Nodup) {before after : List ComposeService} {s : ComposeService}
    (hss : ss = before ++ s :: after) {pre post : List Command} {c : Command} (hsent : sent = pre ++ c :: post)
    (hc : c.container = some (container_name app s.name)) :
    ∀ d ∈ before, Up.Ready m w app old d pre ∧ ∀ c' ∈ c :: post, c'.container ≠ some (container_name app d.name) := by
  induction h generalizing before pre with
  | nil => cases before <;> cases hss
  | @halted x rest round habout =>
    cases before with
    | nil => exact fun _ hd => absurd hd List.not_mem_nil
    | cons y before =>
      obtain ⟨rfl, rfl⟩ := List.cons.inj hss
      exact absurd (by simp [hsent]) (not_in_round hnodup (by simp) habout hc)
  | @next x rest round sent habout hready hrest ih =>
    cases before with
    | nil => exact fun _ hd => absurd hd List.not_mem_nil
    | cons y before =>
      obtain ⟨rfl, rfl⟩ := List.cons.inj hss
      have hnot := not_in_round hnodup (by simp) habout hc
      obtain ⟨mid, rfl, hmid⟩ := after_of_not_mem hsent hnot
      refine List.forall_mem_cons.2 ⟨⟨hready.mono (List.subset_append_left ..), ?_⟩, fun d hd => ?_⟩
      · -- what comes now is in the later rounds
        intro c' hc' hx
        obtain ⟨z, hz, hname⟩ := hrest.container c' (hmid ▸ List.mem_append_right _ hc')
        have heq := container_name_inj app (Option.some.inj (hx.symm.trans hname))
        rw [List.map_cons, List.nodup_cons, heq] at hnodup
        exact hnodup.1 (List.mem_map_of_mem hz)
      · obtain ⟨hup, hlater⟩ := ih (List.nodup_cons.1 hnodup).2 rfl hmid d hd
        exact ⟨hup.mono (List.subset_append_right ..), hlater⟩

end Sends

/-! ## A whole call -/

section
variable (m : Manager) (w : World) (app : Bytes) (services : List ComposeService)

/-- A command about a service is sent when all that the service depends on is
up, and no later one is about these. -/
def LaunchOrder (old : List AppServiceState) (ss : List ComposeService) (sent : List Command) : Prop :=
  ∀ pre c post, sent = pre ++ c :: post → ∀ a, c.container = some (container_name app a) →
    ∀ b, TransGen (DependsOn services) a b →
      (∃ d ∈ ss, d.name = b ∧ Up.Ready m w app old d pre) ∧ ∀ c' ∈ c :: post, c'.container ≠ some (container_name app b)

/-- A command about a service is sent when all that depend on it were told to
stop, and no later one is about these. -/
def StopOrder (sent : List Command) : Prop :=
  ∀ pre c post, sent = pre ++ c :: post → ∀ b, c.container = some (container_name app b) →
    ∀ a, TransGen (DependsOn services) a b →
      .stop (container_name app a) ∈ pre ∧ ∀ c' ∈ c :: post, c'.container ≠ some (container_name app a)

end

section
variable {m : Manager} {w : World} {app : Bytes} {services ss : List ComposeService}

theorem Sends.launchOrder {old : List AppServiceState} {sent : List Command} (h : Sends m w app old ss sent)
    (hnodup : (ss.map ComposeService.name).Nodup) (htopo : Topological (DependsOn services) (ss.map ComposeService.name)) :
    LaunchOrder m w app services old ss sent := by
  intro pre c post hsent a hc b hab
  obtain ⟨s, hs, hname⟩ := h.container c (by simp [hsent])
  obtain rfl := container_name_inj app (Option.some.inj (hc.symm.trans hname))
  obtain ⟨before, after, hss⟩ := List.append_of_mem hs
  have hnames : ss.map ComposeService.name = before.map ComposeService.name ++ s.name :: after.map ComposeService.name := by
    rw [hss, List.map_append, List.map_cons]
  obtain ⟨d, hd, rfl⟩ := List.mem_map.1 (htopo.transGen hab hnames)
  obtain ⟨hup, hlater⟩ := h.before hnodup hss hsent hc d hd
  exact ⟨⟨d, by simp [hss, hd], rfl, hup⟩, hlater⟩

/-- The loop of `app_stop`, on the containers of the services. -/
theorem stop_all (hm : m.available = true) : (ss.reverse.flatMap fun s => m.stop (container_name app s.name)) =
    (ss.map ComposeService.name).reverse.map fun name => Command.stop (container_name app name) := by
  have hstop : (fun s : ComposeService => m.stop (container_name app s.name)) =
      fun s => [Command.stop (container_name app s.name)] := by
    funext s
    simp [Manager.stop, hm, container_name_ne]
  rw [hstop, ← List.map_reverse, List.map_map]
  exact List.flatMap_pure_eq_map _ _

theorem stop_all_order (hnodup : (ss.map ComposeService.name).Nodup)
    (htopo : Topological (DependsOn services) (ss.map ComposeService.name))
    (hall : ∀ s ∈ services, s.name ∈ ss.map ComposeService.name) :
    StopOrder app services (ss.reverse.flatMap fun s => m.stop (container_name app s.name)) := by
  intro pre c post hsent b hc a hab
  cases hm : m.available with
  | false =>
    have hc' : c ∈ ss.reverse.flatMap fun s => m.stop (container_name app s.name) := by simp [hsent]
    obtain ⟨s, -, hs⟩ := List.mem_flatMap.1 hc'
    simp [Manager.stop, hm] at hs
  | true =>
    rw [stop_all hm] at hsent
    obtain ⟨stopped, rest, hnames, rfl, hrest⟩ := List.map_eq_append_iff.1 hsent
    obtain ⟨b', later, rfl, rfl, rfl⟩ := List.map_eq_cons_iff.1 hrest
    obtain rfl := container_name_inj app (Option.some.inj hc)
    have hsplit : ss.map ComposeService.name = later.reverse ++ b' :: stopped.reverse := by
      rw [← List.reverse_reverse (ss.map _), hnames]
      simp
    obtain ⟨_, ⟨s, hs, rfl, -⟩, -⟩ := TransGen.head'_iff.1 hab
    have hafter : s.name ∈ stopped := List.mem_reverse.1 (htopo.after hnodup hsplit hab (hall s hs))
    refine ⟨List.mem_map_of_mem hafter, ?_⟩
    intro c' hc' hname
    rw [← List.map_cons (f := fun name => Command.stop (container_name app name))] at hc'
    obtain ⟨n, hn, rfl⟩ := List.mem_map.1 hc'
    obtain rfl := container_name_inj app (Option.some.inj hname)
    rw [← List.nodup_reverse, hnames] at hnodup
    exact (List.nodup_append.1 hnodup).2.2 _ hafter _ hn rfl

theorem app_up_sends {compose_path dir : Bytes} {name_override : Option Bytes} {extra_env : List (Bytes × Bytes)} {h : Host}
    (hp : prepare w dir extra_env = .ok (compose_path, ss)) :
    Sends m w (app_name dir name_override) (old_services h (app_name dir name_override)) ss
      (app_up m w dir name_override extra_env h).commands := by
  have hcalled := @app_up_called m w h dir name_override extra_env
  generalize app_up m w dir name_override extra_env h = e at hcalled ⊢
  have hloop {compose_path' : Bytes} {ss' : List ComposeService} {r : Up × Option Halt}
      (hp' : prepare w dir extra_env = .ok (compose_path', ss'))
      (hu : up_services m w (app_name dir name_override) ss' ⟨h, [], [], []⟩ = r) :
      Sends m w (app_name dir name_override) (old_services h (app_name dir name_override)) ss r.1.commands := by
    obtain ⟨-, rfl⟩ := Prod.mk.inj (Except.ok.inj (hp'.symm.trans hp))
    obtain ⟨sent, hsent, hsends⟩ := @up_services_sends m w (app_name dir name_override) ss' ⟨h, [], [], []⟩
    rw [← hu, hsent]
    exact hsends
  cases hcalled with
  | unprepared hp' => cases hp'.symm.trans hp
  | halted hp' hu | unopened hp' hu _ | emptied hp' hu _ _ | saved hp' hu _ _ => exact hloop hp' hu

theorem prepare_ordered {dir compose_path : Bytes} {extra_env : List (Bytes × Bytes)} {out : List ComposeService}
    (hfind : w.find_compose_file dir = some compose_path) (hload : w.load_compose compose_path extra_env = .ok services)
    (hsort : topo_sort services = .ok out) :
    prepare w dir extra_env = .ok (compose_path, out.map (rewrite_env (out.map ComposeService.name) w.lan_ip)) := by
  simp only [prepare, hfind, hload, hsort]

/-- What `app_stop` sends when the state file is the one `app_up` left. -/
theorem app_stop_saved {compose_path dir : Bytes} {name_override : Option Bytes} {extra_env : List (Bytes × Bytes)}
    {h h' : Host} (hp : prepare w dir extra_env = .ok (compose_path, ss))
    (hup : (app_up m w dir name_override extra_env h).halt = none)
    (hsame : load_state h' (app_name dir name_override) =
      load_state (app_up m w dir name_override extra_env h).host (app_name dir name_override)) :
    app_stop m (app_name dir name_override) h' =
      ⟨h', ss.reverse.flatMap fun s => m.stop (container_name (app_name dir name_override) s.name), none⟩ := by
  have hret : (app_up m w dir name_override extra_env h).halt ≠ some .endless := by
    rw [hup]
    nofun
  have hend := app_up_end hp hret
  rw [hup] at hend
  cases hend with
  | @saved touched news hd hfin hopen hdump hfile hnews hkeys hc =>
    rw [app_stop, hsame, load_saved hfile]
    have hmap (l : List AppServiceState) : (l.reverse.flatMap fun s => m.stop s.container) =
        (l.map AppServiceState.container).reverse.flatMap m.stop := by
      rw [← List.map_reverse, List.flatMap_map]
    simp only [hmap, records_containers hnews, container_names, ← List.map_reverse, List.flatMap_map]

end

/-- For services of different names `topo_sort` succeeds exactly on known
dependencies without a cycle. Its order has each service after those it depends
on, `app_up` launches them in that order and `app_stop` stops them in the reverse,
from any host on which the state file is as `app_up` left it. -/
theorem dependencies_first (services : List ComposeService) (hnodup : (services.map ComposeService.name).Nodup) :
    ((∃ out, topo_sort services = .ok out) ↔ Known services ∧ Acyclic services) ∧
    ∀ out, topo_sort services = .ok out →
      out.Perm services ∧
      (∀ pre s post, out = pre ++ s :: post → ∀ dep ∈ s.depends_on, ∃ d ∈ pre, d.name = dep) ∧
      ∀ (m : Manager) (w : World) (dir : Bytes) (name_override : Option Bytes) (extra_env : List (Bytes × Bytes)) (h : Host)
        (compose_path : Bytes),
        w.find_compose_file dir = some compose_path → w.load_compose compose_path extra_env = .ok services →
        let app := app_name dir name_override
        let e := app_up m w dir name_override extra_env h
        LaunchOrder m w app services (old_services h app)
          (out.map (rewrite_env (out.map ComposeService.name) w.lan_ip)) e.commands ∧
        (e.halt = none → ∀ h' : Host, load_state h' app = load_state e.host app →
          (app_stop m app h').halt = none ∧
          StopOrder app services (app_stop m app h').commands ∧
          ∀ s ∈ services, m.stop (container_name app s.name) ⊆ (app_stop m app h').commands) := by
  refine ⟨topo_sort_ok_iff hnodup, fun out hsort => ?_⟩
  obtain ⟨hperm, htopo⟩ := topo_sort_ordered hnodup hsort
  refine ⟨hperm, ?_, ?_⟩
  · rintro pre s post rfl dep hdep
    have hs : s ∈ services := hperm.mem_iff.1 (by simp)
    exact List.mem_map.1 (htopo _ s.name (post.map ComposeService.name) (by simp) dep ⟨s, hs, rfl, hdep⟩)
  · intro m w dir name_override extra_env h compose_path hfind hload app e
    have hp := prepare_ordered hfind hload hsort
    -- rewriting the addresses leaves the names
    have hnames : (out.map (rewrite_env (out.map ComposeService.name) w.lan_ip)).map ComposeService.name =
        out.map ComposeService.name := by
      rw [List.map_map]
      rfl
    have hdistinct := topo_sort_distinct hsort
    rw [← hnames] at hdistinct htopo
    refine ⟨(app_up_sends hp).launchOrder hdistinct htopo, fun hup h' hsame => ?_⟩
    rw [app_stop_saved hp hup hsame]
    have hall : ∀ s ∈ services, s.name ∈ (out.map (rewrite_env (out.map ComposeService.name) w.lan_ip)).map ComposeService.name := by
      intro s hs
      rw [hnames]
      exact List.mem_map_of_mem (hperm.mem_iff.2 hs)
    refine ⟨rfl, stop_all_order hdistinct htopo hall, fun s hs c hc => ?_⟩
    obtain ⟨x, hx, hname⟩ := List.mem_map.1 (hall s hs)
    exact List.mem_flatMap.2 ⟨x, List.mem_reverse.2 hx, by rw [hname]; exact hc⟩

/-- A shop whose `web` is listed before the `db` it depends on. -/
def toyShop : List ComposeService :=
  [{ toyService "web" "nginx" with depends_on := [bytes "db"] }, toyService "db" "postgres"]

theorem dependencies_first_toyShop : Known toyShop ∧ Acyclic toyShop :=
  (dependencies_first toyShop (by decide)).1.1 ⟨toyShop.reverse, rfl⟩

end Hostely.Apps
