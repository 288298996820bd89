import Hostely.Apps.Idempotent
import Hostely.Apps.Order
/-!
# When the listing fails

A service with the recorded fingerprint is kept when `Manager::list` reports its
container, and started when `container ls -a` shows it. Both take a call that
failed for a container that is not there; when neither shows it the service is
recreated, and its container removed first.
-/

open Hostely.Lib Hostely.Services

namespace Hostely.Apps

/-! ## Reconciling -/

/-- One of the two listings shows the container. -/
def Shown (m : Manager) (cli : Verb → CliResult) (name : Bytes) : Prop :=
  Reports m (cli .ls) name ∨ container_exists_any_state (cli .ls_a) name = true

/-- A listing that failed and one without the container count the same. -/
theorem find_container_unreported {m : Manager} {cli : Verb → CliResult} {name : Bytes} (h : ¬ Reports m (cli .ls) name) :
    find_container m cli name = if container_exists_any_state (cli .ls_a) name then .stopped else .missing := by
  unfold find_container
  cases hlist : m.list (cli .ls) with
  | error e => rfl
  | ok infos =>
    have hany : infos.any (·.name = name) = false := by
      simp only [List.any_eq_false, decide_eq_true_eq]
      intro info hinfo hname
      exact h ⟨infos, hlist, info, hinfo, hname⟩
    simp [hany]

theorem find_container_cases (m : Manager) (cli : Verb → CliResult) (name : Bytes) :
    (Shown m cli name ∧ (find_container m cli name = .running ∨ find_container m cli name = .stopped)) ∨
      (¬ Shown m cli name ∧ find_container m cli name = .missing) := by
  by_cases hr : Reports m (cli .ls) name
  · exact .inl ⟨.inl hr, .inl (find_container_running hr)⟩
  · rw [find_container_unreported hr, Shown, or_iff_right hr]
    by_cases ha : container_exists_any_state (cli .ls_a) name = true
    · exact .inl ⟨ha, .inr (if_pos ha)⟩
    · exact .inr ⟨ha, if_neg ha⟩

section Reconcile
variable {m : Manager} {cli : Nat → Verb → CliResult} {service name fingerprint : Bytes}

/-- One entry keeps the service when it matches and its container is shown. -/
theorem reconcile_entry_shown (acc : Bool × List Command) (e : AppServiceState × Nat) :
    ((reconcile_entry m cli service name fingerprint acc e).1 = false ↔
      acc.1 = false ∨ (e.1.Matches service fingerprint ∧ Shown m (cli e.2) name)) ∧
    ∀ c ∈ (reconcile_entry m cli service name fingerprint acc e).2, c ∈ acc.2 ∨ c = .start name := by
  unfold reconcile_entry AppServiceState.Matches
  by_cases hs : e.1.service = service
  · by_cases hh : e.1.config_hash = fingerprint
    · rcases find_container_cases m (cli e.2) name with ⟨hshown, hfound | hfound⟩ | ⟨hshown, hfound⟩
      · simp [hs, hh, hfound, hshown]
        exact fun c hc => .inl hc
      · simp [hs, hh, hfound, hshown]
      · simp [hs, hh, hfound, hshown]
        exact fun c hc => .inl hc
    · simp [hs, hh]
      exact fun c hc => .inl hc
  · simp [hs]
    exact fun c hc => .inl hc

theorem reconcile_shown (old : List AppServiceState) :
    ((reconcile m cli service name fingerprint old).1 = false ↔
      ∃ e ∈ old.zipIdx, e.1.Matches service fingerprint ∧ Shown m (cli e.2) name) ∧
    ∀ c ∈ (reconcile m cli service name fingerprint old).2, c = .start name := by
  have hfold (l : List (AppServiceState × Nat)) (acc : Bool × List Command) :
      ((l.foldl (reconcile_entry m cli service name fingerprint) acc).1 = false ↔
        acc.1 = false ∨ ∃ e ∈ l, e.1.Matches service fingerprint ∧ Shown m (cli e.2) name) ∧
      ∀ c ∈ (l.foldl (reconcile_entry m cli service name fingerprint) acc).2, c ∈ acc.2 ∨ c = .start name := by
    induction l generalizing acc with
    | nil => exact ⟨by simp, fun c hc => .inl hc⟩
    | cons e l ih =>
      obtain ⟨hneeds, hcommands⟩ := @reconcile_entry_shown m cli service name fingerprint acc e
      obtain ⟨hneeds', hcommands'⟩ := ih (reconcile_entry m cli service name fingerprint acc e)
      rw [List.foldl_cons]
      constructor
      · rw [hneeds', hneeds]
        simp [or_assoc]
      · intro c hc
        rcases hcommands' c hc with hc | hc
        · exact hcommands c hc
        · exact .inr hc
  obtain ⟨hneeds, hcommands⟩ := hfold old.zipIdx (true, [])
  refine ⟨hneeds.trans (by simp), fun c hc => ?_⟩
  exact (hcommands c hc).resolve_left List.not_mem_nil

end Reconcile

/-! ## The commands of the loop -/

section Loop
variable {m : Manager} {w : World} {app : Bytes}

/-- What clears the stale container, and more: it is about the container, and it
is more than starts. -/
theorem clears {name : Bytes} {started more : List Command} (hstarted : ∀ c ∈ started, c = .start name)
    (hmore : ∀ c ∈ more, c.container = some name) :
    (∀ c ∈ started ++ (m.stop name ++ [.rm name] ++ more), c.container = some name) ∧
      ¬ ∀ c ∈ started ++ (m.stop name ++ [.rm name] ++ more), c = .start name := by
  constructor
  · intro c hc
    simp only [List.mem_append, List.mem_singleton] at hc
    rcases hc with hc | (hc | rfl) | hc
    · rw [hstarted c hc, Command.container]
    · exact Manager.stop_container c hc
    · rfl
    · exact hmore c hc
  · intro h
    have := h (.rm name) (by simp)
    cases this

/-- The commands of a round are about the container of its service, and they are
all starts exactly when the service is not recreated. -/
theorem round_commands (s : ComposeService) (u : Up) : ∃ more,
    (up_service m w app s u).1.commands = u.commands ++ more ∧
    (∀ c ∈ more, c.container = some (container_name app s.name)) ∧
    ∀ fingerprint, config_fingerprint s = some fingerprint →
      ((∀ c ∈ more, c = .start (container_name app s.name)) ↔
        recreates m w app (old_services u.host app) u.services.length s fingerprint = false) := by
  have hattempt := @up_service_attempt m w app s u
  generalize up_service m w app s u = r at hattempt ⊢
  have hstarts {fingerprint : Bytes} {needs_run : Bool} {started : List Command}
      (hr : reconcile m (w.cli u.services.length) s.name (container_name app s.name) fingerprint
        (old_services u.host app) = (needs_run, started)) : ∀ c ∈ started, c = .start (container_name app s.name) := by
    have h := (@reconcile_shown m (w.cli u.services.length) s.name (container_name app s.name) fingerprint
      (old_services u.host app)).2
    rwa [hr] at h
  -- a service that is not recreated
  have hkept {fingerprint : Bytes} {started : List Command} (hf : config_fingerprint s = some fingerprint)
      (hr : reconcile m (w.cli u.services.length) s.name (container_name app s.name) fingerprint
        (old_services u.host app) = (false, started)) :
      (∀ c ∈ started, c.container = some (container_name app s.name)) ∧
      ∀ fingerprint, config_fingerprint s = some fingerprint →
        ((∀ c ∈ started, c = .start (container_name app s.name)) ↔
          recreates m w app (old_services u.host app) u.services.length s fingerprint = false) := by
    refine ⟨fun c hc => by rw [hstarts hr c hc, Command.container], fun f hf' => ?_⟩
    obtain rfl := Option.some.inj (hf.symm.trans hf')
    exact iff_of_true (hstarts hr) (congrArg Prod.fst hr)
  -- and one that is
  have hcleared {fingerprint : Bytes} {started : List Command} (more : List Command) (hf : config_fingerprint s = some fingerprint)
      (hr : reconcile m (w.cli u.services.length) s.name (container_name app s.name) fingerprint
        (old_services u.host app) = (true, started)) (hmore : ∀ c ∈ more, c.container = some (container_name app s.name)) :
      (∀ c ∈ started ++ (m.stop (container_name app s.name) ++ [.rm (container_name app s.name)] ++ more),
        c.container = some (container_name app s.name)) ∧
      ∀ fingerprint, config_fingerprint s = some fingerprint →
        ((∀ c ∈ started ++ (m.stop (container_name app s.name) ++ [.rm (container_name app s.name)] ++ more),
            c = .start (container_name app s.name)) ↔
          recreates m w app (old_services u.host app) u.services.length s fingerprint = false) := by
    obtain ⟨habout, hnot⟩ := @clears m _ _ _ (hstarts hr) hmore
    refine ⟨habout, fun f hf' => ?_⟩
    obtain rfl := Option.some.inj (hf.symm.trans hf')
    exact iff_of_false hnot (by simp [recreates, hr])
  cases hattempt with
  | thrown hf =>
    refine ⟨[], by simp, by simp, fun f hf' => ?_⟩
    rw [hf] at hf'
    cases hf'
  | @endless fingerprint needs_run started hf hr =>
    cases needs_run with
    | false => exact ⟨started, rfl, hkept hf hr⟩
    | true =>
      have hall := hcleared [] hf hr (by simp)
      rw [List.append_nil] at hall
      exact ⟨_, by simp [clear_stale], hall⟩
  | kept hf hr hp => exact ⟨_, rfl, hkept hf hr⟩
  | @run fingerprint started ports claimed_ports hf hr hp =>
    obtain ⟨sent, hsent, habout, -, -⟩ := @finish_service_sends m w app s fingerprint ports
      { clear_stale m w app s { u with commands := u.commands ++ started } with claimed_ports := claimed_ports }
    refine ⟨_, ?_, hcleared sent hf hr habout⟩
    rw [hsent]
    simp [clear_stale]

theorem up_services_append (pre post : List ComposeService) (u : Up) :
    up_services m w app (pre ++ post) u =
      match up_services m w app pre u with
      | (u, none) => up_services m w app post u
      | (u, some halt) => (u, some halt) := by
  induction pre generalizing u with
  | nil => rfl
  | cons s pre ih =>
    rw [List.cons_append, up_services, up_services]
    cases up_service m w app s u with
    | mk u' halt =>
      cases halt with
      | none => exact ih u'
      | some halt => rfl

/-- The call sends what its loop sends. -/
theorem app_up_commands {dir compose_path : Bytes} {name_override : Option Bytes} {extra_env : List (Bytes × Bytes)}
    {ss : List ComposeService} {h : Host} (hp : prepare w dir extra_env = .ok (compose_path, ss)) :
    (app_up m w dir name_override extra_env h).commands =
      (up_services m w (app_name dir name_override) ss ⟨h, [], [], []⟩).1.commands := by
  unfold app_up
  simp only [hp]
  cases up_services m w (app_name dir name_override) ss ⟨h, [], [], []⟩ with
  | mk u halt => cases halt <;> rfl

/-- The commands of other services are about other containers. -/
theorem Sends.others {name : Bytes} {l : List ComposeService} {old : List AppServiceState} {more : List Command}
    (h : Sends m w app old l more) (hl : container_name app name ∉ container_names app l) :
    ∀ c ∈ more, c.container ≠ some (container_name app name) := by
  intro c hc he
  obtain ⟨x, hx, hcx⟩ := h.container c hc
  exact hl (List.mem_map.2 ⟨x, hx, Option.some.inj (hcx.symm.trans he)⟩)

/-- After the round of a service come the rounds of those that are left. -/
theorem up_services_rest {s : ComposeService} {post : List ComposeService} {u : Up} {sent : List Command}
    (hpost : container_name app s.name ∉ container_names app post)
    (hround : (up_service m w app s u).1.commands = sent) :
    ∃ back, (up_services m w app (s :: post) u).1.commands = sent ++ back ∧
      ∀ c ∈ back, c.container ≠ some (container_name app s.name) := by
  subst hround
  rw [up_services]
  cases up_service m w app s u with
  | mk u₂ halt =>
    cases halt with
    | some halt => exact ⟨[], by simp, by simp⟩
    | none =>
      obtain ⟨back, hback, habout⟩ := @up_services_sends m w app post u₂
      exact ⟨back, hback, habout.others hpost⟩

/-- What the loop sends about one of its services: nothing when it does not get
there, and otherwise only starts exactly when the service is not recreated. -/
theorem up_services_only_starts {pre post : List ComposeService} {s : ComposeService} {h : Host} {fingerprint : Bytes}
    (hnodup : (container_names app (pre ++ s :: post)).Nodup) (hf : config_fingerprint s = some fingerprint) :
    (∀ c ∈ (up_services m w app (pre ++ s :: post) ⟨h, [], [], []⟩).1.commands,
        c.container = some (container_name app s.name) → c = .start (container_name app s.name)) ↔
      (up_services m w app pre ⟨h, [], [], []⟩).2 ≠ none ∨
        recreates m w app (old_services h app) pre.length s fingerprint = false := by
  have hnames : container_names app (pre ++ s :: post) =
      container_names app pre ++ container_name app s.name :: container_names app post := by simp [container_names]
  rw [hnames, List.nodup_append, List.nodup_cons] at hnodup
  obtain ⟨hpre, ⟨hpost, -⟩, hapart⟩ := hnodup
  have hnot : container_name app s.name ∉ container_names app pre :=
    fun hmem => hapart _ hmem _ List.mem_cons_self rfl
  obtain ⟨front, hfront, habout⟩ := @up_services_sends m w app pre ⟨h, [], [], []⟩
  rw [List.nil_append] at hfront
  have hfront' := habout.others hnot
  have hlooped := @up_services_looped m w app pre hpre ⟨h, [], [], []⟩
  rw [up_services_append]
  cases hu : up_services m w app pre ⟨h, [], [], []⟩ with
  | mk u₁ halt =>
    rw [hu] at hfront hlooped
    cases halt with
    | some halt =>
      refine iff_of_true (fun c hc he => ?_) (.inl (by simp))
      have hc' : c ∈ front := hfront ▸ hc
      exact absurd he (hfront' c hc')
    | none =>
      have hloop := hlooped (by simp)
      obtain ⟨news, hnews, hrecords⟩ := hloop.services rfl
      have hlen : u₁.services.length = pre.length := by
        rw [hnews, List.nil_append, hrecords.length_eq]
      have hold : old_services u₁.host app = old_services h app := old_services_congr app hloop.files hloop.state_dir
      obtain ⟨more, hmore, hmore_about, hstarts⟩ := @round_commands m w app s u₁
      have hiff := hstarts fingerprint hf
      rw [hold, hlen] at hiff
      rw [hfront] at hmore
      obtain ⟨back, hback, hback'⟩ := up_services_rest hpost hmore
      show (∀ c ∈ (up_services m w app (s :: post) u₁).1.commands, _ → _) ↔ _
      rw [hback, ← hiff]
      simp only [ne_eq, not_true_eq_false, false_or]
      constructor
      · intro hall c hc
        exact hall c (by simp [hc]) (hmore_about c hc)
      · intro hall c hc he
        simp only [List.mem_append] at hc
        rcases hc with (hc | hc) | hc
        · exact absurd he (hfront' c hc)
        · exact hall c hc
        · exact absurd he (hback' c hc)

end Loop

/-! ## A whole call -/

/-- The container of the service exists, and the state file records it with the
fingerprint that the service has now. -/
structure UpToDate (h : Host) (app : Bytes) (s : ComposeService) (fingerprint : Bytes) : Prop where
  hash : config_fingerprint s = some fingerprint
  recorded : ∃ e ∈ old_services h app, e.Matches s.name fingerprint
  here : (h.containers (container_name app s.name)).isSome = true

/-- A call neither stops nor removes nor runs again a service that is up to date
exactly when it does not get to the service, or one of the two listings shows
the container when it looks for an entry that matches. -/
theorem up_to_date_survives_iff (m : Manager) (w : World) (dir : Bytes) (name_override : Option Bytes)
    (extra_env : List (Bytes × Bytes)) (h : Host) {compose_path : Bytes} {pre post : List ComposeService}
    {s : ComposeService} {fingerprint : Bytes} (hp : prepare w dir extra_env = .ok (compose_path, pre ++ s :: post))
    (hs : UpToDate h (app_name dir name_override) s fingerprint) :
    (∀ c ∈ (app_up m w dir name_override extra_env h).commands,
        c.container = some (container_name (app_name dir name_override) s.name) →
          c = .start (container_name (app_name dir name_override) s.name)) ↔
      (up_services m w (app_name dir name_override) pre ⟨h, [], [], []⟩).2 ≠ none ∨
        ∃ e ∈ (old_services h (app_name dir name_override)).zipIdx, e.1.Matches s.name fingerprint ∧
          Shown m (w.cli pre.length e.2) (container_name (app_name dir name_override) s.name) := by
  rw [app_up_commands hp, up_services_only_starts (prepare_distinct hp _) hs.hash, recreates, reconcile_shown _ |>.1]

/-! ## A listing that fails -/

/-- The second call on the shop, with a CLI that lists nothing and does everything else. -/
def unlisted : World :=
  { toyWorld [db16] fun _ => false with cli _ _ verb := ⟨if verb = .ls ∨ verb = .ls_a then 1 else 0, [], []⟩ }

def shopHost : Host := (app_up toyManager (toyWorld [db16] fun _ => false) (bytes "shop") none [] toyHost).host

theorem shopHost_up : UpToDate shopHost (bytes "shop") db16 ((config_fingerprint db16).getD []) := by
  have hrecorded : ∃ e ∈ old_services shopHost (bytes "shop"), e.service = db16.name ∧
      e.config_hash = (config_fingerprint db16).getD [] := by decide +kernel
  exact ⟨by decide +kernel, hrecorded, by decide +kernel⟩

theorem unlisted_prepare :
    prepare unlisted (bytes "shop") [] = .ok (bytes "shop/compose.yaml", [] ++ db16 :: []) := by decide +kernel

theorem up_to_date_survives_shop :
    (∀ c ∈ (app_up toyManager unlisted (bytes "shop") none [] shopHost).commands,
        c.container = some (container_name (bytes "shop") db16.name) → c = .start (container_name (bytes "shop") db16.name)) ↔
      (up_services toyManager unlisted (bytes "shop") [] ⟨shopHost, [], [], []⟩).2 ≠ none ∨
        ∃ e ∈ (old_services shopHost (bytes "shop")).zipIdx, e.1.Matches db16.name ((config_fingerprint db16).getD []) ∧
          Shown toyManager (unlisted.cli 0 e.2) (container_name (bytes "shop") db16.name) :=
  up_to_date_survives_iff toyManager unlisted (bytes "shop") none [] shopHost unlisted_prepare shopHost_up

/-- Both listings fail once, and the container of an unchanged service is removed. -/
theorem healthy_container_removed :
    ¬ ∀ (m : Manager) (w : World) (dir : Bytes) (name_override : Option Bytes) (extra_env : List (Bytes × Bytes)) (h : Host)
      (compose_path : Bytes) (ss : List ComposeService) (s : ComposeService) (fingerprint : Bytes),
      prepare w dir extra_env = .ok (compose_path, ss) → s ∈ ss →
      UpToDate h (app_name dir name_override) s fingerprint →
      ∀ c ∈ (app_up m w dir name_override extra_env h).commands,
        c.container = some (container_name (app_name dir name_override) s.name) →
          c = .start (container_name (app_name dir name_override) s.name) := by
  intro hall
  have hrm := hall toyManager unlisted (bytes "shop") none [] shopHost (bytes "shop/compose.yaml") [db16] db16 _
    unlisted_prepare List.mem_cons_self shopHost_up (.rm (container_name (bytes "shop") db16.name))
    (by decide +kernel) rfl
  cases hrm

end Hostely.Apps
