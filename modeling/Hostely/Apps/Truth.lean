import Hostely.Apps.Reconcile
import Hostely.Lib.Runs
/-!
# Does the state file tell the truth?

`app_up` recreates services one after the other and saves the state after the
last one. A call that ends early leaves the old file behind, which its comment
says "still describes the containers that are actually running"; it does not,
where a changed service was already recreated.
-/

open Hostely.Lib Hostely.Services

namespace Hostely.Apps

/-- What the state file says of containers: their hashes. -/
def ledger (h : Host) (app : Bytes) : List (Bytes × Bytes) :=
  (old_services h app).map fun e => (e.container, e.config_hash)

/-- Every recorded container that exists was launched from a configuration with
the recorded hash. -/
def Truthful (app : Bytes) (h : Host) : Prop :=
  ∀ e ∈ old_services h app, ∀ c, h.containers e.container = some c → config_fingerprint c.config = some e.config_hash

/-- Every entry has the container of its service. -/
def WellNamed (app : Bytes) (h : Host) : Prop :=
  ∀ e ∈ old_services h app, e.container = container_name app e.service

/-- The note fits a container launched from one of the configurations in use. -/
def fits (used : ComposeService → Prop) (hash : Bytes) (c : Container) : Prop :=
  config_fingerprint c.config = some hash ∧ used c.config

/-- A call launches only configurations in use. -/
def Uses (used : ComposeService → Prop) : AppCall → Prop
  | .up w dir _ extra_env => ∀ compose_path ss, prepare w dir extra_env = .ok (compose_path, ss) → ∀ s ∈ ss, used s
  | _ => True

/-- The call gets as far as opening the state file, or the services it launches
until then are recorded with the hash they have now, or not at all. -/
def RecordsLaunched (m : Manager) (h : Host) : AppCall → Prop
  | .up w dir name_override extra_env => ∀ compose_path ss, prepare w dir extra_env = .ok (compose_path, ss) →
    (finishes m w (app_name dir name_override) ss h = true ∧ w.opens = true) ∨
    ∀ s ∈ launched m w (app_name dir name_override) ss h, ∀ e ∈ old_services h (app_name dir name_override),
      e.service = s.name → config_fingerprint s = some e.config_hash
  | _ => True

/-! ## One call -/

section Call
variable {m : Manager} {w : World} {app compose_path : Bytes} {ss : List ComposeService} {h h' : Host}
  {halt : Option Halt} {used : ComposeService → Prop}

/-- A file that is not rewritten stays honest exactly when it says of every
launched service what it is now. -/
theorem honest_early_iff (hw : WellNamed app h) (hb : Honest (fits used) (ledger h app) h.containers)
    (hused : ∀ s ∈ ss, used s) {touched : List Bytes}
    (hc : Changed touched (placed app (launched m w app ss h)) h.containers h'.containers) :
    Honest (fits used) (ledger h app) h'.containers ↔ ∀ s ∈ launched m w app ss h, ∀ e ∈ old_services h app,
      e.service = s.name → config_fingerprint s = some e.config_hash := by
  rw [honest_kept_iff hb hc]
  simp only [placed, ledger, List.forall_mem_map]
  refine forall₂_congr fun s hs => forall₂_congr fun e he => ?_
  rw [hw e he]
  constructor
  · intro hfits hname
    exact (hfits (by rw [hname])).1
  · intro hhash hname
    exact ⟨hhash (container_name_inj app hname), hused s (launched_sub s hs)⟩

theorem mem_placed_keys (hnodup : (container_names app ss).Nodup) {l : List ComposeService} (hl : ∀ s ∈ l, s ∈ ss)
    {s : ComposeService} (hs : s ∈ ss) (hk : container_name app s.name ∈ (placed app l).map Prod.fst) : s ∈ l := by
  rw [placed_keys] at hk
  obtain ⟨x, hx, he⟩ := List.mem_map.1 hk
  rwa [List.inj_on_of_nodup_map hnodup (hl x hx) hs he] at hx

/-- A file that is rewritten is honest whatever was recreated. -/
theorem honest_saved (hw : WellNamed app h) (hb : Honest (fits used) (ledger h app) h.containers)
    (hused : ∀ s ∈ ss, used s) (hnodup : (container_names app ss).Nodup) (hfin : finishes m w app ss h = true)
    {news : List AppServiceState} (hnews : List.Forall₂ (AppServiceState.Records app) ss news) {touched : List Bytes}
    (hc : Changed touched (placed app (launched m w app ss h)) h.containers h'.containers) :
    Honest (fits used) (news.map fun e => (e.container, e.config_hash)) h'.containers := by
  apply honest_rewritten hb hc
  simp only [List.forall_mem_map]
  intro st hst
  obtain ⟨s, hs, hrec⟩ := records_of_mem hnews st hst
  by_cases hl : s ∈ launched m w app ss h
  · refine .inl ⟨⟨s, app⟩, ?_, hrec.hash, hused s hs⟩
    rw [hrec.container]
    exact List.mem_map.2 ⟨s, hl, rfl⟩
  · -- a service that was kept has its old entry, in the same words
    obtain ⟨e, he, fingerprint, hf, hservice, hhash⟩ := (launches_finished hfin s hs).resolve_left hl
    refine .inr ⟨List.mem_map.2 ⟨e, he, ?_⟩, ?_⟩
    · rw [hw e he, hservice, hrec.container, hhash, Option.some.inj (hf.symm.trans hrec.hash)]
    · rw [hrec.container]
      exact fun hk => hl (mem_placed_keys hnodup launched_sub hs hk)

/-- After a call of `app_up` the state file is honest exactly when the call
recorded what it launched. -/
theorem up_honest_iff (hw : WellNamed app h) (hb : Honest (fits used) (ledger h app) h.containers)
    (hused : ∀ s ∈ ss, used s) (hnodup : (container_names app ss).Nodup)
    (hend : UpEnd m w app compose_path ss h h' halt) :
    Honest (fits used) (ledger h' app) h'.containers ↔ (finishes m w app ss h = true ∧ w.opens = true) ∨
      ∀ s ∈ launched m w app ss h, ∀ e ∈ old_services h app, e.service = s.name →
        config_fingerprint s = some e.config_hash := by
  cases hend with
  | early hnot hold hc =>
    rw [ledger, hold, ← ledger, honest_early_iff hw hb hused hc, or_iff_right hnot]
  | emptied hfin hopen hdump hload hkeys hc =>
    refine iff_of_true ?_ (.inl ⟨hfin, hopen⟩)
    simp [ledger, old_services, hload, Honest]
  | saved hfin hopen hdump hfile hnews hkeys hc =>
    refine iff_of_true ?_ (.inl ⟨hfin, hopen⟩)
    rw [ledger, old_services_of_load (load_saved hfile)]
    exact honest_saved hw hb hused hnodup hfin hnews hc

theorem up_wellNamed (hw : WellNamed app h) (hend : UpEnd m w app compose_path ss h h' halt) : WellNamed app h' := by
  unfold WellNamed
  cases hend with
  | early hnot hold hc =>
    rw [hold]
    exact hw
  | emptied hfin hopen hdump hload hkeys hc => simp [old_services, hload]
  | saved hfin hopen hdump hfile hnews hkeys hc =>
    rw [old_services_of_load (load_saved hfile)]
    intro e he
    obtain ⟨s, _, hrec⟩ := records_of_mem hnews e he
    rw [hrec.container, hrec.service]

end Call

/-! ## Every run -/

/-- What holds along a run: the file is honest, and says for each service the
container that `app_up` would look for. -/
structure Kept (used : ComposeService → Prop) (app : Bytes) (h : Host) : Prop where
  wellNamed : WellNamed app h
  honest : Honest (fits used) (ledger h app) h.containers

section Run
variable {m : Manager} {app : Bytes} {used : ComposeService → Prop}

/-- `app_rm` only takes away: entries, and containers. -/
theorem app_rm_kept (m : Manager) (w : World) {h : Host} (hk : Kept used app h) :
    Kept used app (app_rm m w app h).host := by
  rcases app_rm_host w m app h with ⟨_, hhost⟩ | ⟨hcontainers, hold⟩
  · rw [hhost]
    exact hk
  have hsub : ∀ e ∈ old_services (app_rm m w app h).host app, e ∈ old_services h app := by
    rcases hold with hold | hold
    · rw [hold]
      exact fun _ he => he
    · rw [hold]
      exact fun _ he => absurd he List.not_mem_nil
  refine ⟨fun e he => hk.wellNamed e (hsub e he), hk.honest.mono (fun x hx => ?_) fun k c hc => ?_⟩
  · obtain ⟨e, he, rfl⟩ := List.mem_map.1 hx
    exact List.mem_map.2 ⟨e, hsub e he, rfl⟩
  · rw [hcontainers] at hc
    exact ((remove_all_changed w _ h).origin hc).elim (fun hx => absurd hx List.not_mem_nil) And.right

/-- One call, from an honest file to an honest file or not. -/
theorem step_honest_iff {h h' : Host} {c : AppCall} (hk : Kept used app h) (hused : Uses used c)
    (hstep : step m app h c h') :
    WellNamed app h' ∧ (Honest (fits used) (ledger h' app) h'.containers ↔ RecordsLaunched m h c) := by
  obtain ⟨rfl, hret, rfl⟩ := hstep
  cases c with
  | up w dir name_override extra_env =>
    cases hp : prepare w dir extra_env with
    | error message =>
      have hhost : (app_up m w dir name_override extra_env h).host = h := by simp [app_up, hp]
      refine ⟨by rw [AppCall.run, hhost]; exact hk.wellNamed, iff_of_true (by rw [AppCall.run, hhost]; exact hk.honest) ?_⟩
      intro compose_path ss hp'
      rw [hp] at hp'
      cases hp'
    | ok p =>
      obtain ⟨compose_path, ss⟩ := p
      have hend := app_up_end hp hret
      refine ⟨up_wellNamed hk.wellNamed hend, ?_⟩
      rw [RecordsLaunched, prepare_ok_iff hp]
      exact up_honest_iff hk.wellNamed hk.honest (hused _ _ hp) (prepare_distinct hp _) hend
  | stop app =>
    rw [AppCall.run, app_stop_host]
    exact ⟨hk.wellNamed, iff_of_true hk.honest trivial⟩
  | rm w app =>
    obtain ⟨hwell, hhonest⟩ := app_rm_kept m w hk
    exact ⟨hwell, iff_of_true hhonest trivial⟩

/-- In every run, from a machine without a state file of the app, in which
every call records what it launches, the state file tells the truth; and a
service that it lists under the fingerprint the service has now runs from the
configuration the service has now. -/
theorem state_file_truthful (m : Manager) (app : Bytes) (used : ComposeService → Prop)
    (hinj : ∀ a b fingerprint, used a → used b → config_fingerprint a = some fingerprint →
      config_fingerprint b = some fingerprint → a.config = b.config)
    {h : Host} (hr : Reaches (guarded (fun h c => Uses used c ∧ RecordsLaunched m h c) (step m app))
      (fun h => load_state h app = none) h) :
    Truthful app h ∧ ∀ e ∈ old_services h app, ∀ c, h.containers e.container = some c →
      ∀ s, used s → config_fingerprint s = some e.config_hash → c.config.config = s.config := by
  have hk : Kept used app h := by
    refine hr.inv (fun h hinit => ?_) fun h c h' hk hstep => ?_
    · constructor <;> simp [WellNamed, ledger, Honest, old_services, hinit]
    · obtain ⟨⟨hused, hrec⟩, hstep⟩ := hstep
      obtain ⟨hw, hiff⟩ := step_honest_iff hk hused hstep
      exact ⟨hw, hiff.2 hrec⟩
  have hfits : ∀ e ∈ old_services h app, ∀ c, h.containers e.container = some c → fits used e.config_hash c :=
    fun e he c hc => hk.honest (e.container, e.config_hash) (List.mem_map.2 ⟨e, he, rfl⟩) c hc
  refine ⟨fun e he c hc => (hfits e he c hc).1, fun e he c hc s hs hf => ?_⟩
  obtain ⟨hfc, huc⟩ := hfits e he c hc
  exact hinj _ _ _ huc hs hfc hf

end Run

/-! ## A call that fails halfway -/

def db16 : ComposeService := toyService "db" "postgres:16"
def db17 : ComposeService := toyService "db" "postgres:17"
def web : ComposeService := toyService "web" "nginx"

/-- The shop is up, and the upgrade of its database is taken up although the
web service then fails to start. -/
def upgraded : Host := ((toyUp [db17, web] fun i => i = 1).run toyManager
  ((toyUp [db16, web] fun _ => false).run toyManager toyHost).host).host

theorem toy_fingerprints_differ (a b : ComposeService) (fingerprint : Bytes) (ha : a ∈ [db16, db17, web])
    (hb : b ∈ [db16, db17, web]) (hfa : config_fingerprint a = some fingerprint)
    (hfb : config_fingerprint b = some fingerprint) : a.config = b.config := by
  have hinj : ∀ a ∈ [db16, db17, web], ∀ b ∈ [db16, db17, web], config_fingerprint a = config_fingerprint b →
      a.config = b.config := by decide +kernel
  exact hinj a ha b hb (hfa.trans hfb.symm)

/-- The state file still says postgres:16 of the container that runs
postgres:17. -/
theorem truth_lost : ∃ used : ComposeService → Prop,
    (∀ a b fingerprint, used a → used b → config_fingerprint a = some fingerprint →
      config_fingerprint b = some fingerprint → a.config = b.config) ∧
    ∃ h, Reaches (guarded (fun _ c => Uses used c) (step toyManager (bytes "shop")))
      (fun h => load_state h (bytes "shop") = none) h ∧ ¬ Truthful (bytes "shop") h := by
  refine ⟨(· ∈ [db16, db17, web]), toy_fingerprints_differ, upgraded, ?_, fun ht => ?_⟩
  · refine .step (.step (.init (s := toyHost) rfl) ⟨?_, rfl, by decide +kernel, rfl⟩) ⟨?_, rfl, by decide +kernel, rfl⟩
    · intro compose_path ss hp
      obtain ⟨rfl, rfl⟩ := Prod.mk.inj (Except.ok.inj hp)
      decide
    · intro compose_path ss hp
      obtain ⟨rfl, rfl⟩ := Prod.mk.inj (Except.ok.inj hp)
      decide
  · let entry : AppServiceState :=
      ⟨bytes "db", bytes "shop-db", bytes "postgres:16", (config_fingerprint db16).getD [], []⟩
    have hrecorded : config_fingerprint db17 = some entry.config_hash :=
      ht entry (by decide +kernel) ⟨db17, bytes "shop"⟩ (by decide +kernel)
    exact absurd hrecorded (by decide +kernel)

/-- The shop before the upgrade. -/
theorem state_file_truthful_shop :
    let h := ((toyUp [db16, web] fun _ => false).run toyManager toyHost).host
    Truthful (bytes "shop") h ∧ ∀ e ∈ old_services h (bytes "shop"), ∀ c, h.containers e.container = some c →
      ∀ s, s ∈ [db16, db17, web] → config_fingerprint s = some e.config_hash → c.config.config = s.config := by
  apply state_file_truthful toyManager (bytes "shop") (· ∈ [db16, db17, web]) toy_fingerprints_differ
  refine .step (.init (s := toyHost) rfl) ⟨⟨?_, ?_⟩, rfl, by decide +kernel, rfl⟩
  · intro compose_path ss hp
    obtain ⟨rfl, rfl⟩ := Prod.mk.inj (Except.ok.inj hp)
    decide
  · intro compose_path ss hp
    obtain ⟨rfl, rfl⟩ := Prod.mk.inj (Except.ok.inj hp)
    exact .inl (by decide +kernel)

end Hostely.Apps
