import Hostely.Apps.Truth
/-!
# Does app_rm know every container?

An app owns the containers its calls of `app_up` launched, but only the state
file says which they are. The file is written anew from the compose file, also
when a service has left it, and not at all by a call that ends early.
-/

open Hostely.Lib Hostely.Services

namespace Hostely.Apps

/-- The containers that `app_rm` would remove. -/
def listed (app : Bytes) (h : Host) : List Bytes := (old_services h app).map AppServiceState.container

/-- The app has no container. -/
def NothingLeft (app : Bytes) (h : Host) : Prop := ∀ k c, h.containers k = some c → c.app ≠ app

/-- `app_rm` knows every container the app owns. -/
def Listed (app : Bytes) (h : Host) : Prop := Covers (fun c : Container => c.app = app) (listed app h) h.containers

def IsUp : AppCall → Prop
  | .up .. => True
  | _ => False

theorem toyUp_isUp (services : List ComposeService) (fails : Nat → Bool) : IsUp (toyUp services fails) := trivial

/-- A call that ends before it opens the state file launched only services
that the old file has; a call that writes it has every container that the app
owns in its compose file; a call that leaves it empty leaves no container. -/
def Tracks (m : Manager) (h : Host) : AppCall → Prop
  | .up w dir name_override extra_env => ∀ compose_path ss, prepare w dir extra_env = .ok (compose_path, ss) →
    let app := app_name dir name_override
    if finishes m w app ss h = true ∧ w.opens = true then
      (NamesDump app compose_path ss → ∀ k c, h.containers k = some c → c.app = app → k ∈ container_names app ss) ∧
      (¬ NamesDump app compose_path ss → launched m w app ss h = [] ∧ NothingLeft app h)
    else ∀ s ∈ launched m w app ss h, container_name app s.name ∈ listed app h
  | _ => True

/-! ## One call -/

section Call
variable {m : Manager} {w : World} {app compose_path : Bytes} {ss : List ComposeService} {h h' : Host}
  {halt : Option Halt}

theorem nothingLeft_iff : NothingLeft app h ↔ Covers (fun c : Container => c.app = app) [] h.containers := by
  constructor
  · exact fun hn k c hc ho => absurd ho (hn k c hc)
  · exact fun hcov k c hc ho => absurd (hcov k c hc ho) List.not_mem_nil

theorem placed_owned (l : List ComposeService) : ∀ x ∈ placed app l, x.2.app = app := by
  intro x hx
  obtain ⟨s, _, rfl⟩ := List.mem_map.1 hx
  rfl

/-- After a call of `app_up` the file lists what the app owns exactly when the
call kept track of it. -/
theorem up_listed_iff (hb : Listed app h) (hend : UpEnd m w app compose_path ss h h' halt) :
    Listed app h' ↔
      if finishes m w app ss h = true ∧ w.opens = true then
        (NamesDump app compose_path ss → ∀ k c, h.containers k = some c → c.app = app → k ∈ container_names app ss) ∧
        (¬ NamesDump app compose_path ss → launched m w app ss h = [] ∧ NothingLeft app h)
      else ∀ s ∈ launched m w app ss h, container_name app s.name ∈ listed app h := by
  cases hend with
  | early hnot hold hc =>
    rw [if_neg hnot, Listed, listed, hold, ← listed, covers_kept_iff hb hc (placed_owned _)]
    simp [placed]
  | emptied hfin hopen hdump hload hkeys hc =>
    have hnone : listed app h' = [] := by simp [listed, old_services, hload]
    rw [if_pos ⟨hfin, hopen⟩, Listed, hnone, nothingLeft_iff]
    constructor
    · intro hcov
      have hnil : launched m w app ss h = [] := by
        apply List.eq_nil_iff_forall_not_mem.2
        intro s hs
        have hx : (container_name app s.name, (⟨s, app⟩ : Container)) ∈ placed app (launched m w app ss h) :=
          List.mem_map.2 ⟨s, hs, rfl⟩
        exact List.not_mem_nil (hcov _ _ (hc.put _ hx) rfl)
      rw [hnil] at hkeys hc
      exact ⟨fun hd => absurd hd hdump, fun _ => ⟨hnil, (covers_rewritten_iff hc hkeys (by simp [placed])).1 hcov⟩⟩
    · rintro ⟨_, hempty⟩
      obtain ⟨hnil, hcov⟩ := hempty hdump
      rw [hnil] at hkeys hc
      exact (covers_rewritten_iff hc hkeys (by simp [placed])).2 hcov
  | saved hfin hopen hdump hfile hnews hkeys hc =>
    have hkeys' : listed app h' = container_names app ss := by
      rw [listed, old_services_of_load (load_saved hfile)]
      exact records_containers hnews
    rw [if_pos ⟨hfin, hopen⟩, Listed, hkeys', covers_rewritten_iff hc hkeys]
    · exact ⟨fun hcov => ⟨fun _ => hcov, fun hd => absurd hdump hd⟩, fun hcov => hcov.1 hdump⟩
    · intro x hx
      obtain ⟨s, hs, rfl⟩ := List.mem_map.1 hx
      exact List.mem_map.2 ⟨s, launched_sub s hs, rfl⟩

theorem step_listed_iff {c : AppCall} (hb : Listed app h) (hup : IsUp c) (hstep : step m app h c h') :
    Listed app h' ↔ Tracks m h c := by
  obtain ⟨rfl, hret, rfl⟩ := hstep
  cases c with
  | up w dir name_override extra_env =>
    cases hp : prepare w dir extra_env with
    | error message =>
      have hhost : (app_up m w dir name_override extra_env h).host = h := by simp [app_up, hp]
      apply iff_of_true (by rw [AppCall.run, hhost]; exact hb)
      intro compose_path ss hp'
      rw [hp] at hp'
      cases hp'
    | ok p =>
      obtain ⟨compose_path, ss⟩ := p
      rw [Tracks, prepare_ok_iff hp]
      exact up_listed_iff hb (app_up_end hp hret)
  | stop app => exact hup.elim
  | rm w app => exact hup.elim

/-- An `app_rm` whose CLI calls succeed leaves nothing exactly when the file
lists what the app owns. -/
theorem app_rm_nothingLeft_iff (m : Manager) (hok : ∀ i k verb, (w.cli i k verb).ok = true) (h : Host) :
    NothingLeft app (app_rm m w app h).host ↔ Listed app h := by
  rcases app_rm_host w m app h with ⟨hload, hhost⟩ | ⟨hcontainers, _⟩
  · rw [hhost, nothingLeft_iff, Listed, listed, old_services, hload]
    rfl
  · have hmap : (old_services h app).zipIdx.map (fun e => e.1.container) = listed app h := by
      have hfst := congrArg (List.map AppServiceState.container) (List.zipIdx_map_fst 0 (old_services h app))
      rwa [List.map_map] at hfst
    unfold NothingLeft
    rw [hcontainers]
    refine nothing_left_iff ?_ ?_
    · rw [← hmap]
      exact remove_all_gone w (fun e _ => hok _ _ _) h
    · rw [← hmap]
      exact (remove_all_changed w _ h).kept

end Call

/-! ## Every run -/

/-- In every run of `app_up` calls that keep track of what the app owns, from a
machine on which it owns nothing, the state file lists what it owns, and an
`app_rm` whose CLI calls succeed leaves nothing. -/
theorem no_orphans (m : Manager) (app : Bytes) {h : Host}
    (hr : Reaches (guarded (fun h c => IsUp c ∧ Tracks m h c) (step m app)) (NothingLeft app) h) :
    Listed app h ∧ ∀ w : World, (∀ i k verb, (w.cli i k verb).ok = true) → NothingLeft app (app_rm m w app h).host := by
  have hlisted : Listed app h := by
    refine hr.inv (fun h hinit => ?_) fun h c h' hk hstep => ?_
    · exact fun k c hc ho => absurd ho (hinit k c hc)
    · obtain ⟨⟨hup, htracks⟩, hstep⟩ := hstep
      exact (step_listed_iff hk hup hstep).2 htracks
  exact ⟨hlisted, fun w hok => (app_rm_nothingLeft_iff m hok h).2 hlisted⟩

/-- The shop before a service leaves its compose file. -/
theorem no_orphans_shop :
    let h := ((toyUp [db16, web] fun _ => false).run toyManager toyHost).host
    Listed (bytes "shop") h ∧ ∀ w : World, (∀ i k verb, (w.cli i k verb).ok = true) →
      NothingLeft (bytes "shop") (app_rm toyManager w (bytes "shop") h).host := by
  refine no_orphans toyManager (bytes "shop") (.step (.init (s := toyHost) ?_)
    ⟨⟨toyUp_isUp _ _, ?_⟩, rfl, by decide +kernel, rfl⟩)
  · exact fun k c hc => nomatch hc
  · intro compose_path ss hp
    obtain ⟨rfl, rfl⟩ := Prod.mk.inj (Except.ok.inj hp)
    dsimp only
    rw [if_pos (by decide +kernel)]
    refine ⟨fun _ k c hc => (nomatch hc), fun hd => absurd ?_ hd⟩
    exact ⟨by decide, by decide, by decide⟩

/-- The web container is left. -/
theorem web_orphaned : ∃ h, Reaches (guarded (fun _ c => IsUp c) (step toyManager (bytes "shop")))
      (NothingLeft (bytes "shop")) h ∧ ∃ w : World, (∀ i k verb, (w.cli i k verb).ok = true) ∧
      ¬ NothingLeft (bytes "shop") (app_rm toyManager w (bytes "shop") h).host := by
  refine ⟨((toyUp [db16] fun _ => false).run toyManager
    ((toyUp [db16, web] fun _ => false).run toyManager toyHost).host).host, ?_, toyWorld [] fun _ => false, ?_, ?_⟩
  · refine .step (.step (.init (s := toyHost) ?_) ⟨toyUp_isUp _ _, rfl, by decide +kernel, rfl⟩)
      ⟨toyUp_isUp _ _, rfl, by decide +kernel, rfl⟩
    exact fun k c hc => nomatch hc
  · intro i k verb
    simp [toyWorld, CliResult.ok]
  · intro hnone
    exact hnone (bytes "shop-web") ⟨web, bytes "shop"⟩ (by decide +kernel) rfl

end Hostely.Apps
