import Hostely.Apps.Reconcile
import Hostely.Lib.FirstFit
import Mathlib.Data.List.Perm.Basic
/-!
# Host ports

`app_up` picks a host port for every port of every service by first fit, and
remembers in `claimed_ports` what it picked. A service that is left alone then gets
the ports of the old state instead, which nobody claimed.
-/

open Hostely.Lib Hostely.Services

namespace Hostely.Apps

/-- Host ports as numbers. -/
def host_ports (ports : List (Bytes × Bytes)) : List Int := ports.map fun p => atoi p.1

def saved_ports (services : List AppServiceState) : List Int := services.flatMap fun s => host_ports s.ports

/-- The saved state has no host port twice, and each is one. -/
def PortsApart (h : Host) (app : Bytes) : Prop :=
  ∃ st, load_state h app = some st ∧ (saved_ports st.services).Nodup ∧ ∀ p ∈ saved_ports st.services, 1 ≤ p ∧ p ≤ 65535

/-- What the ports of a service from position `k` on ask for. -/
def port_requests (in_use : Nat → Int → Bool) : Nat → List (Bytes × Bytes) → List (Request Int)
  | _, [] => []
  | k, port :: rest =>
    if atoi port.1 ≤ 0 then port_requests in_use (k + 1) rest
    else ⟨{p | in_use k p = true}, atoi port.1⟩ :: port_requests in_use (k + 1) rest

/-- The requests of the services from position `i` on. -/
def call_requests (w : World) : Nat → List ComposeService → List (List (Request Int))
  | _, [] => []
  | i, s :: rest => port_requests (w.port_in_use i) 0 s.ports :: call_requests w (i + 1) rest

section
variable (m : Manager) (w : World) (app : Bytes) (old : List AppServiceState)

/-- The service at position `i` is left alone. -/
def keeps (i : Nat) (s : ComposeService) : Bool :=
  match config_fingerprint s with
  | none => false
  | some fingerprint => !recreates m w app old i s fingerprint

/-- The recorded ports of the services that are left alone. -/
def kept_ports : Nat → List ComposeService → List Int
  | _, [] => []
  | i, s :: rest =>
    (if keeps m w app old i s then host_ports (recorded_ports s.name old []) else []) ++ kept_ports (i + 1) rest

/-- Of what each service is given, the part of those that are recreated. -/
def new_ports : Nat → List ComposeService → List (List Int) → List Int
  | i, s :: rest, given :: more => (if keeps m w app old i s then [] else given) ++ new_ports (i + 1) rest more
  | _, _, _ => []

/-- Every recreated service from position `i` on asks for positive ports. -/
def asks_positive : Nat → List ComposeService → Bool
  | _, [] => true
  | i, s :: rest => (keeps m w app old i s || s.ports.all fun p => 0 < atoi p.1) && asks_positive (i + 1) rest

/-- The recorded ports of the services left alone are ports, are apart from each other
and from the first free ports that the recreated services are given. -/
structure PortsFit (ss : List ComposeService) (given : List (List Int)) : Prop where
  positive : asks_positive m w app old 0 ss = true
  low : ∀ p ∈ new_ports m w app old 0 ss given, p ≤ 65535
  recorded : ∀ p ∈ kept_ports m w app old 0 ss, 1 ≤ p ∧ p ≤ 65535
  distinct : (kept_ports m w app old 0 ss).Nodup
  apart : ∀ p ∈ kept_ports m w app old 0 ss, p ∉ new_ports m w app old 0 ss given

end

/-! ## The ports of one service -/

section Pick
variable {taken : Int → Bool} {in_use : Int → Bool} {claimed : List Int}

theorem next_free_least {room : Nat} {actual p : Int} (h : next_free taken room actual = some p) :
    actual ≤ p ∧ p < actual + room ∧ taken p = false ∧ ∀ q, actual ≤ q → q < p → taken q = true := by
  induction room generalizing actual with
  | zero => cases h
  | succ room ih =>
    unfold next_free at h
    split at h
    · rename_i ht
      obtain ⟨hle, hlt, hp, hall⟩ := ih h
      refine ⟨by omega, by omega, hp, fun q hq hqp => ?_⟩
      by_cases heq : q = actual
      · exact heq ▸ ht
      · exact hall q (by omega) hqp
    · rename_i ht
      obtain rfl := Option.some.inj h
      exact ⟨le_rfl, by omega, by simpa using ht, fun q hq hqp => absurd hqp (not_lt.2 hq)⟩

/-- A port is picked by first fit. -/
theorem pick_port_least {wanted p : Int} (hw : wanted ≤ INT_MAX) (h : pick_port in_use claimed wanted = some p) :
    p ≤ INT_MAX ∧ IsLeast (Request.free ⟨{q | in_use q = true}, wanted⟩ {q | q ∈ claimed}) p := by
  have hfree (q : Int) : q ∈ Request.free ⟨{q | in_use q = true}, wanted⟩ {q | q ∈ claimed} ↔
      wanted ≤ q ∧ (in_use q || claimed.contains q) = false := by
    simp [Request.free, Bool.or_eq_false_iff]
  unfold pick_port at h
  dsimp only at h
  split at h
  · rename_i ht
    obtain ⟨hle, hlt, hp, hall⟩ := next_free_least h
    refine ⟨by omega, (hfree p).2 ⟨by omega, hp⟩, fun q hq => ?_⟩
    obtain ⟨hwq, hq⟩ := (hfree q).1 hq
    by_contra hlow
    by_cases heq : q = wanted
    · rw [heq, ht] at hq
      cases hq
    · rw [hall q (by omega) (by omega)] at hq
      cases hq
  · rename_i ht
    obtain rfl := Option.some.inj h
    exact ⟨hw, (hfree wanted).2 ⟨le_rfl, by simpa using ht⟩, fun q hq => ((hfree q).1 hq).1⟩

/-- What is recorded for the ports of a service, given these. -/
structure Gets (ports out : List (Bytes × Bytes)) (given : List Int) : Prop where
  positive : (ports.all fun p => 0 < atoi p.1) = true → host_ports out = given
  other : (ports.all fun p => 0 < atoi p.1) = false → ∃ p ∈ host_ports out, p ≤ 0

theorem add_ports_fit {in_use : Nat → Int → Bool} {ports : List (Bytes × Bytes)} {acc acc' : List (Bytes × Bytes) × List Int}
    (h : ports.foldlM (add_port in_use) acc = some acc') :
    ∃ out given, acc'.1 = acc.1 ++ out ∧ FirstFits {p | p ∈ acc.2} (port_requests in_use acc.1.length ports) given ∧
      {p | p ∈ acc'.2} = {p | p ∈ acc.2} ∪ {p | p ∈ given} ∧ Gets ports out given := by
  induction ports generalizing acc with
  | nil =>
    obtain rfl := Option.some.inj h
    exact ⟨[], [], by simp, .nil, by simp, fun _ => rfl, nofun⟩
  | cons port ports ih =>
    obtain ⟨mid, hadd, hrest⟩ := Option.bind_eq_some_iff.1 h
    obtain ⟨out, given, hout, hfits, hclaimed, hgets⟩ := ih hrest
    unfold add_port at hadd
    dsimp only at hadd
    split at hadd
    · rename_i hwanted
      obtain rfl := Option.some.inj hadd
      refine ⟨port :: out, given, by simpa using hout, ?_, hclaimed, ?_⟩
      · rw [port_requests, if_pos hwanted]
        simpa using hfits
      · refine ⟨fun hall => ?_, fun _ => ⟨atoi port.1, List.mem_cons_self, hwanted⟩⟩
        simp only [List.all_cons, Bool.and_eq_true, decide_eq_true_eq] at hall
        omega
    · rename_i hwanted
      obtain ⟨p, hp, hadd⟩ := Option.bind_eq_some_iff.1 hadd
      obtain rfl := Option.some.inj hadd
      obtain ⟨hmax, hleast⟩ := pick_port_least (atoi_le port.1) hp
      have hnum : atoi (to_string p) = p := by
        have hlow := hleast.1.1
        dsimp only at hlow
        exact atoi_to_string (by omega) hmax
      have hset : {q | q ∈ p :: acc.2} = insert p {q | q ∈ acc.2} := by
        ext q
        simp
      refine ⟨(to_string p, port.2) :: out, p :: given, by simpa using hout, ?_, ?_, ?_⟩
      · rw [port_requests, if_neg hwanted]
        refine .cons hleast ?_
        rw [← hset]
        simpa using hfits
      · rw [hclaimed]
        ext q
        simp only [Set.mem_union, Set.mem_ofPred_eq, List.mem_cons]
        tauto
      · have hpos : decide (0 < atoi port.1) = true := by simpa using hwanted
        refine ⟨fun hall => ?_, fun hall => ?_⟩
        · rw [List.all_cons, hpos, Bool.true_and] at hall
          rw [host_ports, List.map_cons, hnum]
          exact congrArg (p :: ·) (hgets.positive hall)
        · rw [List.all_cons, hpos, Bool.true_and] at hall
          obtain ⟨q, hq, hle⟩ := hgets.other hall
          exact ⟨q, List.mem_cons_of_mem _ hq, hle⟩

theorem pick_ports_fit {in_use : Nat → Int → Bool} {ports out : List (Bytes × Bytes)} {claimed' : List Int}
    (h : pick_ports in_use claimed ports = some (out, claimed')) :
    ∃ given, FirstFits {p | p ∈ claimed} (port_requests in_use 0 ports) given ∧
      {p | p ∈ claimed'} = {p | p ∈ claimed} ∪ {p | p ∈ given} ∧ Gets ports out given := by
  obtain ⟨_, given, hout, hfits, hclaimed, hgets⟩ := add_ports_fit h
  obtain rfl := hout
  exact ⟨given, hfits, hclaimed, hgets⟩

end Pick

/-! ## The loop -/

section Loop
variable {m : Manager} {w : World} {app : Bytes}

/-- What a round records for its service. -/
structure Given (m : Manager) (w : World) (app : Bytes) (old : List AppServiceState) (i : Nat) (s : ComposeService)
    (given : List Int) (st : AppServiceState) : Prop where
  kept : keeps m w app old i s = true → st.ports = recorded_ports s.name old []
  fresh : keeps m w app old i s = false → Gets s.ports st.ports given

theorem finish_service_same (s : ComposeService) (fingerprint : Bytes) (needs_run : Bool) (ports : List (Bytes × Bytes))
    (u : Up) (h : (finish_service m w app s fingerprint needs_run ports u).2 = none) :
    (finish_service m w app s fingerprint needs_run ports u).1.claimed_ports = u.claimed_ports ∧
      (finish_service m w app s fingerprint needs_run ports u).1.services =
        u.services ++ [⟨s.name, container_name app s.name, s.image, fingerprint, ports⟩] := by
  unfold finish_service at h ⊢
  cases needs_run with
  | false => exact ⟨rfl, rfl⟩
  | true =>
    rw [if_pos rfl] at h ⊢
    cases hr : m.run (w.cli u.services.length 0 .run) (run_options app s ports) with
    | mk commands r =>
      cases r with
      | ok id => exact ⟨rfl, rfl⟩
      | error e =>
        rw [hr] at h
        cases h

/-- A round that goes on picks by first fit, also for a service that is left alone. -/
theorem up_service_given (s : ComposeService) (u : Up) (h : (up_service m w app s u).2 = none) :
    ∃ given st, FirstFits {p | p ∈ u.claimed_ports} (port_requests (w.port_in_use u.services.length) 0 s.ports) given ∧
      {p | p ∈ (up_service m w app s u).1.claimed_ports} = {p | p ∈ u.claimed_ports} ∪ {p | p ∈ given} ∧
      (up_service m w app s u).1.services = u.services ++ [st] ∧
      Given m w app (old_services u.host app) u.services.length s given st := by
  have hattempt := @up_service_attempt m w app s u
  generalize up_service m w app s u = r at h hattempt ⊢
  cases hattempt with
  | thrown hf => cases h
  | endless hf hr => cases h
  | @kept fingerprint started ports claimed_ports hf hr hp =>
    have hkeeps : keeps m w app (old_services u.host app) u.services.length s = true := by
      simp [keeps, hf, recreates, hr]
    obtain ⟨given, hfits, hclaimed, -⟩ := pick_ports_fit hp
    exact ⟨given, _, hfits, hclaimed, rfl, fun _ => rfl, fun hk => absurd (hk.symm.trans hkeeps) Bool.false_ne_true⟩
  | @run fingerprint started ports claimed_ports hf hr hp =>
    have hkeeps : keeps m w app (old_services u.host app) u.services.length s = false := by
      simp [keeps, hf, recreates, hr]
    obtain ⟨given, hfits, hclaimed, hgets⟩ := pick_ports_fit hp
    obtain ⟨hc, hs⟩ := finish_service_same s fingerprint true ports _ h
    rw [hc, hs]
    exact ⟨given, _, hfits, hclaimed, rfl, fun hk => absurd (hkeeps.symm.trans hk) Bool.false_ne_true, fun _ => hgets⟩

theorem up_service_old (s : ComposeService) (u : Up) (h : (up_service m w app s u).2 = none) :
    old_services (up_service m w app s u).1.host app = old_services u.host app := by
  have hround := @up_service_round m w app s u (by simp [h])
  rw [h] at hround
  generalize (up_service m w app s u).1 = u' at hround ⊢
  cases hround with
  | kept _ _ hhost _ _ => rw [hhost]
  | launched _ _ _ hhost _ _ =>
    rw [hhost]
    exact old_services_congr app (by simp [Host.launch]) (by simp [Host.launch])

variable (m w app) in
/-- What the rounds from position `i` on record. -/
inductive AllGiven (old : List AppServiceState) :
    Nat → List ComposeService → List (List Int) → List AppServiceState → Prop
  | nil {i : Nat} : AllGiven old i [] [] []
  | cons {i : Nat} {s : ComposeService} {rest : List ComposeService} {given : List Int} {more : List (List Int)}
    {st : AppServiceState} {news : List AppServiceState} :
    Given m w app old i s given st → AllGiven old (i + 1) rest more news →
      AllGiven old i (s :: rest) (given :: more) (st :: news)

theorem up_services_given {ss : List ComposeService} (u : Up) (h : (up_services m w app ss u).2 = none) :
    ∃ given news, FirstFitsEach {p | p ∈ u.claimed_ports} (call_requests w u.services.length ss) given ∧
      (up_services m w app ss u).1.services = u.services ++ news ∧
      AllGiven m w app (old_services u.host app) u.services.length ss given news := by
  induction ss generalizing u with
  | nil => exact ⟨[], [], .nil, (List.append_nil _).symm, .nil⟩
  | cons s rest ih =>
    have hspec := @up_service_given m w app s u
    have hold := @up_service_old m w app s u
    unfold up_services at h ⊢
    cases hround : up_service m w app s u with
    | mk u₁ halt =>
      cases halt with
      | some halt => simp [hround] at h
      | none =>
        rw [hround] at hspec hold
        dsimp only at hspec hold
        simp only [hround] at h ⊢
        obtain ⟨given, st, hfits, hclaimed, hservices, hgiven⟩ := hspec rfl
        obtain ⟨more, news, hmore, hnews, hall⟩ := ih u₁ h
        have hlen : u₁.services.length = u.services.length + 1 := by simp [hservices]
        rw [hold rfl, hlen] at hall
        rw [hclaimed, hlen] at hmore
        refine ⟨given :: more, st :: news, .cons hfits hmore, ?_, .cons hgiven hall⟩
        rw [hnews, hservices, List.append_assoc, List.singleton_append]

/-! ## What is recorded -/

section
variable {old : List AppServiceState} {i : Nat} {ss : List ComposeService} {given : List (List Int)}
  {news : List AppServiceState}

theorem new_ports_sublist (i : Nat) (ss : List ComposeService) (given : List (List Int)) :
    (new_ports m w app old i ss given).Sublist given.flatten := by
  induction ss generalizing i given with
  | nil => exact List.nil_sublist _
  | cons s rest ih =>
    cases given with
    | nil => exact List.nil_sublist _
    | cons g more =>
      rw [new_ports, List.flatten_cons]
      refine .append ?_ (ih _ _)
      split
      · exact List.nil_sublist _
      · exact List.Sublist.refl g

/-- The saved ports are those kept and those picked, when the wanted ones are positive. -/
theorem saved_perm (h : AllGiven m w app old i ss given news) (hpos : asks_positive m w app old i ss = true) :
    (saved_ports news).Perm (kept_ports m w app old i ss ++ new_ports m w app old i ss given) := by
  induction h with
  | nil => exact .refl _
  | @cons i s rest g more st news hst _ ih =>
    rw [asks_positive, Bool.and_eq_true] at hpos
    have hrest := ih hpos.2
    rw [saved_ports, List.flatMap_cons, kept_ports, new_ports]
    cases hk : keeps m w app old i s with
    | true =>
      rw [hst.kept hk, if_pos rfl, if_pos rfl, List.nil_append, List.append_assoc]
      exact hrest.append_left _
    | false =>
      rw [hk, Bool.false_or] at hpos
      rw [(hst.fresh hk).positive hpos.1, if_neg Bool.false_ne_true, if_neg Bool.false_ne_true, List.nil_append]
      refine (hrest.append_left g).trans ?_
      rw [← List.append_assoc, ← List.append_assoc]
      exact (List.perm_append_comm).append_right _

theorem saved_nonpositive (h : AllGiven m w app old i ss given news) (hpos : asks_positive m w app old i ss = false) :
    ∃ p ∈ saved_ports news, p ≤ 0 := by
  induction h with
  | nil => cases hpos
  | @cons i s rest g more st news hst _ ih =>
    rw [saved_ports, List.flatMap_cons]
    rw [asks_positive, Bool.and_eq_false_iff] at hpos
    rcases hpos with hpos | hpos
    · obtain ⟨hk, hall⟩ := Bool.or_eq_false_iff.1 hpos
      obtain ⟨p, hp, hle⟩ := (hst.fresh hk).other hall
      exact ⟨p, List.mem_append_left _ hp, hle⟩
    · obtain ⟨p, hp, hle⟩ := ih hpos
      exact ⟨p, List.mem_append_right _ hp, hle⟩

theorem requests_positive (in_use : Nat → Int → Bool) (k : Nat) (ports : List (Bytes × Bytes)) :
    ∀ r ∈ port_requests in_use k ports, 0 < r.wanted := by
  induction ports generalizing k with
  | nil => exact fun _ hr => absurd hr List.not_mem_nil
  | cons port rest ih =>
    rw [port_requests]
    split
    · exact ih _
    · rename_i hw
      exact List.forall_mem_cons.2 ⟨not_le.1 hw, ih _⟩

theorem call_requests_positive (w : World) (i : Nat) (ss : List ComposeService) :
    ∀ r ∈ (call_requests w i ss).flatten, 0 < r.wanted := by
  induction ss generalizing i with
  | nil => exact fun _ hr => absurd hr List.not_mem_nil
  | cons s rest ih =>
    rw [call_requests, List.flatten_cons, List.forall_mem_append]
    exact ⟨requests_positive _ _ _, ih _⟩

theorem saved_apart_iff {old : List AppServiceState} {ss : List ComposeService} {given : List (List Int)}
    {news : List AppServiceState} (hfits : FirstFitsEach ∅ (call_requests w 0 ss) given)
    (h : AllGiven m w app old 0 ss given news) :
    ((saved_ports news).Nodup ∧ ∀ p ∈ saved_ports news, 1 ≤ p ∧ p ≤ 65535) ↔ PortsFit m w app old ss given := by
  cases hpos : asks_positive m w app old 0 ss with
  | false =>
    refine iff_of_false (fun hs => ?_) fun hfit => absurd (hpos.symm.trans hfit.positive) Bool.false_ne_true
    obtain ⟨p, hp, hle⟩ := saved_nonpositive h hpos
    have hlow := (hs.2 p hp).1
    omega
  | true =>
    have hperm := saved_perm h hpos
    -- first fit keeps the picked ports apart, and they are not below the wanted ones
    have hsub : (new_ports m w app old 0 ss given).Sublist given.flatten := new_ports_sublist 0 ss given
    have hnew : (new_ports m w app old 0 ss given).Nodup := hsub.nodup hfits.nodup
    have hlow : ∀ p ∈ new_ports m w app old 0 ss given, 1 ≤ p := fun p hp => by
      obtain ⟨r, hr, hle⟩ := hfits.wanted_le p (hsub.subset hp)
      have hr := call_requests_positive w 0 ss r hr
      omega
    rw [hperm.nodup_iff, List.nodup_append']
    simp only [hperm.mem_iff, List.forall_mem_append]
    constructor
    · rintro ⟨⟨hkept, _, hapart⟩, hrange, hmax⟩
      exact ⟨hpos, fun p hp => (hmax p hp).2, hrange, hkept, fun p hp => hapart hp⟩
    · intro hfit
      exact ⟨⟨hfit.distinct, hnew, fun p hp => hfit.apart p hp⟩, hfit.recorded, fun p hp => ⟨hlow p hp, hfit.low p hp⟩⟩

end

end Loop

/-! ## A whole call -/

/-- The ports that a successful call saves are apart, and ports, exactly when the
services it recreates ask for positive ports and get low ones, and the ports recorded
for the others are ports and are apart from each other and from those. -/
theorem ports_apart_iff {m : Manager} {w : World} {dir compose_path : Bytes} {name_override : Option Bytes}
    {extra_env : List (Bytes × Bytes)} {ss : List ComposeService} {h : Host}
    (hp : prepare w dir extra_env = .ok (compose_path, ss))
    (hok : (app_up m w dir name_override extra_env h).halt = none) :
    PortsApart (app_up m w dir name_override extra_env h).host (app_name dir name_override) ↔
      ∃ given, FirstFitsEach ∅ (call_requests w 0 ss) given ∧
        PortsFit m w (app_name dir name_override) (old_services h (app_name dir name_override)) ss given := by
  have hspec := @up_services_given m w (app_name dir name_override) ss ⟨h, [], [], []⟩
  have hcalled := @app_up_called m w h dir name_override extra_env
  generalize app_up m w dir name_override extra_env h = e at hok hcalled ⊢
  cases hcalled with
  | unprepared hp' => cases hok
  | halted hp' hu => cases hok
  | unopened hp' hu hopen => cases hok
  | emptied hp' hu hopen hd => cases hok
  | @saved compose_path' ss' u hp' hu hopen hd =>
    obtain ⟨rfl, rfl⟩ := Prod.mk.inj (Except.ok.inj (hp'.symm.trans hp))
    rw [hu] at hspec
    obtain ⟨given, news, hfits, hservices, hgiven⟩ := hspec rfl
    have hnone : {p : Int | p ∈ ([] : List Int)} = ∅ := by simp
    rw [hnone] at hfits
    rw [List.nil_append] at hservices
    have hload : load_state (u.host.write (app_state_file u.host.state_dir (app_name dir name_override))
        (some (some ⟨state_json ⟨app_name dir name_override, compose_path', u.services⟩, hd⟩)))
        (app_name dir name_override) = some ⟨app_name dir name_override, compose_path', u.services⟩ :=
      load_saved (Host.write_self ..)
    have hiff := saved_apart_iff hfits hgiven
    rw [← hservices] at hiff
    constructor
    · rintro ⟨st, hst, hapart⟩
      obtain rfl := Option.some.inj (hload.symm.trans hst)
      exact ⟨given, hfits, hiff.1 hapart⟩
    · rintro ⟨given', hfits', hfit⟩
      obtain rfl := hfits.unique hfits'
      exact ⟨_, hload, hiff.2 hfit⟩

/-! ## Two services that want the same port -/

def portService (name : String) : ComposeService :=
  { toyService name "nginx" with ports := [(bytes "8080", bytes "80")] }

/-- No port is in use. The container of the web service is listed, as a stopped one. -/
def portWorld (services : List ComposeService) : World :=
  { toyWorld services fun _ => false with
    cli _ _ verb := ⟨0, if verb = .ls_a then bytes "NAMES\nshop-web\n" else [], []⟩ }

def portUp (services : List ComposeService) (h : Host) : Ended :=
  app_up toyManager (portWorld services) (bytes "shop") none [] h

/-- Both are new: the second gets the next port. -/
theorem ports_apart_new :
    PortsApart (portUp [portService "api", portService "web"] toyHost).host (bytes "shop") ↔
      ∃ given, FirstFitsEach ∅ (call_requests (portWorld [portService "api", portService "web"]) 0
          [portService "api", portService "web"]) given ∧
        PortsFit toyManager (portWorld [portService "api", portService "web"]) (bytes "shop")
          (old_services toyHost (bytes "shop")) [portService "api", portService "web"] given :=
  ports_apart_iff rfl (by decide +kernel)

/-- The web service is up on 8080 and stopped, and the api service is new: it gets 8080,
and so does the web service when it is started again. -/
theorem recorded_port_collides :
    (portUp [portService "api", portService "web"] (portUp [portService "web"] toyHost).host).halt = none ∧
      ¬ PortsApart (portUp [portService "api", portService "web"] (portUp [portService "web"] toyHost).host).host
        (bytes "shop") := by
  refine ⟨by decide +kernel, ?_⟩
  rintro ⟨st, hst, hnodup, -⟩
  have hsaved : (load_state (portUp [portService "api", portService "web"] (portUp [portService "web"] toyHost).host).host
      (bytes "shop")).map (fun st => saved_ports st.services) = some [8080, 8080] := by decide +kernel
  rw [hst] at hsaved
  have hports : saved_ports st.services = [8080, 8080] := Option.some.inj hsaved
  rw [hports] at hnodup
  exact absurd hnodup (by decide)

end Hostely.Apps
