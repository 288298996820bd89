import Hostely.Apps.Reconcile
import Hostely.Lib.Keyed
import Hostely.Lib.Topological
/-!
# Dependencies come first

`topo_sort` succeeds exactly on known dependencies without a cycle, and then each
service comes after those it depends on. `app_up` goes through the services in that
order, `app_stop` through the saved list backwards.
-/

open Hostely.Lib Hostely.Services Relation

namespace Hostely.Apps

section
variable (services : List ComposeService)

/-- The graph of the services, on their names. -/
def DependsOn (a b : Bytes) : Prop := ∃ s ∈ services, s.name = a ∧ b ∈ s.depends_on

/-- Every dependency names a service of the list. -/
def Known : Prop := ∀ s ∈ services, ∀ dep ∈ s.depends_on, dep ∈ services.map ComposeService.name

def Acyclic : Prop := ∀ a, ¬ TransGen (DependsOn services) a a

end

variable {services : List ComposeService}

theorem by_name_some {dep : Bytes} {d : ComposeService} (h : by_name services dep = some d) : d ∈ services ∧ d.name = dep :=
  ⟨by simpa using List.mem_of_find?_eq_some h, by simpa using List.find?_some h⟩

theorem by_name_none {dep : Bytes} (h : by_name services dep = none) : dep ∉ services.map ComposeService.name := by
  simpa [by_name, List.find?_eq_none] using h

/-! ## A call that succeeds -/

theorem visit_done {fuel : Nat} {s : ComposeService} {t t' : Topo} (h : visit services fuel s t = .ok t') :
    t'.state s.name = .done := by
  rcases visit_cases h with ⟨hdone, rfl⟩ | ⟨_, _, _, _, _, rfl⟩
  · exact hdone
  · exact Function.update_self ..

/-- `visit` leaves nothing visiting that was not. -/
theorem visit_visiting {fuel : Nat} {s : ComposeService} {t t' : Topo} (h : visit services fuel s t = .ok t') (n : Bytes) :
    t'.state n = .visiting ↔ t.state n = .visiting := by
  induction fuel generalizing s t t' with
  | zero => cases h
  | succ f ih =>
    rcases visit_cases h with ⟨-, rfl⟩ | ⟨g, u, hg, hnew, hu, rfl⟩
    · exact Iff.rfl
    · obtain rfl := Nat.succ.inj hg
      have hchildren : u.state n = .visiting ↔ (t.paint s.name .visiting).state n = .visiting := by
        refine foldlM_inv (fun v : Topo => v.state n = .visiting ↔ (t.paint s.name .visiting).state n = .visiting) Iff.rfl ?_ hu
        intro v dep _ v' hv hstep
        obtain ⟨d, -, hd⟩ := visit_dep_ok hstep
        exact (ih hd).trans hv
      by_cases hn : n = s.name
      · subst hn
        simp [Topo.paint, hnew]
      · simpa [Topo.paint, Function.update_of_ne hn] using hchildren

/-- The services put out are those done, each after what it depends on. -/
structure Topo.Ordered (services : List ComposeService) (t : Topo) : Prop where
  out_iff : ∀ n, t.state n = .done ↔ n ∈ t.out.map ComposeService.name
  sub : ∀ s ∈ t.out, s ∈ services
  topological : Topological (DependsOn services) (t.out.map ComposeService.name)

theorem Topo.Ordered.visiting {t : Topo} (ht : t.Ordered services) {n : Bytes} (hn : t.state n = .new) :
    (t.paint n .visiting).Ordered services := by
  refine ⟨fun x => ?_, ht.sub, ht.topological⟩
  by_cases hx : x = n
  · subst hx
    have hnot : x ∉ t.out.map ComposeService.name := fun hm => by
      rw [(ht.out_iff x).2 hm] at hn
      cases hn
    simp only [paint, Function.update_self]
    exact iff_of_false (by decide) hnot
  · simp only [paint, Function.update_of_ne hx]
    exact ht.out_iff x

section
variable (hnodup : (services.map ComposeService.name).Nodup)
include hnodup

/-- A service comes out when all that it depends on is done. -/
theorem Topo.Ordered.finish {u : Topo} (hu : u.Ordered services) {s : ComposeService} (hs : s ∈ services)
    (hdeps : ∀ dep ∈ s.depends_on, u.state dep = .done) :
    ({ u.paint s.name .done with out := u.out ++ [s] } : Topo).Ordered services := by
  constructor
  · intro n
    simp only [paint, List.map_append, List.map_cons, List.map_nil, List.mem_append, List.mem_singleton]
    by_cases hn : n = s.name
    · simp [hn]
    · simp [hn, hu.out_iff n]
  · intro x hx
    rcases List.mem_append.1 hx with hx | hx
    · exact hu.sub x hx
    · obtain rfl := List.mem_singleton.1 hx
      exact hs
  · rw [List.map_append]
    refine hu.topological.concat ?_
    rintro y ⟨x, hx, hname, hy⟩
    obtain rfl := key_unique ComposeService.name hnodup hx hs hname
    exact (hu.out_iff y).1 (hdeps y hy)

theorem visit_ordered {fuel : Nat} {s : ComposeService} {t t' : Topo} (hs : s ∈ services)
    (h : visit services fuel s t = .ok t') (ht : t.Ordered services) : t'.Ordered services := by
  induction fuel generalizing s t t' with
  | zero => cases h
  | succ f ih =>
    rcases visit_cases h with ⟨-, rfl⟩ | ⟨g, u, hg, hnew, hu, rfl⟩
    · exact ht
    · obtain rfl := Nat.succ.inj hg
      have hordered : u.Ordered services := by
        refine foldlM_inv (Topo.Ordered services) (ht.visiting hnew) ?_ hu
        intro v dep _ v' hv hstep
        obtain ⟨d, hd, hvisit⟩ := visit_dep_ok hstep
        exact ih (by_name_some hd).1 hvisit hv
      -- a child is done after its own round, and no later round changes that
      refine hordered.finish hnodup hs ?_
      refine foldlM_rounds (fun dep v => v.state dep = .done) ?_ ?_ hu
      · intro v dep _ v' hstep
        obtain ⟨d, hd, hvisit⟩ := visit_dep_ok hstep
        rw [← (by_name_some hd).2]
        exact visit_done hvisit
      · intro v x v' dep hstep hv
        obtain ⟨d, -, hvisit⟩ := visit_dep_ok hstep
        rw [visit_keeps hvisit dep (by rw [hv]; decide), hv]

end

/-! ## A call that fails -/

/-- What is visiting above a call depends on its service, so without a cycle the
call never meets its own name. -/
theorem visit_ne_error (hknown : Known services) (hacyclic : Acyclic services) {e : TopoError} (he : e ≠ .fuel) {fuel : Nat}
    {s : ComposeService} {t : Topo} (hs : s ∈ services)
    (habove : ∀ n, t.state n = .visiting → TransGen (DependsOn services) n s.name) : visit services fuel s t ≠ .error e := by
  induction fuel generalizing s t with
  | zero => exact fun h => he (Except.error.inj h).symm
  | succ f ih =>
    unfold visit
    cases hcolor : t.state s.name with
    | done => exact fun h => by cases h
    | visiting => exact absurd (habove s.name hcolor) (hacyclic s.name)
    | new =>
      intro h
      rcases bind_eq_error h with h | ⟨u, _, hu⟩
      · refine foldlM_ne_error (fun v : Topo => ∀ n, v.state n = .visiting ↔ (t.paint s.name .visiting).state n = .visiting)
          (fun _ => Iff.rfl) ?_ ?_ h
        · intro v dep _ v' hv hstep n
          obtain ⟨d, -, hvisit⟩ := visit_dep_ok hstep
          exact (visit_visiting hvisit n).trans (hv n)
        · intro v dep hdep hv hstep
          unfold visit_dep at hstep
          cases hd : by_name services dep with
          | none => exact by_name_none hd (hknown s hs dep hdep)
          | some d =>
            rw [hd] at hstep
            obtain ⟨hmem, hname⟩ := by_name_some hd
            have hedge : DependsOn services s.name d.name := ⟨s, hs, rfl, by rw [hname]; exact hdep⟩
            refine ih hmem (fun n hn => ?_) hstep
            rw [hv n] at hn
            by_cases hns : n = s.name
            · rw [hns]
              exact .single hedge
            · simp only [Topo.paint, Function.update_of_ne hns] at hn
              exact (habove n hn).tail hedge
      · cases hu

/-! ## topo_sort -/

section
variable (hnodup : (services.map ComposeService.name).Nodup)
include hnodup

theorem topo_sort_ordered {out : List ComposeService} (h : topo_sort services = .ok out) :
    out.Perm services ∧ Topological (DependsOn services) (out.map ComposeService.name) := by
  have hdistinct := topo_sort_distinct h
  obtain ⟨t, ht, hout⟩ := bind_eq_ok h
  obtain rfl := Except.ok.inj hout
  have hinit : Topo.Ordered services ⟨fun _ => .new, []⟩ :=
    ⟨fun _ => by simp, fun _ hx => absurd hx List.not_mem_nil, .nil⟩
  have hordered : t.Ordered services :=
    foldlM_inv (Topo.Ordered services) hinit (fun v s hs v' hv hstep => visit_ordered hnodup hs hstep hv) ht
  -- every service is done at the end, so every service is out
  have hall : ∀ s ∈ services, t.state s.name = .done :=
    foldlM_rounds (fun s v => v.state s.name = .done) (fun v s _ v' hstep => visit_done hstep)
      (fun v x v' s hstep hv => by rw [visit_keeps hstep s.name (by rw [hv]; decide), hv]) ht
  refine ⟨?_, hordered.topological⟩
  rw [List.perm_ext_iff_of_nodup hdistinct.of_map hnodup.of_map]
  intro s
  refine ⟨hordered.sub s, fun hs => ?_⟩
  obtain ⟨x, hx, hname⟩ := List.mem_map.1 ((hordered.out_iff s.name).1 (hall s hs))
  exact key_unique ComposeService.name hnodup (hordered.sub x hx) hs hname ▸ hx

theorem topo_sort_ok_iff : (∃ out, topo_sort services = .ok out) ↔ Known services ∧ Acyclic services := by
  constructor
  · rintro ⟨out, h⟩
    obtain ⟨hperm, htopo⟩ := topo_sort_ordered hnodup h
    have hout : (out.map ComposeService.name).Perm (services.map ComposeService.name) := hperm.map _
    constructor
    · intro s hs dep hdep
      obtain ⟨pre, post, hsplit⟩ := List.append_of_mem (hout.mem_iff.2 (List.mem_map_of_mem hs))
      have hbefore := htopo pre s.name post hsplit dep ⟨s, hs, rfl, hdep⟩
      exact hout.mem_iff.1 (hsplit ▸ List.mem_append_left _ hbefore)
    · intro a hcycle
      -- a name on a cycle depends on something, so it is the name of a service
      obtain ⟨b, ⟨s, hs, rfl, -⟩, -⟩ := TransGen.head'_iff.1 hcycle
      exact htopo.acyclic (topo_sort_distinct h) (hout.mem_iff.2 (List.mem_map_of_mem hs)) hcycle
  · rintro ⟨hknown, hacyclic⟩
    cases h : topo_sort services with
    | ok out => exact ⟨out, rfl⟩
    | error e =>
      have he : e ≠ .fuel := by
        rintro rfl
        exact topo_sort_ne_fuel services h
      rcases bind_eq_error h with h | ⟨t, -, ht⟩
      · refine absurd h (foldlM_ne_error (fun v : Topo => ∀ n, v.state n ≠ .visiting) (fun _ => nofun) ?_ ?_)
        · intro v s _ v' hv hstep n hn
          exact hv n ((visit_visiting hstep n).1 hn)
        · intro v s hs hv
          exact visit_ne_error hknown hacyclic he hs fun n hn => absurd hn (hv n)
      · cases ht

end

end Hostely.Apps
