import Hostely.Lib.Fallible
import Hostely.Lib.Text
import Mathlib.Data.List.Nodup
/-!
# Compose services and their order

A compose service as the reader of the compose file leaves it, and `topo_sort`:
depth first over `depends_on`, with three colours per service name.
-/

open Hostely.Lib

namespace Hostely.Apps

structure ComposeService where
  name : Bytes
  image : Bytes
  ports : List (Bytes × Bytes)
  env : List (Bytes × Bytes)
  volumes : List (Bytes × Bytes)
  command : List Bytes
  depends_on : List Bytes
  dns : List Bytes
  mem_limit : Bytes
deriving DecidableEq, Repr

/-! ## topo_sort -/

inductive Color where
  | new | visiting | done
deriving DecidableEq, Repr

/-- The variables the recursive lambda captures. -/
structure Topo where
  state : Bytes → Color
  out : List ComposeService

def Topo.paint (t : Topo) (name : Bytes) (c : Color) : Topo := { t with state := Function.update t.state name c }

inductive TopoError where
  | cycle (name : Bytes)
  | unknown (name dep : Bytes)
  /-- The fuel of the recursion ran out, which never happens. -/
  | fuel
deriving DecidableEq, Repr

def TopoError.message : TopoError → Bytes
  | cycle name => bytes "dependency cycle involving '" ++ name ++ bytes "'"
  | unknown name dep => bytes "service '" ++ name ++ bytes "' depends on unknown service '" ++ dep ++ bytes "'"
  | fuel => []

/-- In a map built by assignment the last of two services of one name stays. -/
def by_name (services : List ComposeService) (dep : Bytes) : Option ComposeService :=
  services.reverse.find? (·.name = dep)

def visit_dep (services : List ComposeService) (visit : ComposeService → Topo → Except TopoError Topo)
    (s : ComposeService) (t : Topo) (dep : Bytes) : Except TopoError Topo :=
  match by_name services dep with
  | none => .error (.unknown s.name dep)
  | some d => visit d t

def visit (services : List ComposeService) : Nat → ComposeService → Topo → Except TopoError Topo
  | 0, _, _ => .error .fuel
  | fuel + 1, s, t =>
    match t.state s.name with
    | .done => .ok t
    | .visiting => .error (.cycle s.name)
    | .new => do
      let t ← s.depends_on.foldlM (visit_dep services (visit services fuel) s) (t.paint s.name .visiting)
      let t := t.paint s.name .done
      return { t with out := t.out ++ [s] }

/-- Each nested call paints another name, so the depth is at most the number of
services, plus one call that finds its name painted. -/
def topo_sort (services : List ComposeService) : Except TopoError (List ComposeService) := do
  let t ← services.foldlM (fun t s => visit services (services.length + 1) s t) ⟨fun _ => .new, []⟩
  return t.out

/-! ## What the recursion does -/

section Visit
variable {services : List ComposeService}

/-- A successful call finds its service done, or visits it. -/
theorem visit_cases {fuel : Nat} {s : ComposeService} {t t' : Topo} (h : visit services fuel s t = .ok t') :
    (t.state s.name = .done ∧ t' = t) ∨
    ∃ f u, fuel = f + 1 ∧ t.state s.name = .new ∧
      s.depends_on.foldlM (visit_dep services (visit services f) s) (t.paint s.name .visiting) = .ok u ∧
      t' = { u.paint s.name .done with out := u.out ++ [s] } := by
  cases fuel with
  | zero => cases h
  | succ f =>
    unfold visit at h
    cases hs : t.state s.name with
    | done =>
      simp only [hs] at h
      exact .inl ⟨rfl, (Except.ok.inj h).symm⟩
    | visiting =>
      simp only [hs] at h
      cases h
    | new =>
      simp only [hs] at h
      obtain ⟨u, hu, hret⟩ := bind_eq_ok h
      exact .inr ⟨f, u, rfl, rfl, hu, (Except.ok.inj hret).symm⟩

theorem visit_dep_ok {visit : ComposeService → Topo → Except TopoError Topo} {s : ComposeService} {t t' : Topo}
    {dep : Bytes} (h : visit_dep services visit s t dep = .ok t') : ∃ d, by_name services dep = some d ∧ visit d t = .ok t' := by
  unfold visit_dep at h
  cases hd : by_name services dep with
  | none =>
    rw [hd] at h
    cases h
  | some d =>
    rw [hd] at h
    exact ⟨d, rfl, h⟩

/-- A colour other than `new` is never changed by a call that returns. -/
theorem visit_keeps {fuel : Nat} {s : ComposeService} {t t' : Topo} (h : visit services fuel s t = .ok t') (n : Bytes)
    (hn : t.state n ≠ .new) : t'.state n = t.state n := by
  induction fuel generalizing s t t' with
  | zero => cases h
  | succ f ih =>
    rcases visit_cases h with ⟨_, rfl⟩ | ⟨g, u, hg, hnew, hu, rfl⟩
    · rfl
    · obtain rfl := Nat.succ.inj hg
      have hne : n ≠ s.name := by
        rintro rfl
        exact hn hnew
      -- the children start from a state in which `n` has the same colour
      have hkeep : u.state n = t.state n := by
        refine foldlM_inv (fun v : Topo => v.state n = t.state n) ?_ ?_ hu
        · exact Function.update_of_ne hne _ _
        · intro v dep _ v' hv hstep
          obtain ⟨d, _, hd⟩ := visit_dep_ok hstep
          rw [ih hd (by rw [hv]; exact hn), hv]
      exact (Function.update_of_ne hne _ _).trans hkeep

/-- The services put out have different names, each of them done. -/
structure Topo.Distinct (t : Topo) : Prop where
  nodup : (t.out.map ComposeService.name).Nodup
  done : ∀ s ∈ t.out, t.state s.name = .done

theorem visit_distinct {fuel : Nat} {s : ComposeService} {t t' : Topo} (h : visit services fuel s t = .ok t')
    (ht : t.Distinct) : t'.Distinct := by
  induction fuel generalizing s t t' with
  | zero => cases h
  | succ f ih =>
    rcases visit_cases h with ⟨_, rfl⟩ | ⟨g, u, hg, hnew, hu, rfl⟩
    · exact ht
    · obtain rfl := Nat.succ.inj hg
      have hpainted : (t.paint s.name .visiting).Distinct := by
        refine ⟨ht.nodup, fun x hx => ?_⟩
        have hne : x.name ≠ s.name := fun he => by simp [← he, ht.done x hx] at hnew
        exact (Function.update_of_ne hne _ _).trans (ht.done x hx)
      -- `s` stays `visiting` while its children are visited, so it is not out yet
      have hchildren : u.Distinct ∧ u.state s.name = .visiting := by
        refine foldlM_inv (fun v : Topo => v.Distinct ∧ v.state s.name = .visiting) ?_ ?_ hu
        · exact ⟨hpainted, Function.update_self ..⟩
        · rintro v dep _ v' ⟨hv, hvs⟩ hstep
          obtain ⟨d, _, hd⟩ := visit_dep_ok hstep
          exact ⟨ih hd hv, by rw [visit_keeps hd _ (by rw [hvs]; decide), hvs]⟩
      obtain ⟨hu, hus⟩ := hchildren
      have hout : ∀ x ∈ u.out, x.name ≠ s.name := fun x hx he => by
        have := hu.done x hx
        rw [he, hus] at this
        cases this
      constructor
      · rw [List.map_append, List.nodup_append]
        refine ⟨hu.nodup, by simp, ?_⟩
        intro a ha b hb
        obtain ⟨x, hx, rfl⟩ := List.mem_map.1 ha
        obtain rfl : b = s.name := by simpa using hb
        exact hout x hx
      · intro x hx
        rcases List.mem_append.1 hx with hx | hx
        · exact (Function.update_of_ne (hout x hx) _ _).trans (hu.done x hx)
        · obtain rfl := List.mem_singleton.1 hx
          exact Function.update_self ..

/-- How many services are still to be painted. -/
def todo (services : List ComposeService) (t : Topo) : Nat := services.countP fun s => t.state s.name = .new

theorem todo_le {t t' : Topo} (h : ∀ n, t.state n ≠ .new → t'.state n = t.state n) : todo services t' ≤ todo services t := by
  apply List.countP_mono_left
  intro x _ hx
  simp only [decide_eq_true_eq] at hx ⊢
  by_contra hnew
  rw [h _ hnew] at hx
  exact hnew hx

theorem todo_paint {s : ComposeService} {t : Topo} (hs : s ∈ services) (hnew : t.state s.name = .new) :
    todo services (t.paint s.name .visiting) < todo services t := by
  induction services with
  | nil => cases hs
  | cons x l ih =>
    have hle : todo l (t.paint s.name .visiting) ≤ todo l t := by
      refine todo_le fun n hn => Function.update_of_ne ?_ _ _
      rintro rfl
      exact hn hnew
    simp only [todo, List.countP_cons] at ih hle ⊢
    by_cases hx : x.name = s.name
    · simp only [hx, Topo.paint, Function.update_self, hnew] at hle ⊢
      simp
      omega
    · have hmem : s ∈ l := (List.mem_cons.1 hs).resolve_left fun he => hx (he ▸ rfl)
      simp only [Topo.paint, Function.update_of_ne hx] at ih ⊢
      have := ih hmem
      omega

theorem visit_ne_fuel {fuel : Nat} {s : ComposeService} {t : Topo} (hs : s ∈ services)
    (hfuel : todo services t < fuel) : visit services fuel s t ≠ .error .fuel := by
  induction fuel generalizing s t with
  | zero => exact absurd hfuel (Nat.not_lt_zero _)
  | succ f ih =>
    unfold visit
    cases hnew : t.state s.name with
    | done => exact fun h => by cases h
    | visiting => exact fun h => by cases h
    | new =>
      intro h
      rcases bind_eq_error h with h | ⟨u, _, hu⟩
      · -- painting `s` pays for the call one level down
        have hlt := todo_paint hs hnew
        refine foldlM_ne_error (fun v => todo services v < f) (by omega) ?_ ?_ h
        · intro v dep _ v' hv hstep
          obtain ⟨d, _, hd⟩ := visit_dep_ok hstep
          exact lt_of_le_of_lt (todo_le (visit_keeps hd)) hv
        · intro v dep _ hv hstep
          unfold visit_dep at hstep
          cases hd : by_name services dep with
          | none =>
            rw [hd] at hstep
            cases hstep
          | some d =>
            rw [hd] at hstep
            exact ih (by simpa using List.mem_of_find?_eq_some hd) hv hstep
      · cases hu

end Visit

/-- The fuel `topo_sort` starts with is enough. -/
theorem topo_sort_ne_fuel (services : List ComposeService) : topo_sort services ≠ .error .fuel := by
  intro h
  rcases bind_eq_error h with h | ⟨t, _, ht⟩
  · refine foldlM_ne_error (fun _ => True) trivial (fun _ _ _ _ _ _ => trivial) ?_ h
    intro t s hs _
    exact visit_ne_fuel hs (Nat.lt_succ_of_le List.countP_le_length)
  · cases ht

/-- No two services of the order have the same name, whatever the file says. -/
theorem topo_sort_distinct {services out : List ComposeService} (h : topo_sort services = .ok out) :
    (out.map ComposeService.name).Nodup := by
  obtain ⟨t, ht, hout⟩ := bind_eq_ok h
  obtain rfl := Except.ok.inj hout
  have hinit : Topo.Distinct ⟨fun _ => .new, []⟩ := ⟨List.nodup_nil, fun _ hx => absurd hx List.not_mem_nil⟩
  exact (foldlM_inv Topo.Distinct hinit (fun _ _ _ _ hv hstep => visit_distinct hstep hv) ht).nodup

end Hostely.Apps
