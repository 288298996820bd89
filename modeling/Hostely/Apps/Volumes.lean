import Hostely.Apps.Confined
/-!
# Named volumes

A relative source becomes a volume named after the app, the service and the last
component of the destination. The source is not in the name, and a dash may stand
in every part of it.
-/

open Hostely.Lib Hostely.Services

namespace Hostely.Apps

/-- The source has a slash and does not begin with it. -/
def Relative (src : Bytes) : Prop := 47 ∈ src ∧ looks_absolute src = false

def last_component (dst : Bytes) : Bytes := basename_of (trim_slash dst)

/-- Service and component make the same text with a dash between them: the two are
the same, or one service goes on after a dash with what the other's component
begins with. -/
def Meet (s x t y : Bytes) : Prop :=
  (s = t ∧ x = y) ∨ (∃ r, t = s ++ bytes "-" ++ r ∧ x = r ++ bytes "-" ++ y) ∨
    ∃ r, s = t ++ bytes "-" ++ r ∧ y = r ++ bytes "-" ++ x

theorem container_name_iff {s x t y : Bytes} : container_name s x = container_name t y ↔ Meet s x t y := by
  constructor
  · intro h
    by_cases hst : s = t
    · subst hst
      exact .inl ⟨rfl, List.append_cancel_left h⟩
    · exact .inr (container_name_eq hst h)
  · rintro (⟨rfl, rfl⟩ | ⟨r, rfl, rfl⟩ | ⟨r, rfl, rfl⟩)
    · rfl
    · simp [container_name]
    · simp [container_name]

/-- The name of the volume of a relative source. -/
theorem volumes_of_relative {app : Bytes} {s : ComposeService} {k : Nat} {src dst : Bytes}
    (h : s.volumes[k]? = some (src, dst)) (hsrc : Relative src) :
    (volumes_of app s)[k]? = some (app ++ bytes "-" ++ container_name s.name (last_component dst), dst) := by
  rw [volumes_of, List.getElem?_map, h, Option.map_some]
  simp [hsrc.1, hsrc.2, container_name, last_component]

/-- Two relative sources become the same volume exactly if service and last
component meet. -/
theorem same_volume_iff (app : Bytes) {s t : ComposeService} {k l : Nat} {src dst src' dst' : Bytes}
    (hs : s.volumes[k]? = some (src, dst)) (ht : t.volumes[l]? = some (src', dst')) (hsrc : Relative src)
    (hsrc' : Relative src') :
    (volumes_of app s)[k]?.map Prod.fst = (volumes_of app t)[l]?.map Prod.fst ↔
      Meet s.name (last_component dst) t.name (last_component dst') := by
  rw [volumes_of_relative hs hsrc, volumes_of_relative ht hsrc', ← container_name_iff]
  simp

/-- A service with two relative volumes that end alike. -/
def toyVolumes : ComposeService :=
  { toyService "db" "postgres" with
    volumes := [(bytes "./a", bytes "/x/data"), (bytes "./b", bytes "/y/data/")] }

theorem same_volume_data :
    (volumes_of (bytes "shop") toyVolumes)[0]?.map Prod.fst = (volumes_of (bytes "shop") toyVolumes)[1]?.map Prod.fst :=
  (same_volume_iff (bytes "shop") (s := toyVolumes) (t := toyVolumes) (k := 0) (l := 1) rfl rfl
    ⟨by decide, by decide⟩ ⟨by decide, by decide⟩).2 (.inl ⟨rfl, by decide⟩)

/-- Two sources of one service share a volume. -/
theorem sources_share_volume :
    ¬ ∀ (app : Bytes) (s t : ComposeService) (k l : Nat) (src dst src' dst' : Bytes),
      s.volumes[k]? = some (src, dst) → t.volumes[l]? = some (src', dst') → Relative src → Relative src' →
      (s ≠ t ∨ src ≠ src') → (volumes_of app s)[k]?.map Prod.fst ≠ (volumes_of app t)[l]?.map Prod.fst := by
  intro h
  have hrel : Relative (bytes "./a") ∧ Relative (bytes "./b") := ⟨⟨by decide, by decide⟩, by decide, by decide⟩
  exact h (bytes "shop") toyVolumes toyVolumes 0 1 _ _ _ _ rfl rfl hrel.1 hrel.2 (.inr (by decide)) (by decide)

end Hostely.Apps
