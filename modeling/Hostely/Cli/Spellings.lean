import Hostely.Cli.Args
/-!
# The two spellings of an option

`--name value` and `--name=value` say the same when the value does not look like an
option. When it does, it is taken for the next option.
-/

open Hostely.Lib

namespace Hostely.Cli

def spaced (name value : Bytes) : List Bytes := [bytes "--" ++ name, value]

def joined (name value : Bytes) : List Bytes := [bytes "--" ++ (name ++ 61 :: value)]

/-- `-1`, say. -/
def Negative (value : Bytes) : Prop := ∃ d rest, value = 45 :: d :: rest ∧ isdigit d = true

section
variable {program name value : Bytes} {before after : List Bytes} {a b : ParsedArgs}

theorem joined_line (value : Bytes) (heq : 61 ∉ name) (hstop : bytes "--" ∉ before) (ha : Means before a) (hb : Means after b) :
    from_argv (program :: (before ++ (joined name value ++ after))) = a.append ((given name value).append b) := by
  obtain ⟨hoption, hne, hname⟩ := @name_part_long (name ++ 61 :: value) (List.append_ne_nil_of_right_ne_nil _ (List.cons_ne_nil _ _))
  exact (ha.append (.joined hoption hne hname heq hb) hstop (not_separates hoption after)).parsed program

theorem spaced_line (hname : name ≠ []) (heq : 61 ∉ name) (hvalue : ¬ IsOption value) (hstop : bytes "--" ∉ before)
    (ha : Means before a) (hb : Means after b) :
    from_argv (program :: (before ++ (spaced name value ++ after))) = a.append ((given name value).append b) := by
  obtain ⟨hoption, -, hpart⟩ := name_part_long hname
  have hmeans := Means.valued (long_takes hname heq) hvalue hb
  rw [hpart] at hmeans
  exact (ha.append hmeans hstop (not_separates hoption _)).parsed program

/-- Both spellings give the option its value, unless the value is taken for an option. Of
values that are, the ones that are numbers are left out. -/
theorem spellings_agree (hname : name ≠ []) (heq : 61 ∉ name) (hstop : bytes "--" ∉ before) :
    (¬ IsOption value → from_argv (program :: (before ++ (spaced name value ++ after))) =
      from_argv (program :: (before ++ (joined name value ++ after)))) ∧
    (IsOption value → ¬ Negative value →
      from_argv (program :: (before ++ (spaced name value ++ after))) =
        from_argv (program :: (before ++ (joined name [] ++ value :: after))) ∧
      from_argv (program :: (before ++ (spaced name value ++ after))) ≠
        from_argv (program :: (before ++ (joined name value ++ after)))) := by
  obtain ⟨a, ha⟩ := exists_meaning before
  obtain ⟨b, hb⟩ := exists_meaning after
  rw [joined_line value heq hstop ha hb]
  constructor
  · exact fun hvalue => spaced_line hname heq hvalue hstop ha hb
  · intro hvalue _
    obtain ⟨c, hc⟩ := exists_meaning (value :: after)
    have hnext : ∀ next ∈ (value :: after).head?, IsOption next := fun next h => Option.some.inj h ▸ hvalue
    have hspaced : from_argv (program :: (before ++ (spaced name value ++ after))) = a.append ((given name []).append c) :=
      (ha.append (flag_means hname heq hnext hc) hstop (not_separates (name_part_long hname).1 _)).parsed program
    rw [hspaced, joined_line [] heq hstop ha hc]
    refine ⟨rfl, fun hsame => ?_⟩
    have hoptions := List.append_cancel_left (congrArg ParsedArgs.options_ hsame)
    have hempty : [] = value := congrArg ParsedOption.value (List.cons.inj hoptions).1
    exact absurd (hempty ▸ hvalue.1) (by decide)

end

theorem spellings_agree_port :
    from_argv ([bytes "hostely", bytes "serve"] ++ (spaced (bytes "port") (bytes "80") ++ [bytes "m"])) =
      from_argv ([bytes "hostely", bytes "serve"] ++ (joined (bytes "port") (bytes "80") ++ [bytes "m"])) :=
  (@spellings_agree (bytes "hostely") (bytes "port") (bytes "80") [bytes "serve"] [bytes "m"] (by decide) (by decide)
    (by decide)).1 (by decide)

/-- An option that stands where a value could is not the value. -/
theorem option_no_value : ¬ ∀ (program name value : Bytes) (before after : List Bytes), name ≠ [] → 61 ∉ name → name.head? ≠ some 45 →
    bytes "--" ∉ before → from_argv (program :: (before ++ (spaced name value ++ after))) =
      from_argv (program :: (before ++ (joined name value ++ after))) := by
  intro h
  have hsame := h (bytes "hostely") (bytes "engine") (bytes "--no-fit-check") [bytes "serve", bytes "m"] [] (by decide) (by decide)
    (by decide) (by decide)
  exact absurd hsame (by decide +kernel)

end Hostely.Cli
