import Hostely.Cli.Args
/-!
# Flags between operands

The parser does not know which options are flags. A flag before an operand takes it as a
value, and the command does not get it.
-/

open Hostely.Lib

namespace Hostely.Cli

/-- The options that are only asked for with `has`. -/
def flags : List Bytes :=
  [bytes "no-fit-check", bytes "follow", bytes "staging", bytes "off", bytes "no-tls", bytes "udp", bytes "once", bytes "exposure",
    bytes "no-log-file"]

/-- A longer line means the same but for the flag. -/
structure Harmless (flag : Bytes) (line longer : ParsedArgs) : Prop where
  has : longer.has flag = true
  command : longer.command = line.command
  operands : longer.operands = line.operands
  others : longer.options_.filter (·.name ≠ flag) = line.options_.filter (·.name ≠ flag)

/-- The flag stands before an option or at the end, or what it takes is empty and the line
has nothing but options otherwise. -/
def Free (before after : List Bytes) : Prop :=
  ∀ next rest, after = next :: rest → IsOption next ∨ next = [] ∧ ∃ options, Means (before ++ rest) ⟨options, []⟩

theorem Harmless.get {flag name : Bytes} {line longer : ParsedArgs} (h : Harmless flag line longer) (hname : name ≠ flag) :
    longer.get name = line.get name := by
  have hfind (options : List ParsedOption) :
      options.find? (·.name == name) = (options.filter (·.name ≠ flag)).find? (·.name == name) := by
    rw [List.find?_filter]
    congr 1
    funext option
    by_cases hoption : option.name = name
    · simp [hoption, hname]
    · simp [hoption]
  unfold ParsedArgs.get
  rw [hfind, h.others, ← hfind]

theorem flags_named : ∀ flag ∈ flags, flag ≠ [] ∧ 61 ∉ flag := by decide

section
variable {flag : Bytes} {a b : ParsedArgs}

theorem harmless_given (value : Bytes) : Harmless flag (a.append b) (a.append ((given flag value).append b)) := by
  refine ⟨?_, rfl, rfl, ?_⟩
  · simp [ParsedArgs.has, ParsedArgs.append, given]
  · simp [ParsedArgs.append, given]

/-- Without one of the operands, the line is the same only if that was empty and the only one. -/
theorem one_less {before after : List Bytes} {next : Bytes} :
    ((before ++ after).headD [] = (before ++ next :: after).headD [] ∧ (before ++ after).drop 1 = (before ++ next :: after).drop 1) ↔
      next = [] ∧ before ++ after = [] := by
  constructor
  · rintro ⟨hhead, htail⟩
    have hlength := congrArg List.length htail
    simp only [List.length_drop, List.length_append, List.length_cons] at hlength
    have hnone : before ++ after = [] := List.eq_nil_of_length_eq_zero (by rw [List.length_append]; omega)
    obtain ⟨rfl, rfl⟩ := List.append_eq_nil_iff.1 hnone
    exact ⟨hhead.symm, rfl⟩
  · rintro ⟨rfl, hnone⟩
    obtain ⟨rfl, rfl⟩ := List.append_eq_nil_iff.1 hnone
    exact ⟨rfl, rfl⟩

theorem taken_iff {next : Bytes} : Harmless flag (a.append (ParsedArgs.append ⟨[], [next]⟩ b)) (a.append ((given flag next).append b)) ↔
    next = [] ∧ (a.append b).positionals_ = [] := by
  have hwithout := @harmless_given flag a b next
  rw [show (a.append b).positionals_ = a.positionals_ ++ b.positionals_ from rfl, ← one_less]
  exact ⟨fun h => ⟨h.command, h.operands⟩, fun ⟨hcommand, hoperands⟩ => ⟨hwithout.has, hcommand, hoperands, hwithout.others⟩⟩

end

section
variable {program flag : Bytes} {before after : List Bytes}

theorem flag_line {a b : ParsedArgs} (hflag : flag ∈ flags) (hstop : bytes "--" ∉ before) (ha : Means before a)
    (h : Means ((bytes "--" ++ flag) :: after) b) : from_argv (program :: (before ++ (bytes "--" ++ flag) :: after)) = a.append b :=
  (ha.append h hstop (not_separates (name_part_long (flags_named flag hflag).1).1 after)).parsed program

theorem harmless_iff (hflag : flag ∈ flags) (hstop : bytes "--" ∉ before) (hsplit : ¬ Separates before after) :
    Harmless flag (from_argv (program :: (before ++ after))) (from_argv (program :: (before ++ (bytes "--" ++ flag) :: after))) ↔
      Free before after := by
  obtain ⟨hname, heq⟩ := flags_named flag hflag
  obtain ⟨a, ha⟩ := exists_meaning before
  by_cases hafter : ∀ next ∈ after.head?, IsOption next
  · obtain ⟨b, hb⟩ := exists_meaning after
    rw [flag_line hflag hstop ha (flag_means hname heq hafter hb), (ha.append hb hstop hsplit).parsed program]
    refine iff_of_true (harmless_given []) fun next rest heq => .inl (hafter next ?_)
    rw [heq]
    rfl
  · obtain ⟨next, hnext, hvalue⟩ : ∃ next, ∃ _ : next ∈ after.head?, ¬ IsOption next := by simpa only [not_forall] using hafter
    obtain ⟨rest, rfl⟩ := List.head?_eq_some_iff.1 hnext
    obtain ⟨c, hc⟩ := exists_meaning rest
    have hrest : ¬ Separates before rest := fun ⟨option, hlast, _, _, htakes, _⟩ => hsplit ⟨option, hlast, next, rfl, htakes, hvalue⟩
    have hwithout := ha.append hc hstop hrest
    have hmeans := Means.valued (long_takes hname heq) hvalue hc
    rw [(name_part_long hname).2.2] at hmeans
    rw [flag_line hflag hstop ha hmeans, (ha.append (.positional hvalue hc) hstop hsplit).parsed program, taken_iff]
    constructor
    · rintro ⟨rfl, hnone⟩ next' rest' hafter'
      obtain ⟨rfl, rfl⟩ := List.cons.inj hafter'
      exact .inr ⟨rfl, (a.append c).options_, hnone ▸ hwithout⟩
    · intro h
      obtain ⟨rfl, options, honly⟩ := (h next rest rfl).resolve_left hvalue
      exact ⟨rfl, congrArg ParsedArgs.positionals_ ((hwithout.parsed program).symm.trans (honly.parsed program))⟩

end

theorem harmless_iff_last : Harmless (bytes "follow") (from_argv [bytes "hostely", bytes "logs", bytes "web"])
    (from_argv [bytes "hostely", bytes "logs", bytes "web", bytes "--follow"]) ↔ Free [bytes "logs", bytes "web"] [] :=
  @harmless_iff (bytes "hostely") (bytes "follow") [bytes "logs", bytes "web"] [] (by decide) (by decide)
    fun ⟨_, _, _, hvalue, _⟩ => by cases hvalue

/-- The service's name is taken for the flag's value, and `logs` has no operand. -/
theorem service_taken : ¬ ∀ (program flag : Bytes) (before after : List Bytes), flag ∈ flags → bytes "--" ∉ before →
    ¬ Separates before after → (from_argv (program :: (before ++ after))).has flag = false →
      Harmless flag (from_argv (program :: (before ++ after))) (from_argv (program :: (before ++ (bytes "--" ++ flag) :: after))) := by
  intro h
  have hsplit : ¬ Separates [bytes "logs"] [bytes "web"] := fun ⟨_, hlast, _, _, htakes, _⟩ =>
    absurd (Option.some.inj hlast ▸ htakes).1 (by decide)
  have hoperands := (h (bytes "hostely") (bytes "follow") [bytes "logs"] [bytes "web"] (by decide) (by decide) hsplit
    (by decide +kernel)).operands
  exact absurd hoperands (by decide +kernel)

end Hostely.Cli
