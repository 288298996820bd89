import Hostely.Apps.Listing
/-!
# The column of the name

`Manager::list` takes the last word of a row for the name of the container, and
`container_exists_any_state` the first.
-/

open Hostely.Lib Hostely.Services

namespace Hostely.Apps

/-! ## Tables -/

/-- The second table has the header of the first and all of its rows. -/
structure Extends (text text_a : Bytes) : Prop where
  header : (getlines text_a).head? = (getlines text).head?
  rows : (getlines text).drop 1 ⊆ (getlines text_a).drop 1

/-- `parse_ls` makes a service of the line: it comes after the header, is no
separator and has three words at least. -/
structure Row (text line : Bytes) : Prop where
  below : line ∈ ((getlines text).filter (· ≠ [])).drop 1
  no_separator : ∃ c ∈ line, c ≠ 32 ∧ c ≠ 45
  long : 3 ≤ (words line).length

/-- What stands last in a row stands first in some line. -/
def NamesLead (text : Bytes) : Prop :=
  ∀ line, Row text line → ∃ other ∈ (getlines text).drop 1, (words other).head? = (words line).getLast?

theorem Extends.refl (text : Bytes) : Extends text text := ⟨rfl, List.Subset.refl _⟩

/-! ## The two readers -/

theorem parse_row_name {line : Bytes} {info : ServiceInfo} (h : parse_row line = some info) :
    3 ≤ (words line).length ∧ (words line).getLast? = some info.name := by
  unfold parse_row at h
  dsimp only at h
  split at h
  · cases h
  · rename_i hlong
    obtain rfl := Option.some.inj h
    refine ⟨Nat.le_of_not_lt hlong, ?_⟩
    have hne : words line ≠ [] := fun hnil => hlong (by rw [hnil]; decide)
    have hlast : (words line).getLastD [] = (words line).getLast hne := by
      rw [List.getLastD_eq_getLast?, List.getLast?_eq_some_getLast hne, Option.getD_some]
    rw [List.getLast?_eq_some_getLast hne, ← hlast]

theorem parse_row_isSome {line : Bytes} (h : 3 ≤ (words line).length) : ∃ info, parse_row line = some info := by
  unfold parse_row
  rw [if_neg (Nat.not_lt.2 h)]
  exact ⟨_, rfl⟩

/-- The names that `parse_ls` reports. -/
theorem parse_ls_names {text name : Bytes} :
    (∃ info ∈ parse_ls text, info.name = name) ↔ ∃ line, Row text line ∧ (words line).getLast? = some name := by
  constructor
  · rintro ⟨info, hinfo, rfl⟩
    obtain ⟨line, hline, hrow⟩ := List.mem_filterMap.1 hinfo
    obtain ⟨hbelow, hsep⟩ := List.mem_filter.1 hline
    obtain ⟨hlong, hname⟩ := parse_row_name hrow
    exact ⟨line, ⟨hbelow, by simpa using hsep, hlong⟩, hname⟩
  · rintro ⟨line, hrow, hname⟩
    obtain ⟨info, hinfo⟩ := parse_row_isSome hrow.long
    refine ⟨info, List.mem_filterMap.2 ⟨line, List.mem_filter.2 ⟨hrow.below, by simpa using hrow.no_separator⟩, hinfo⟩, ?_⟩
    exact Option.some.inj ((parse_row_name hinfo).2.symm.trans hname)

theorem exists_iff {r : CliResult} {name : Bytes} :
    container_exists_any_state r name = true ↔
      r.ok = true ∧ ∃ line ∈ (getlines r.stdout_text).drop 1, (words line).head? = some name := by
  simp [container_exists_any_state]

/-- Leaving out lines before the first is dropped leaves no more of them. -/
theorem filter_drop_subset {p : Bytes → Bool} (lines : List Bytes) : (lines.filter p).drop 1 ⊆ lines.drop 1 := by
  cases lines with
  | nil => exact List.Subset.refl _
  | cons first lines =>
    intro line h
    by_cases hp : p first = true
    · rw [List.filter_cons_of_pos hp] at h
      exact (List.mem_filter.1 h).1
    · rw [List.filter_cons_of_neg hp] at h
      exact (List.mem_filter.1 (List.mem_of_mem_drop h)).1

theorem Row.mem {text line : Bytes} (h : Row text line) : line ∈ (getlines text).drop 1 := filter_drop_subset _ h.below

/-- What `parse_ls` reports is found in a longer listing. -/
theorem NamesLead.exists {text : Bytes} (h : NamesLead text) {r : CliResult} (hok : r.ok = true)
    (hmore : Extends text r.stdout_text) {info : ServiceInfo} (hinfo : info ∈ parse_ls text) :
    container_exists_any_state r info.name = true := by
  obtain ⟨line, hrow, hname⟩ := parse_ls_names.1 ⟨info, hinfo, rfl⟩
  obtain ⟨other, hother, hfirst⟩ := h line hrow
  exact exists_iff.2 ⟨hok, other, hmore.rows hother, hfirst.trans hname⟩

theorem list_ok {m : Manager} {r : CliResult} {infos : List ServiceInfo} (h : m.list r = .ok infos) :
    infos = parse_ls r.stdout_text := by
  unfold Manager.list at h
  split at h
  · cases h
  · cases hread : read_result r (bytes "container ls failed") with
    | error e =>
      rw [hread] at h
      cases h
    | ok text =>
      rw [hread] at h
      obtain rfl := Except.ok.inj h
      rw [read_result_text hread]

/-- `app_up` asks both for one container; what the first lists as running, the
second knows. -/
theorem NamesLead.found {m : Manager} {cli : Verb → CliResult} {name : Bytes} (h : NamesLead (cli .ls).stdout_text)
    (hok : (cli .ls_a).ok = true) (hmore : Extends (cli .ls).stdout_text (cli .ls_a).stdout_text)
    (hfound : find_container m cli name = .running) : container_exists_any_state (cli .ls_a) name = true := by
  by_cases hr : Reports m (cli .ls) name
  · obtain ⟨infos, hlist, info, hinfo, rfl⟩ := hr
    exact h.exists hok hmore (list_ok hlist ▸ hinfo)
  · rw [find_container_unreported hr] at hfound
    split at hfound <;> cases hfound

/-- Whatever more `ls -a` prints, every name that `parse_ls` reports exists,
exactly if each row's last word is the first word of some line. -/
theorem listings_agree_iff (text : Bytes) :
    (∀ text_a, Extends text text_a → ∀ info ∈ parse_ls text,
      container_exists_any_state ⟨0, text_a, []⟩ info.name = true) ↔ NamesLead text := by
  constructor
  · intro h line hrow
    -- the listing itself, with nothing stopped in it
    cases hname : (words line).getLast? with
    | none =>
      rw [List.getLast?_eq_none_iff] at hname
      exact absurd hrow.long (by rw [hname]; decide)
    | some name =>
      obtain ⟨info, hinfo, rfl⟩ := parse_ls_names.2 ⟨line, hrow, hname⟩
      exact (exists_iff.1 (h text (Extends.refl text) info hinfo)).2
  · exact fun h text_a hmore info hinfo => h.exists (r := ⟨0, text_a, []⟩) rfl hmore hinfo

/-- What the CLI prints of one container. -/
def shop_listing : Bytes := bytes <|
  "ID\tIMAGE\tOS\tARCH\tSTATE\tADDR\tPORTS\tNAMES\n" ++
  "------------------------------------\n" ++
  "3f9c\tpostgres:16\tlinux\tarm64\trunning\t-\t5432:5432\tshop-db\n"

/-- The container is listed as running, and does not exist. -/
theorem shop_listing_disagrees :
    ¬ ∀ text text_a, Extends text text_a → ∀ info ∈ parse_ls text,
      container_exists_any_state ⟨0, text_a, []⟩ info.name = true := by
  intro h
  have hlisted : ∃ info ∈ parse_ls shop_listing, container_exists_any_state ⟨0, shop_listing, []⟩ info.name = false := by
    decide +kernel
  obtain ⟨info, hinfo, hmissing⟩ := hlisted
  rw [h shop_listing shop_listing (Extends.refl _) info hinfo] at hmissing
  cases hmissing

end Hostely.Apps
