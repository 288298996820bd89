import Hostely.Lib.Generations
import Hostely.Log.Logger
/-!
# What the rotated logs keep

The log and its rotated copies hold the generations of a record: the oldest copy goes,
the others move up by one, and the log begins anew.
-/

open Hostely.Lib

namespace Hostely.Log

/-! ## Paths -/

theorem rotated_inj {base : Bytes} {m n : Nat} (h : rotated base m = rotated base n) : m = n := by
  have hdigits (k : Nat) : to_string (k : Int) = digits 10 k := if_neg (by omega)
  have htext : to_string (m : Int) = to_string (n : Int) := List.append_cancel_left h
  rw [hdigits, hdigits] at htext
  rw [← decimal_digits m, ← decimal_digits n, htext]

theorem rotated_apart {base : Bytes} {m n : Nat} (h : m ≠ n) : rotated base m ≠ rotated base n := fun heq => h (rotated_inj heq)

theorem rotated_ne (base : Bytes) (n : Nat) : rotated base n ≠ base := by
  intro h
  have hlength := congrArg List.length h
  unfold rotated at hlength
  rw [List.append_assoc, List.length_append] at hlength
  have hdot : (bytes ".").length = 1 := by decide
  rw [List.length_append, hdot] at hlength
  omega

/-- The log, then its copies. -/
def slot (base : Bytes) : Nat → Bytes
  | 0 => base
  | n + 1 => rotated base (n + 1)

/-! ## Rotating -/

section
variable {files : Files} {base : Bytes}

/-- Renaming moves what is there, nothing included where there is nothing to replace. -/
theorem rename_eq {old new : Bytes} (h : files old = none → files new = none) :
    files.rename old new = (files.put new (files old)).put old none := by
  unfold Files.rename
  cases hold : files old with
  | some content => rfl
  | none =>
    funext p
    change files p = _
    by_cases hp : p = old
    · rw [hp, put_same, hold]
    · rw [put_other hp]
      by_cases hp' : p = new
      · rw [hp', put_same, h hold]
      · rw [put_other hp']

/-- No copy below the `n`-th is missing before one that is there. -/
def Gapless (files : Files) (base : Bytes) (n : Nat) : Prop :=
  ∀ i, 1 ≤ i → i < n → files (rotated base i) = none → files (rotated base (i + 1)) = none

theorem rename_copy {i : Nat} (hnext : files (rotated base i) = none → files (rotated base (i + 1)) = none) :
    files.rename (rotated base i) (rotated base (i + 1)) (rotated base i) = none ∧
      files.rename (rotated base i) (rotated base (i + 1)) (rotated base (i + 1)) = files (rotated base i) ∧
      ∀ p, p ≠ rotated base i → p ≠ rotated base (i + 1) → files.rename (rotated base i) (rotated base (i + 1)) p = files p := by
  rw [rename_eq hnext]
  refine ⟨put_same _ _ _, ?_, fun p hold hnew => ?_⟩
  · rw [put_other (rotated_apart (Nat.succ_ne_self i)), put_same]
  · rw [put_other hold, put_other hnew]

/-- Every copy moves up by one, and nothing else does. -/
theorem shift_files {n : Nat} (hgap : Gapless files base n) :
    (∀ i, 1 ≤ i → i < n → shift base n files (rotated base (i + 1)) = files (rotated base i)) ∧
      ∀ p, (∀ i, 1 ≤ i → i ≤ n → p ≠ rotated base i) → shift base n files p = files p := by
  induction n generalizing files with
  | zero => exact ⟨fun i h1 hi => by omega, fun _ _ => rfl⟩
  | succ n ih =>
    cases n with
    | zero => exact ⟨fun i h1 hi => by omega, fun _ _ => rfl⟩
    | succ n =>
      -- the copy that is moved first leaves its place to the one below
      obtain ⟨hfree, hlast, hrest⟩ := rename_copy (hgap (n + 1) (by omega) (by omega))
      have hbelow (i : Nat) (hi : i < n + 1) := hrest _ (rotated_apart (Nat.ne_of_lt hi)) (rotated_apart (by omega : i ≠ n + 2))
      have hgap' : Gapless (files.rename (rotated base (n + 1)) (rotated base (n + 2))) base (n + 1) := by
        intro i h1 hi hnone
        rcases Nat.lt_or_ge (i + 1) (n + 1) with hlt | hge
        · rw [hbelow i hi] at hnone
          rw [hbelow (i + 1) hlt]
          exact hgap i h1 (by omega) hnone
        · obtain rfl : i = n := by omega
          exact hfree
      obtain ⟨hup, hothers⟩ := ih hgap'
      have hshift : shift base (n + 2) files = shift base (n + 1) (files.rename (rotated base (n + 1)) (rotated base (n + 2))) := rfl
      rw [hshift]
      refine ⟨fun i h1 hi => ?_, fun p hp => ?_⟩
      · rcases Nat.lt_or_ge i (n + 1) with hlt | hge
        · rw [hup i h1 hlt, hbelow i hlt]
        · obtain rfl : i = n + 1 := by omega
          rw [hothers _ fun j _ hj => rotated_apart (by omega), hlast]
      · rw [hothers p fun i h1 hi => hp i h1 (by omega), hrest p (hp _ (by omega) (by omega)) (hp _ (by omega) (by omega))]

/-! ## The files hold generations -/

/-- The log and its copies hold the generations, and there are no more copies. -/
def Holds (files : Files) (base : Bytes) (g : List (List Bytes)) : Prop := ∀ i, files (slot base i) = (g[i]?).map List.flatten

theorem slot_ne {base : Bytes} {i j : Nat} (h : i ≠ j) : slot base i ≠ slot base j := by
  cases i with
  | zero =>
    cases j with
    | zero => exact absurd rfl h
    | succ j => exact (rotated_ne base (j + 1)).symm
  | succ i =>
    cases j with
    | zero => exact rotated_ne base (i + 1)
    | succ j => exact rotated_apart h

variable {g : List (List Bytes)} {line : Bytes}

theorem Holds.write (h : Holds files base g) (hg : g ≠ []) :
    Holds (files.put base (some (files.content base ++ line))) base (Lib.write line g) := by
  obtain ⟨c, rest, rfl⟩ := List.exists_cons_of_ne_nil hg
  have hbase : files base = some c.flatten := h 0
  intro i
  cases i with
  | zero =>
    change files.put base _ base = some (c ++ [line]).flatten
    rw [put_same, Files.content, hbase, List.flatten_append, List.flatten_singleton]
    rfl
  | succ i =>
    have hother : slot base (i + 1) ≠ base := slot_ne (Nat.succ_ne_zero i)
    rw [put_other hother]
    exact h (i + 1)

theorem remove_other {p path : Bytes} (h : p ≠ path) (removed : Bool) : files.remove path removed p = files p := by
  cases removed with
  | true => exact put_other h none
  | false => rfl

theorem Holds.gapless {n : Nat} (h : Holds files base g) (removed : Bool) : Gapless (files.remove (rotated base n) removed) base n := by
  have hnext (i : Nat) (hnone : files (rotated base (i + 1)) = none) : files (rotated base (i + 2)) = none := by
    have hhere := (h (i + 1)).symm.trans hnone
    have hlength : g.length ≤ i + 1 := List.getElem?_eq_none_iff.1 (Option.map_eq_none_iff.1 hhere)
    rw [show rotated base (i + 2) = slot base (i + 2) from rfl, h (i + 2), List.getElem?_eq_none (by omega), Option.map_none]
  intro i h1 hi hnone
  obtain ⟨i, rfl⟩ := Nat.exists_eq_succ_of_ne_zero (Nat.ne_of_gt h1)
  rw [remove_other (rotated_apart (by omega))] at hnone
  by_cases hlast : i + 2 = n
  · cases removed with
    | true => exact hlast ▸ put_same files (rotated base n) none
    | false => exact hnext i hnone
  · rw [remove_other (rotated_apart hlast)]
    exact hnext i hnone

/-- Every file moves up by one and the log is empty; what is beyond the last copy stays. -/
theorem turned_files {s : Logger} {removed : Bool} (hlog : s.files s.file_path ≠ none)
    (hgap : Gapless (s.files.remove (rotated s.file_path s.keep_files) removed) s.file_path s.keep_files) :
    s.turned removed (rotated s.file_path 1) = s.files s.file_path ∧
      (∀ i, 1 ≤ i → i < s.keep_files → s.turned removed (rotated s.file_path (i + 1)) = s.files (rotated s.file_path i)) ∧
      ∀ i, 1 < i → s.keep_files < i → s.turned removed (rotated s.file_path i) = s.files (rotated s.file_path i) := by
  obtain ⟨hup, hothers⟩ := shift_files hgap
  have hshifted : shift s.file_path s.keep_files (s.files.remove (rotated s.file_path s.keep_files) removed) s.file_path =
      s.files s.file_path := by
    rw [hothers _ fun i _ _ => (rotated_ne s.file_path i).symm, remove_other (rotated_ne _ _).symm]
  unfold Logger.turned
  generalize hcopies : shift s.file_path s.keep_files (s.files.remove (rotated s.file_path s.keep_files) removed) = copies at *
  have hrenamed (p : Bytes) (hp : p ≠ s.file_path) :
      ((copies.rename s.file_path (rotated s.file_path 1)).put s.file_path (some [])) p =
        copies.put (rotated s.file_path 1) (s.files s.file_path) p := by
    rw [put_other hp, rename_eq fun hnone => absurd (hshifted.symm.trans hnone) hlog, put_other hp, hshifted]
  refine ⟨?_, fun i h1 hi => ?_, fun i h1 hi => ?_⟩
  · rw [hrenamed _ (rotated_ne _ 1), put_same]
  · rw [hrenamed _ (rotated_ne _ _), put_other (rotated_apart (by omega)), hup i h1 hi,
      remove_other (rotated_apart (by omega))]
  · rw [hrenamed _ (rotated_ne _ _), put_other (rotated_apart (by omega)),
      hothers _ fun j _ hj => rotated_apart (by omega), remove_other (rotated_apart (by omega))]

/-- A rotation is a turn of the generations. -/
theorem Holds.turn {s : Logger} (h : Holds s.files s.file_path g) (hg : g ≠ []) (hkeep : 0 < s.keep_files)
    (hlength : g.length ≤ s.keep_files + 1) (removed : Bool) :
    Holds ((s.turned removed).put s.file_path (some line)) s.file_path (Lib.turn s.keep_files line g) := by
  have hlog : s.files s.file_path ≠ none := by
    rw [show s.files s.file_path = (g[0]?).map List.flatten from h 0, ne_eq, Option.map_eq_none_iff, List.getElem?_eq_none_iff]
    exact fun hnil => hg (List.length_eq_zero_iff.1 (Nat.le_zero.1 hnil))
  obtain ⟨hfirst, hup, hbeyond⟩ := turned_files hlog (h.gapless removed)
  intro i
  cases i with
  | zero => exact (put_same _ _ _).trans (by simp [Lib.turn])
  | succ i =>
    change (s.turned removed).put s.file_path (some line) (rotated s.file_path (i + 1)) = ((g.take s.keep_files)[i]?).map List.flatten
    rw [put_other (rotated_ne s.file_path (i + 1)), List.getElem?_take]
    cases i with
    | zero =>
      rw [hfirst, if_pos hkeep]
      exact h 0
    | succ i =>
      split
      · rename_i hlt
        rw [hup (i + 1) (by omega) hlt]
        exact h (i + 1)
      · have hnone : g[i + 2]? = none := List.getElem?_eq_none (by omega)
        rw [hbeyond (i + 2) (by omega) (by omega)]
        exact (h (i + 2)).trans (by rw [hnone])

/-! ## The history -/

/-- The log after its first `n` copies, the oldest first. -/
def history (files : Files) (base : Bytes) : Nat → Bytes
  | 0 => files.content base
  | n + 1 => files.content (rotated base (n + 1)) ++ history files base n

theorem Holds.history (h : Holds files base g) (n : Nat) : history files base n = (kept (g.take (n + 1))).flatten := by
  have hcontent (i : Nat) : files.content (slot base i) = ((g[i]?).map List.flatten).getD [] := congrArg (Option.getD · []) (h i)
  induction n with
  | zero =>
    refine (hcontent 0).trans ?_
    cases g with
    | nil => rfl
    | cons c g => rw [List.take_succ_cons, List.take_zero, kept_cons]; rfl
  | succ n ih =>
    have hlast : files.content (rotated base (n + 1)) = ((g[n + 1]?).map List.flatten).getD [] := hcontent (n + 1)
    rw [Log.history, ih, hlast, List.take_add_one (i := n + 1), kept_append, List.flatten_append]
    cases g[n + 1]? with
    | none => rfl
    | some c =>
      rw [Option.toList_some, kept_cons, kept_nil, List.nil_append]
      rfl

theorem Holds.whole (h : Holds files base g) {n : Nat} (hlength : g.length ≤ n + 1) : Log.history files base n = (kept g).flatten := by
  rw [h.history, List.take_of_length_le hlength]

/-- Of the generations, a call may drop the last, when it is the last copy. -/
theorem emit_holds {s : Logger} {level : Level} {path : Bytes} {max_bytes keep_files : Nat}
    (hs : s.Opened level path max_bytes keep_files) (hkeep : 0 < keep_files) (h : Holds s.files path g) (hg : g ≠ [])
    (hlength : g.length ≤ keep_files + 1) (c : Call) : ∃ g' lost rest, Holds (s.emit c).files path g' ∧ g' ≠ [] ∧
      g'.length ≤ keep_files + 1 ∧ kept g = lost ++ rest ∧ kept g' = rest ++ emitted level [c] ∧
      (lost = [] ∨ g[keep_files]? = some lost ∧ emitted level [c] ≠ []) := by
  obtain ⟨hs, rfl, rfl, -, rfl⟩ := hs
  by_cases hlevel : c.level.toNat < s.level.toNat
  · rw [emit_below hlevel, emitted_below hlevel]
    exact ⟨g, [], kept g, h, hg, hlength, rfl, (List.append_nil _).symm, .inl rfl⟩
  · rw [emitted_line hlevel]
    by_cases hfits : s.Fits c.line.length
    · rw [(emit_fits hs hlevel hfits).2.2]
      have hsame := write_length (a := c.line) hg
      refine ⟨write c.line g, [], kept g, h.write hg, ?_, hsame ▸ hlength, rfl, kept_write _ _, .inl rfl⟩
      exact List.ne_nil_of_length_pos (hsame ▸ List.length_pos_iff_ne_nil.2 hg)
    · rw [(emit_rotates hs hlevel hfits).2.2]
      refine ⟨turn s.keep_files c.line g, kept (g.drop s.keep_files), kept (g.take s.keep_files), h.turn hg hkeep hlength c.removed,
        List.cons_ne_nil _ _, turn_length _ _ _, kept_split _ _, kept_turn _ _ _, ?_⟩
      rw [drop_last hlength]
      cases g[s.keep_files]? with
      | none => exact .inl rfl
      | some lost => exact .inr ⟨rfl, List.cons_ne_nil _ _⟩

end

section Runs
variable {files : Files} {path : Bytes} {level : Level} {max_bytes keep_files : Nat}

theorem run_holds (hpath : path ≠ []) (hkeep : 0 < keep_files) (hnone : ∀ i, files (slot path i) = none) (calls : List Call) :
    ∃ g old, Holds ((opened files level path max_bytes keep_files).run calls).files path g ∧ g ≠ [] ∧ g.length ≤ keep_files + 1 ∧
      emitted level calls = old ++ kept g ∧ (emitted level calls ≠ [] → kept g ≠ []) := by
  induction calls using List.reverseRecOn with
  | nil =>
    refine ⟨[[]], [], fun i => ?_, List.cons_ne_nil _ _, by simp, rfl, fun h => absurd rfl h⟩
    have hfiles : ((opened files level path max_bytes keep_files).run []).files = files.put path (some []) := by
      unfold opened Logger.init Logger.run
      rw [if_pos hpath]
      have hempty : files path = none := hnone 0
      have hcontent : files.content path = [] := congrArg (Option.getD · []) hempty
      exact congrArg (fun content => files.put path (some content)) hcontent
    rw [hfiles]
    cases i with
    | zero => exact put_same files path (some [])
    | succ i => exact (put_other (rotated_ne path (i + 1)) _).trans (hnone (i + 1))
  | append_singleton calls c ih =>
    obtain ⟨g, old, h, hg, hlength, hsplit, hne⟩ := ih
    obtain ⟨g', lost, rest, h', hg', hlength', hsame, hkept, hlost⟩ := emit_holds (opened_run hpath calls) hkeep h hg hlength c
    rw [run_concat, emitted_append, hsplit, hsame]
    refine ⟨g', old ++ lost, h', hg', hlength', ?_, fun hsome => ?_⟩
    · rw [hkept, List.append_assoc, List.append_assoc, List.append_assoc]
    · rw [hkept]
      rcases hlost with rfl | ⟨-, hline⟩
      · by_cases hline : emitted level [c] = []
        · have hbefore : emitted level calls ≠ [] := by
            rw [hline, List.append_nil, ← hsame, ← hsplit] at hsome
            exact hsome
          rw [hline, List.append_nil]
          exact fun h => hne hbefore (by rw [hsame, h]; rfl)
        · exact List.append_ne_nil_of_right_ne_nil _ hline
      · exact List.append_ne_nil_of_right_ne_nil _ hline

/-- The log and its copies are the end of what was emitted, there are no more copies, and
what a call takes away is the last copy. -/
theorem recent_history (hpath : path ≠ []) (hkeep : 0 < keep_files) (hnone : ∀ i, files (slot path i) = none) (calls : List Call) :
    (∃ old recent, emitted level calls = old ++ recent ∧ (emitted level calls ≠ [] → recent ≠ []) ∧
      history ((opened files level path max_bytes keep_files).run calls).files path keep_files = recent.flatten) ∧
    (∀ n, keep_files < n → ((opened files level path max_bytes keep_files).run calls).files (rotated path n) = none) ∧
    ∀ pre c post, calls = pre ++ c :: post → ∃ lost rest,
      history ((opened files level path max_bytes keep_files).run pre).files path keep_files = lost ++ rest ∧
      history ((opened files level path max_bytes keep_files).run (pre ++ [c])).files path keep_files =
        rest ++ (emitted level [c]).flatten ∧
      (lost = [] ∨ ((opened files level path max_bytes keep_files).run pre).files (rotated path keep_files) = some lost) := by
  refine ⟨?_, fun n hn => ?_, fun pre c post _ => ?_⟩
  · obtain ⟨g, old, h, -, hlength, hsplit, hne⟩ := @run_holds files path level max_bytes keep_files hpath hkeep hnone calls
    exact ⟨old, kept g, hsplit, hne, h.whole hlength⟩
  · obtain ⟨g, old, h, -, hlength, -⟩ := @run_holds files path level max_bytes keep_files hpath hkeep hnone calls
    obtain ⟨n, rfl⟩ := Nat.exists_eq_succ_of_ne_zero (Nat.ne_zero_of_lt hn)
    have hbeyond := h (n + 1)
    rw [List.getElem?_eq_none (by omega)] at hbeyond
    exact hbeyond
  · obtain ⟨g, old, h, hg, hlength, -⟩ := @run_holds files path level max_bytes keep_files hpath hkeep hnone pre
    obtain ⟨g', lost, rest, h', -, hlength', hsame, hkept, hlost⟩ := emit_holds (opened_run hpath pre) hkeep h hg hlength c
    rw [run_concat, h.whole hlength, h'.whole hlength', hsame, hkept, List.flatten_append, List.flatten_append]
    refine ⟨lost.flatten, rest.flatten, rfl, rfl, hlost.imp (fun h => by rw [h]; rfl) fun ⟨hlast, _⟩ => ?_⟩
    obtain ⟨n, rfl⟩ := Nat.exists_eq_succ_of_ne_zero (Nat.ne_zero_of_lt hkeep)
    have hcopy := h (n + 1)
    rw [hlast] at hcopy
    exact hcopy

end Runs

/-- Two calls, the second of which rotates a log of eight bytes. -/
def two_calls : List Call := [⟨.Info, bytes "a", [], true⟩, ⟨.Warn, bytes "b", [], true⟩]

theorem recent_history_two :
    (∃ old recent, emitted .Info two_calls = old ++ recent ∧ (emitted .Info two_calls ≠ [] → recent ≠ []) ∧
      history ((opened (fun _ => none) .Info (bytes "l") 8 1).run two_calls).files (bytes "l") 1 = recent.flatten) ∧
    ((opened (fun _ => none) .Info (bytes "l") 8 1).run two_calls).files (rotated (bytes "l") 2) = none :=
  have h := @recent_history (fun _ => none) (bytes "l") .Info 8 1 (by decide) (by decide) (fun _ => rfl) two_calls
  ⟨h.1, h.2.1 2 (by decide)⟩

end Hostely.Log
