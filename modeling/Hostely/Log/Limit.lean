import Hostely.Log.Logger
/-!
# The limit of the log file

The bytes of the log are counted until it is rotated. The line that begins a new
file is not, and so the counter and the file drift apart.
-/

open Hostely.Lib

namespace Hostely.Log

/-- Bytes in the file that is written to. -/
def Logger.size (s : Logger) : Nat := (s.files.content s.file_path).length

/-- The call begins a new file. -/
def Logger.Rotates (s : Logger) (c : Call) : Prop := ¬ c.level.toNat < s.level.toNat ∧ ¬ s.Fits c.line.length

/-- One of the calls has begun a new file. -/
def Rotated (s : Logger) (calls : List Call) : Prop := ∃ pre c, pre ++ [c] <+: calls ∧ (s.run pre).Rotates c

/-- The counter is the size of the file after every call, and once the log has been
rotated that is at most the limit. -/
def WithinLimit (s : Logger) (calls : List Call) : Prop := ∀ pre, pre <+: calls →
  (s.run pre).bytes_written = (s.run pre).size ∧ (Rotated s pre → (s.run pre).size ≤ s.max_bytes)

theorem WithinLimit.initial {s : Logger} {calls pre : List Call} (h : WithinLimit s calls) (hpre : pre <+: calls) : WithinLimit s pre :=
  fun p hp => h p (hp.trans hpre)

theorem Rotated.last {s : Logger} {calls : List Call} {c : Call} (h : Rotated s (calls ++ [c])) :
    Rotated s calls ∨ (s.run calls).Rotates c := by
  obtain ⟨pre, d, hpre, hrotates⟩ := h
  rcases List.prefix_concat_iff.1 hpre with heq | hpre
  · obtain ⟨rfl, hlast⟩ := List.append_inj' heq rfl
    obtain rfl := List.singleton_inj.1 hlast
    exact .inr hrotates
  · exact .inl ⟨pre, d, hpre, hrotates⟩

/-! ## One call -/

section
variable {s : Logger} {c : Call}

theorem Logger.Logs.emit_path (hs : s.Logs) : (s.emit c).file_path = s.file_path := by
  obtain ⟨-, hpath, -⟩ := by simpa only [Logger.config, Prod.mk.injEq] using (hs.emit (c := c)).2
  exact hpath

theorem emit_counted (hs : s.Logs) (hlevel : ¬ c.level.toNat < s.level.toNat) (h : s.Fits c.line.length) :
    (s.emit c).bytes_written = s.bytes_written + c.line.length ∧ (s.emit c).size = s.size + c.line.length := by
  obtain ⟨-, hcount, hfiles⟩ := emit_fits hs hlevel h
  refine ⟨hcount, ?_⟩
  unfold Logger.size
  rw [hs.emit_path, hfiles, content_put, List.length_append]

/-- The first line of a file is in the file and not in the counter. -/
theorem emit_uncounted (hs : s.Logs) (h : s.Rotates c) : (s.emit c).bytes_written = 0 ∧ (s.emit c).size = c.line.length := by
  obtain ⟨-, hcount, hfiles⟩ := emit_rotates hs h.1 h.2
  refine ⟨hcount, ?_⟩
  unfold Logger.size
  rw [hs.emit_path, hfiles, content_put]

theorem line_pos (c : Call) : 0 < c.line.length := by
  unfold Call.line
  rw [List.length_append, List.length_singleton]
  exact Nat.succ_pos _

end

/-! ## All calls -/

section
variable {files : Files} {level : Level} {path : Bytes} {max_bytes keep_files : Nat}

/-- Nothing is emitted, or all of it fits behind what the file begins with. -/
def AllFits (files : Files) (level : Level) (path : Bytes) (max_bytes : Nat) (calls : List Call) : Prop :=
  emitted level calls = [] ∨ (files.content path).length + (emitted level calls).flatten.length < max_bytes

theorem AllFits.initial {calls pre : List Call} (h : AllFits files level path max_bytes calls) (hpre : pre <+: calls) :
    AllFits files level path max_bytes pre := by
  obtain ⟨post, rfl⟩ := hpre
  unfold AllFits at h ⊢
  rw [emitted_append] at h
  refine h.imp (fun h => (List.append_eq_nil_iff.1 h).1) fun h => ?_
  rw [List.flatten_append, List.length_append] at h
  omega

/-- Until a line does not fit, the counter is the size of the file. -/
theorem run_counted (hpath : path ≠ []) {calls : List Call} (h : AllFits files level path max_bytes calls) :
    ((opened files level path max_bytes keep_files).run calls).bytes_written =
        (files.content path).length + (emitted level calls).flatten.length ∧
      ((opened files level path max_bytes keep_files).run calls).size =
        (files.content path).length + (emitted level calls).flatten.length ∧
      ¬ Rotated (opened files level path max_bytes keep_files) calls := by
  induction calls using List.reverseRecOn with
  | nil =>
    have hstart : (opened files level path max_bytes keep_files).size = (files.content path).length := by
      unfold Logger.size
      rw [opened_eq hpath, content_put]
    refine ⟨?_, hstart, fun ⟨pre, c, hpre, _⟩ => ?_⟩
    · unfold Logger.run
      rw [List.foldl_nil, opened_eq hpath]
      rfl
    · exact List.append_ne_nil_of_right_ne_nil _ (List.cons_ne_nil c []) (List.prefix_nil.1 hpre)
  | append_singleton calls c ih =>
    obtain ⟨hcount, hsize, hrotated⟩ := ih (h.initial (List.prefix_append _ _))
    have hs := @opened_run files level path max_bytes keep_files hpath calls
    have hbelow : c.level.toNat < ((opened files level path max_bytes keep_files).run calls).level.toNat ↔
        c.level.toNat < level.toNat := by rw [hs.level_eq]
    have hline : ¬ ((opened files level path max_bytes keep_files).run calls).Rotates c := by
      rintro ⟨hlevel, hfits⟩
      unfold AllFits at h
      rw [emitted_append, emitted_line (hbelow.not.1 hlevel), List.flatten_append, List.flatten_singleton, List.length_append] at h
      refine hfits (.inl ?_)
      rw [hcount, hs.max_bytes_eq, Nat.add_assoc]
      exact h.resolve_left (List.append_ne_nil_of_right_ne_nil _ (List.cons_ne_nil _ _))
    have hnever (h : Rotated (opened files level path max_bytes keep_files) (calls ++ [c])) : False := h.last.elim hrotated hline
    rw [run_concat, emitted_append]
    by_cases hlevel : c.level.toNat < level.toNat
    · rw [emitted_below hlevel, List.append_nil, emit_below (hbelow.2 hlevel)]
      exact ⟨hcount, hsize, hnever⟩
    · have hfits := not_not.1 fun h => hline ⟨hbelow.not.2 hlevel, h⟩
      obtain ⟨hcount', hsize'⟩ := emit_counted hs.toLogs (hbelow.not.2 hlevel) hfits
      rw [emitted_line hlevel, List.flatten_append, List.flatten_singleton, List.length_append, ← Nat.add_assoc,
        hcount', hsize', hcount, hsize]
      exact ⟨rfl, rfl, hnever⟩

/-- The log stays in order as long as it is never rotated, and no longer. -/
theorem within_limit_iff (hpath : path ≠ []) (hmax : 0 < max_bytes) (calls : List Call) :
    WithinLimit (opened files level path max_bytes keep_files) calls ↔ AllFits files level path max_bytes calls := by
  constructor
  · intro h
    induction calls using List.reverseRecOn with
    | nil => exact .inl rfl
    | append_singleton calls c ih =>
      have hbefore := ih (h.initial (List.prefix_append _ _))
      obtain ⟨hcount, -, -⟩ := @run_counted files level path max_bytes keep_files hpath calls hbefore
      have hs := @opened_run files level path max_bytes keep_files hpath calls
      unfold AllFits at hbefore ⊢
      rw [emitted_append]
      by_cases hlevel : c.level.toNat < level.toNat
      · rw [emitted_below hlevel, List.append_nil]
        exact hbefore
      · by_cases hfits : ((opened files level path max_bytes keep_files).run calls).Fits c.line.length
        · unfold Logger.Fits at hfits
          rw [hcount, hs.max_bytes_eq, Nat.add_assoc] at hfits
          rw [emitted_line hlevel, List.flatten_append, List.flatten_singleton, List.length_append]
          exact .inr (hfits.resolve_right (Nat.ne_of_gt hmax))
        · obtain ⟨hcount', hsize'⟩ := emit_uncounted hs.toLogs ⟨by rw [hs.level_eq]; exact hlevel, hfits⟩
          have hsame := (h _ (List.prefix_refl _)).1
          rw [run_concat, hcount', hsize'] at hsame
          exact absurd (line_pos c) (hsame ▸ Nat.lt_irrefl 0)
  · intro h pre hpre
    obtain ⟨hcount, hsize, hrotated⟩ := @run_counted files level path max_bytes keep_files hpath pre (h.initial hpre)
    exact ⟨hcount.trans hsize.symm, fun h => absurd h hrotated⟩

end

/-- A line of 33 bytes. -/
def ready : Call := ⟨.Info, bytes "a", bytes "2026-01-01 00:00:00.000", true⟩

theorem within_limit_iff_one : WithinLimit (opened (fun _ => none) .Info (bytes "l") 50 3) [ready] ↔
    AllFits (fun _ => none) .Info (bytes "l") 50 [ready] :=
  within_limit_iff (by decide) (by decide) [ready]

/-- The second line begins a new file and the third goes behind it, to 66 bytes of 50. -/
theorem third_line_over : ¬ ∀ (files : Files) (level : Level) (path : Bytes) (max_bytes keep_files : Nat) (calls : List Call),
    path ≠ [] → 0 < max_bytes → (∀ c ∈ calls, c.line.length < max_bytes) →
      WithinLimit (opened files level path max_bytes keep_files) calls := by
  intro h
  have hlimit := h (fun _ => none) .Info (bytes "l") 50 3 [ready, ready, ready] (by decide) (by decide) (by decide +kernel)
  have hrotated : Rotated (opened (fun _ => none) .Info (bytes "l") 50 3) [ready, ready, ready] := by
    refine ⟨[ready], ready, ⟨[ready], rfl⟩, by decide, ?_⟩
    unfold Logger.Fits
    decide +kernel
  exact absurd ((hlimit _ (List.prefix_refl _)).2 hrotated) (by decide +kernel)

end Hostely.Log
