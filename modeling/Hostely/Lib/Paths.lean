import Hostely.Lib.Text
/-!
# Paths

A path is a text whose names stand between slashes. It is resolved name by name, from
the root or from the working directory: `.` stays and `..` goes up. There are no
symbolic links. A directory is the list of the names on the way to it from the root,
and what is in it are the lists that go on from there.
-/

namespace Hostely.Lib

theorem splitAt_ne_nil (sep : UInt8 → Bool) (text : Bytes) : splitAt sep text ≠ [] := by
  cases text with
  | nil => exact List.cons_ne_nil _ _
  | cons c text =>
    unfold splitAt
    split
    · exact List.cons_ne_nil _ _
    · split <;> exact List.cons_ne_nil _ _

/-- A separator cuts whatever is in front of it. -/
theorem splitAt_sep {sep : UInt8 → Bool} {c : UInt8} (hc : sep c = true) (a rest : Bytes) :
    splitAt sep (a ++ c :: rest) = splitAt sep a ++ splitAt sep rest := by
  induction a with
  | nil => simp [splitAt, hc]
  | cons d a ih =>
    by_cases hd : sep d = true
    · simp [splitAt, hd, ih]
    · obtain ⟨piece, pieces, ha⟩ := List.exists_cons_of_ne_nil (splitAt_ne_nil sep a)
      simp [splitAt, hd, ih, ha]

/-- The path of a name in a directory. -/
def slash (dir name : Bytes) : Bytes := if dir = [] then name else dir ++ 47 :: name

/-- Goes on from a directory to a name. -/
def enter (dir : List Bytes) (name : Bytes) : List Bytes :=
  if name = [] ∨ name = bytes "." then dir else if name = bytes ".." then dir.dropLast else dir ++ [name]

/-- Where a path leads. -/
def resolve (cwd : List Bytes) (path : Bytes) : List Bytes :=
  (splitAt (· = 47) path).foldl enter (if path.head? = some 47 then [] else cwd)

/-- A name that is in the directory it is looked for in. -/
structure Proper (name : Bytes) : Prop where
  nonempty : name ≠ []
  dot : name ≠ bytes "."
  dotdot : name ≠ bytes ".."

section
variable {cwd dir path : List Bytes} {name : Bytes}

theorem enter_proper (h : Proper name) : enter dir name = dir ++ [name] := by
  unfold enter
  rw [if_neg (not_or.2 ⟨h.nonempty, h.dot⟩), if_neg h.dotdot]

theorem enter_dot (dir : List Bytes) : enter dir (bytes ".") = dir := if_pos (.inr rfl)

theorem enter_dotdot (dir : List Bytes) : enter dir (bytes "..") = dir.dropLast := by
  unfold enter
  rw [if_neg (by decide), if_pos rfl]

/-- A name without a slash is one name of the path. -/
theorem resolve_slash (cwd : List Bytes) (dir : Bytes) (h : 47 ∉ name) :
    resolve cwd (slash dir name) = enter (resolve cwd dir) name := by
  have hname : splitAt (· = 47) name = [name] := splitAt_none fun c hc => decide_eq_false fun he => h (he ▸ hc)
  unfold slash
  split
  · rename_i hdir
    subst hdir
    have hhead : name.head? ≠ some 47 := fun he => h (List.mem_of_mem_head? he)
    rw [resolve, hname, if_neg hhead]
    rfl
  · rename_i hdir
    obtain ⟨c, dir, rfl⟩ := List.exists_cons_of_ne_nil hdir
    rw [resolve, splitAt_sep (by decide), hname, List.foldl_append]
    rfl

/-- A proper name leads one step down, and no other name does. -/
theorem child_iff (hname : name ≠ []) : (∃ n, enter dir name = dir ++ [n]) ↔ name ≠ bytes "." ∧ name ≠ bytes ".." := by
  constructor
  · rintro ⟨n, hn⟩
    refine ⟨?_, ?_⟩
    · rintro rfl
      rw [enter_dot] at hn
      simp at hn
    · rintro rfl
      rw [enter_dotdot] at hn
      have hlength := congrArg List.length hn
      simp only [List.length_dropLast, List.length_append, List.length_singleton] at hlength
      omega
  · exact fun h => ⟨name, enter_proper ⟨hname, h.1, h.2⟩⟩

/-- Nothing is in two children of a directory. -/
theorem children_disjoint {a b : Bytes} (ha : dir ++ [a] <+: path) (hb : dir ++ [b] <+: path) : a = b := by
  have hsame := ((List.prefix_of_prefix_length_le ha hb (by simp)).eq_of_length (by simp))
  simpa using hsame

end

end Hostely.Lib
