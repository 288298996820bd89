import Hostely.Models.Pull
/-!
# What an operand names

`user/repo`, `user/repo:quant` and `user/repo/s1/.../sn`. A file is split off at the last
slash, so that of a longer path all but the last segment goes to the repository.
-/

open Hostely.Lib

namespace Hostely.Models

/-! ## Segments -/

/-- A name between slashes. -/
structure Segment where
  text : Bytes
  nonempty : text ≠ []
  slash : 47 ∉ text
  colon : 58 ∉ text

def slug (user repo : Segment) : Bytes := user.text ++ 47 :: repo.text

/-- The segments, each behind a slash. -/
def below (segs : List Segment) : Bytes := segs.flatMap fun s => 47 :: s.text

/-- Where a file of a repository is downloaded. -/
def download_url (user repo : Segment) (segs : List Segment) : Bytes :=
  bytes "https://huggingface.co/" ++ slug user repo ++ bytes "/resolve/main" ++ below segs

/-- The three forms lead to what they name. -/
structure Resolves (user repo quant : Segment) (segs : List Segment) : Prop where
  default : resolve_operand (slug user repo) = some ⟨.repo_quant, slug user repo, bytes "Q4_K_M", [], []⟩
  quant : resolve_operand (slug user repo ++ 58 :: quant.text) = some ⟨.repo_quant, slug user repo, quant.text, [], []⟩
  file : ∀ parse c, c.operand = slug user repo ++ below segs →
    ∃ r, source parse c = .ok r ∧ r.repo = slug user repo ∧ r.url = download_url user repo segs

theorem below_plain (segs : List Segment) : 58 ∉ below segs := by
  simp only [below, List.mem_flatMap, List.mem_cons, not_exists, not_and, not_or]
  exact fun s _ => ⟨by decide, s.colon⟩

theorem slug_plain (user repo : Segment) : 58 ∉ slug user repo := by
  simp only [slug, List.mem_append, List.mem_cons, not_or]
  exact ⟨user.colon, by decide, repo.colon⟩

/-! ## Splitting -/

/-- A URL has a colon before its first slash. -/
theorem not_url (user : Segment) (rest : Bytes) : looks_like_url (user.text ++ 47 :: rest) = false := by
  have hscheme (scheme : Bytes) (hslash : 47 ∉ scheme) (hcolon : 58 ∈ scheme) :
      (scheme ++ 47 :: [47]).isPrefixOf (user.text ++ 47 :: rest) = false := by
    rw [← Bool.not_eq_true, List.isPrefixOf_iff_prefix]
    rintro ⟨tail, htail⟩
    rw [List.append_assoc, List.cons_append] at htail
    -- the first slash of both
    have hsplit := congrArg (split_first 47) htail
    rw [split_first_mark hslash, split_first_mark user.slash] at hsplit
    obtain ⟨rfl, -⟩ := Prod.mk.inj (Option.some.inj hsplit)
    exact user.colon hcolon
  have hhttp := hscheme (bytes "http:") (by decide) (by decide)
  have hhttps := hscheme (bytes "https:") (by decide) (by decide)
  exact Bool.or_eq_false_iff.2 ⟨hhttp, hhttps⟩

/-! ## The three forms -/

section
variable (user repo quant : Segment)

theorem resolve_default : resolve_operand (slug user repo) = some ⟨.repo_quant, slug user repo, bytes "Q4_K_M", [], []⟩ := by
  have hcolon := split_first_unmarked (slug_plain user repo)
  have hslash : split_first 47 (slug user repo) = some (user.text, repo.text) := split_first_mark user.slash repo.text
  unfold resolve_operand
  rw [if_neg (by simp [slug, not_url]), hslash, hcolon]
  simp [resolve_operand.in_repo, repo.slash]

theorem resolve_quant : resolve_operand (slug user repo ++ 58 :: quant.text) =
    some ⟨.repo_quant, slug user repo, quant.text, [], []⟩ := by
  have hcolon := split_first_mark (slug_plain user repo) quant.text
  have hoperand : slug user repo ++ 58 :: quant.text = user.text ++ 47 :: (repo.text ++ 58 :: quant.text) := by simp [slug]
  have hslash : split_first 47 (slug user repo ++ 58 :: quant.text) = some (user.text, repo.text ++ 58 :: quant.text) := by
    rw [hoperand]
    exact split_first_mark user.slash _
  have hlater : user.text.length < (slug user repo).length := by simp [slug]
  unfold resolve_operand
  rw [if_neg (by simp [hoperand, not_url]), hslash, hcolon]
  simp [hlater]

/-- A file is split off at the last slash. -/
theorem resolve_file (dirs : List Segment) (file : Segment) :
    resolve_operand (slug user repo ++ below (dirs ++ [file])) = some ⟨.repo_file, slug user repo ++ below dirs, [], file.text,
      huggingface (slug user repo ++ below dirs) file.text⟩ := by
  have hlast : slug user repo ++ below (dirs ++ [file]) = (slug user repo ++ below dirs) ++ 47 :: file.text := by simp [below]
  have hfirst : slug user repo ++ below (dirs ++ [file]) = user.text ++ 47 :: (repo.text ++ below (dirs ++ [file])) := by simp [slug]
  have hcolon : 58 ∉ slug user repo ++ below (dirs ++ [file]) := by
    rw [List.mem_append, not_or]
    exact ⟨slug_plain user repo, below_plain _⟩
  have hslash : split_first 47 (slug user repo ++ below (dirs ++ [file])) = some (user.text, repo.text ++ below (dirs ++ [file])) := by
    rw [hfirst]
    exact split_first_mark user.slash _
  have hrest : 47 ∈ repo.text ++ below (dirs ++ [file]) := by simp [below]
  unfold resolve_operand
  rw [if_neg (by simp [hfirst, not_url]), hslash, split_first_unmarked hcolon]
  simp only [resolve_operand.in_repo, Option.bind_eq_bind, Option.bind_some, if_pos hrest]
  rw [hlast, beforeLast_append file.slash, afterLast_append file.slash]
  rfl

end

/-! ## What is pulled -/

section
variable {user repo quant : Segment}

theorem source_file {parse : Bytes → Option Json} {c : PullCall} {dirs : List Segment} {file : Segment}
    (hc : c.operand = slug user repo ++ below (dirs ++ [file])) : source parse c = .ok ⟨slug user repo ++ below dirs, [], file.text,
      huggingface (slug user repo ++ below dirs) file.text, 0, []⟩ := by
  unfold source
  rw [hc, resolve_file]
  rfl

/-- With directories in between the repository is another. -/
theorem Resolves.no_dirs {dirs : List Segment} {file : Segment} (h : Resolves user repo quant (dirs ++ [file])) : dirs = [] := by
  let c : PullCall := ⟨slug user repo ++ below (dirs ++ [file]), ⟨0, [], []⟩, ⟨0, [], []⟩, ⟨[], none⟩, id, none, .not_opened,
    .not_opened, []⟩
  obtain ⟨r, hr, hrepo, -⟩ := h.file (fun _ => none) c rfl
  obtain rfl := Except.ok.inj ((source_file rfl).symm.trans hr)
  have hbelow : below dirs = [] := List.append_right_eq_self.1 hrepo
  cases dirs with
  | nil => rfl
  | cons dir dirs => cases hbelow

theorem resolves_segment (file : Segment) : Resolves user repo quant [file] where
  default := resolve_default user repo
  quant := resolve_quant user repo quant
  file parse c hc := by
    refine ⟨_, @source_file user repo parse c [] file hc, by simp [below], ?_⟩
    have hmain : bytes "/resolve/main/" = bytes "/resolve/main" ++ [47] := by decide
    simp [huggingface, download_url, below, hmain]

end

/-- The three forms lead to what they name exactly if the path has one segment. -/
theorem resolves_iff (user repo quant : Segment) (segs : List Segment) (hsegs : segs ≠ []) :
    Resolves user repo quant segs ↔ segs.length = 1 := by
  obtain ⟨dirs, file, rfl⟩ : ∃ dirs file, segs = dirs ++ [file] :=
    ⟨segs.dropLast, segs.getLast hsegs, (List.dropLast_append_getLast hsegs).symm⟩
  constructor
  · intro h
    rw [h.no_dirs]
    rfl
  · intro h
    rw [List.length_append, List.length_singleton, Nat.add_eq_right] at h
    rw [List.length_eq_zero_iff.1 h]
    exact resolves_segment file

/-! ## A file in a directory -/

def toy_user : Segment := ⟨bytes "user", by decide, by decide, by decide⟩

def toy_repo : Segment := ⟨bytes "repo", by decide, by decide, by decide⟩

def toy_quant : Segment := ⟨bytes "Q4_0", by decide, by decide, by decide⟩

def toy_dir : Segment := ⟨bytes "gguf", by decide, by decide, by decide⟩

def toy_file : Segment := ⟨bytes "model.gguf", by decide, by decide, by decide⟩

theorem resolves_one : [toy_file].length = 1 ∧ Resolves toy_user toy_repo toy_quant [toy_file] :=
  ⟨rfl, (resolves_iff toy_user toy_repo toy_quant [toy_file] (List.cons_ne_nil _ _)).2 rfl⟩

/-- The directory becomes part of the repository. -/
theorem directory_in_repo :
    resolve_operand (bytes "user/repo/gguf/model.gguf") = some ⟨.repo_file, bytes "user/repo/gguf", [], bytes "model.gguf",
      bytes "https://huggingface.co/user/repo/gguf/resolve/main/model.gguf"⟩ ∧
    ¬ ∀ user repo quant segs, segs ≠ [] → Resolves user repo quant segs := by
  refine ⟨by decide +kernel, fun h => ?_⟩
  have hdirs := @Resolves.no_dirs toy_user toy_repo toy_quant [toy_dir] toy_file
    (h toy_user toy_repo toy_quant [toy_dir, toy_file] (List.cons_ne_nil _ _))
  cases hdirs

end Hostely.Models
