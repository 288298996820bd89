import Hostely.Lib.Fallible
import Hostely.Models.Pull
/-!
# What the registry says of its files

Sidecars are named after the repository and the quant, or after the URL, and data
files after the last segment alone. Pulls whose data files have different names
when their URLs differ leave every file with the content of its source.
-/

open Hostely.Lib

namespace Hostely.Models

/-! ## Names -/

theorem segments_plain (rest : Bytes) : 47 ∉ (segments rest).1 ∧ 47 ∉ (segments rest).2 := by
  unfold segments
  split
  · rename_i hnone
    exact ⟨split_first_none hnone, List.not_mem_nil⟩
  · rename_i a rest' hfirst
    split
    · rename_i hnone
      exact ⟨split_first_some hfirst, split_first_none hnone⟩
    · rename_i b _ hsecond
      exact ⟨split_first_some hfirst, split_first_some hsecond⟩

theorem recognised_plain : ∀ q ∈ bytes "unknown" :: kRecognisedQuants, 47 ∉ q ∧ 45 ∉ q ∧ clean q = q := by decide +kernel

theorem quant_of_mem (file : Bytes) : quant_of file ∈ bytes "unknown" :: kRecognisedQuants := by
  unfold quant_of
  cases h : kRecognisedQuants.find? fun q => (quant_suffix q).isSuffixOf file with
  | none => exact List.mem_cons_self
  | some q => exact List.mem_cons_of_mem _ (List.mem_of_find?_eq_some h)

theorem resolve_operand_kind {operand : Bytes} {k : Resolved} (h : resolve_operand operand = some k) :
    k = resolve_url operand ∨ k.kind = .repo_quant ∧ k.repo ≠ [] ∨ k.kind = .repo_file ∧ k.quant = [] := by
  have hrepo (user rest : Bytes) (hsplit : split_first 47 operand = some (user, rest)) : operand ≠ [] := by
    rintro rfl
    cases hsplit
  have hin (user rest : Bytes) (hsplit : split_first 47 operand = some (user, rest)) :
      (resolve_operand.in_repo operand rest).kind = .repo_quant ∧ (resolve_operand.in_repo operand rest).repo ≠ [] ∨
      (resolve_operand.in_repo operand rest).kind = .repo_file ∧ (resolve_operand.in_repo operand rest).quant = [] := by
    unfold resolve_operand.in_repo
    split
    · exact .inr ⟨rfl, rfl⟩
    · exact .inl ⟨rfl, hrepo user rest hsplit⟩
  unfold resolve_operand at h
  split at h
  · exact .inl (Option.some.inj h).symm
  · right
    obtain ⟨⟨user, rest⟩, hsplit, h⟩ := Option.bind_eq_some_iff.1 h
    dsimp only at h
    split at h
    · split at h
      · rename_i repo quant _ hlt
        obtain rfl := Option.some.inj h
        refine .inl ⟨rfl, fun hnil => ?_⟩
        have hrepo : repo = [] := hnil
        rw [hrepo] at hlt
        exact Nat.not_lt_zero _ hlt
      · obtain rfl := Option.some.inj h
        exact hin user rest hsplit
    · obtain rfl := Option.some.inj h
      exact hin user rest hsplit

section
variable {parse : Bytes → Option Json} {c c' : PullCall} {r r' : Source}

theorem ask_api_ok {k : Resolved} (h : ask_api parse c k = .ok r) :
    r.repo = k.repo ∧ r.quant ∈ bytes "unknown" :: kRecognisedQuants := by
  unfold ask_api at h
  split at h
  · split at h
    · cases h
    · split at h
      · cases h
      · obtain rfl := Except.ok.inj h
        exact ⟨rfl, quant_of_mem _⟩
  · cases h

/-- A pull of a repository with a quant, given or not. -/
def ByQuant (c : PullCall) : Prop := ∃ k, resolve_operand c.operand = some k ∧ k.kind = .repo_quant

theorem source_by_quant (hc : ByQuant c) (h : source parse c = .ok r) :
    r.repo ≠ [] ∧ r.quant ∈ bytes "unknown" :: kRecognisedQuants := by
  obtain ⟨k, hk, hkind⟩ := hc
  unfold source at h
  rw [hk] at h
  dsimp only at h
  rw [if_pos hkind] at h
  obtain ⟨hrepo, hquant⟩ := ask_api_ok h
  refine ⟨?_, hquant⟩
  rw [hrepo]
  rcases resolve_operand_kind hk with rfl | hk | hk
  · cases hkind
  · exact hk.2
  · cases hk.1.symm.trans hkind

theorem source_quant_plain (h : source parse c = .ok r) : 47 ∉ r.quant := by
  unfold source at h
  split at h
  · cases h
  · rename_i k hk
    split at h
    · exact (recognised_plain _ (ask_api_ok h).2).1
    · rename_i hkind
      obtain rfl := Except.ok.inj h
      dsimp only
      rcases resolve_operand_kind hk with rfl | hk | hk
      · unfold resolve_url
        dsimp only
        cases hq : kRecognisedQuants.find? _ with
        | none => exact List.not_mem_nil
        | some q => exact (recognised_plain q (List.mem_cons_of_mem _ (List.mem_of_find?_eq_some hq))).1
      · exact absurd hk.1 hkind
      · rw [hk.2]
        exact List.not_mem_nil

theorem stem_plain (h : source parse c = .ok r) : 47 ∉ r.stem ∧ r.stem ≠ [] := by
  have hdashes : bytes "--" ≠ [] := by decide
  unfold Source.stem
  split
  · obtain ⟨ha, hb⟩ := segments_plain (url_path r.url)
    have hquant := source_quant_plain h
    constructor
    · simp only [List.mem_append, not_or]
      refine ⟨⟨⟨⟨?_, by decide⟩, ?_⟩, by decide⟩, ?_⟩
      · split
        · decide
        · exact ha
      · split
        · decide
        · exact hb
      · split
        · decide
        · exact hquant
    · simp [hdashes]
  · unfold make_stem
    refine ⟨?_, by simp [hdashes]⟩
    simp only [List.mem_append, not_or]
    exact ⟨⟨clean_plain _, by decide⟩, clean_plain _⟩

theorem sidecar_eq_iff (dir : Bytes) (h : source parse c = .ok r) (h' : source parse c' = .ok r') :
    r.sidecar dir = r'.sidecar dir ↔ r.stem = r'.stem := sidecar_inj (stem_plain h).1 (stem_plain h').1

theorem stem_by_quant (hc : ByQuant c) (hc' : ByQuant c') (h : source parse c = .ok r) (h' : source parse c' = .ok r') :
    r.stem = r'.stem ↔ clean r.repo = clean r'.repo ∧ r.quant = r'.quant := by
  obtain ⟨hrepo, hquant⟩ := source_by_quant hc h
  obtain ⟨hrepo', hquant'⟩ := source_by_quant hc' h'
  obtain ⟨-, hdash, hclean⟩ := recognised_plain _ hquant
  obtain ⟨-, hdash', hclean'⟩ := recognised_plain _ hquant'
  unfold Source.stem
  rw [if_neg hrepo, if_neg hrepo', make_stem_inj (hclean.symm ▸ hdash) (hclean'.symm ▸ hdash'), hclean, hclean']

end

/-! ## Contents -/

/-- Data files of different URLs have different names, and none has the name of a
temporary file or of a sidecar. -/
structure Apart (dir : Bytes) (rs : List Source) : Prop where
  data : ∀ r ∈ rs, ∀ r' ∈ rs, r.dest_gguf dir = r'.dest_gguf dir → r.url = r'.url
  tmp : ∀ r ∈ rs, ∀ r' ∈ rs, r.dest_gguf dir ≠ r'.tmp_gguf dir
  toml : ∀ r ∈ rs, extension (r.dest_gguf dir) ≠ bytes ".toml"

/-- The file was downloaded for one of the pulls, to be its data file. -/
def IsData (dir : Bytes) (rs : List Source) (downloads : List (Bytes × File)) (path : Bytes) (file : File) : Prop :=
  ∃ r ∈ rs, path = r.dest_gguf dir ∧ (r.url, file) ∈ downloads

/-- The file is the sidecar of one of the pulls, or what is left of one. -/
def IsSidecar (dir : Bytes) (rs : List Source) (path : Bytes) (file : File) : Prop :=
  ∃ r ∈ rs, path = r.sidecar dir ∧ ∀ t, file.table = some t →
    t.source = r.url ∧ t.path = stored_path (r.dest_gguf dir) (r.sidecar dir)

/-- Every file is one or the other. -/
def Accounted (dir : Bytes) (rs : List Source) (s : Disk) : Prop :=
  ∀ path file, s.files.lookup path = some file → IsData dir rs s.downloads path file ∨ IsSidecar dir rs path file

section
variable {dir : Bytes} {rs : List Source} {s : Disk} {r : Source} {c : PullCall}

theorem accounted_write (hs : Accounted dir rs s) (hr : r ∈ rs) (size_bytes : UInt64) (now : Bytes) (w : Written) :
    Accounted dir rs ⟨(write_manifest (r.manifest dir size_bytes now) w s.files).1, s.downloads⟩ := by
  have hassign (file : File) (hfile : ∀ t, file.table = some t → t.source = r.url ∧
      t.path = stored_path (r.dest_gguf dir) (r.sidecar dir)) :
      Accounted dir rs ⟨assign (r.sidecar dir) file s.files, s.downloads⟩ := by
    intro path file' h
    rw [lookup_assign] at h
    split at h
    · rename_i hpath
      obtain rfl := Option.some.inj h
      exact .inr ⟨r, hr, eq_of_beq hpath, hfile⟩
    · exact hs path file' h
  cases w with
  | not_opened => exact hs
  | torn text => exact hassign ⟨text, none⟩ nofun
  | whole text =>
    refine hassign _ fun t ht => ?_
    obtain rfl := Option.some.inj ht
    exact ⟨rfl, rfl⟩

theorem accounted_remove (hs : Accounted dir rs s) (path : Bytes) : Accounted dir rs ⟨remove path s.files, s.downloads⟩ :=
  fun q file h => hs q file (lookup_remove h)

theorem accounted_data (hs : Accounted dir rs s) (hr : r ∈ rs) (file : File) :
    Accounted dir rs ⟨assign (r.dest_gguf dir) file s.files, s.downloads ++ [(r.url, file)]⟩ := by
  intro path file' h
  rw [lookup_assign] at h
  split at h
  · rename_i hpath
    obtain rfl := Option.some.inj h
    exact .inl ⟨r, hr, eq_of_beq hpath, List.mem_append_right _ List.mem_cons_self⟩
  · refine (hs path file' h).imp_left ?_
    rintro ⟨r', hr', hpath, hdownload⟩
    exact ⟨r', hr', hpath, List.mem_append_left _ hdownload⟩

theorem child_suffix {name suffix : Bytes} (h : suffix <:+ name) : suffix <:+ child dir name := by
  unfold child
  split
  · exact h
  · exact h.trans ⟨dir ++ [47], by simp⟩

/-- The last bytes tell the paths apart. -/
theorem ne_of_suffix {p q a b : Bytes} (hp : a <:+ p) (hq : b <:+ q) {x y : UInt8} (ha : a.getLast? = some x)
    (hb : b.getLast? = some y) (hne : x ≠ y) : p ≠ q := by
  obtain ⟨p', rfl⟩ := hp
  obtain ⟨q', rfl⟩ := hq
  intro heq
  have hlast := congrArg List.getLast? heq
  rw [List.getLast?_append, List.getLast?_append, ha, hb, Option.some_or, Option.some_or] at hlast
  exact hne (Option.some.inj hlast)

theorem sidecar_suffix : bytes ".toml" <:+ r.sidecar dir := child_suffix (List.suffix_append _ _)

theorem sidecar_ne_tmp (dir : Bytes) (r r' : Source) : r.sidecar dir ≠ r'.tmp_gguf dir := by
  have htmp : bytes ".tmp" <:+ r'.tmp_gguf dir := List.suffix_append _ _
  exact ne_of_suffix sidecar_suffix htmp (x := 108) (y := 112) (by decide) (by decide) (by decide)

/-- There is never a temporary file when a pull begins. -/
theorem tmp_free (hapart : Apart dir rs) (hs : Accounted dir rs s) (hr : r ∈ rs) : s.files.lookup (r.tmp_gguf dir) = none := by
  cases h : s.files.lookup (r.tmp_gguf dir) with
  | none => rfl
  | some file =>
    rcases hs _ file h with ⟨r', hr', hpath, -⟩ | ⟨r', hr', hpath, -⟩
    · exact absurd hpath.symm (hapart.tmp r' hr' r hr)
    · exact absurd hpath.symm (sidecar_ne_tmp dir r' r)

theorem accounted_fetch (hapart : Apart dir rs) (hs : Accounted dir rs s) (hr : r ∈ rs) {s' : Disk} {m : Manifest}
    (h : fetch dir s r c = (s', .ok m)) : Accounted dir rs s' := by
  unfold fetch at h
  split at h
  · cases (Prod.mk.inj h).2
  · dsimp only at h
    split at h
    · cases (Prod.mk.inj h).2
    · -- curl started from nothing, so the file is the remote one
      rw [tmp_free hapart hs hr] at h
      split at h
      · cases (Prod.mk.inj h).2
      · obtain ⟨rfl, -⟩ := Prod.mk.inj h
        exact accounted_write (accounted_data (accounted_remove hs _) hr c.remote) hr _ _ _

theorem accounted_store (hapart : Apart dir rs) (hs : Accounted dir rs s) (hr : r ∈ rs) {s' : Disk} {m : Manifest}
    (h : store dir s r c = (s', .ok m)) : Accounted dir rs s' := by
  have hwritten := accounted_write hs hr r.size_bytes c.now c.first_written
  unfold store at h
  split at h
  · dsimp only at h
    split at h
    · obtain ⟨rfl, -⟩ := Prod.mk.inj h
      exact hwritten
    · exact accounted_fetch hapart hwritten hr h
  · exact accounted_fetch hapart hs hr h

end

/-! ## Runs -/

section
variable {parse : Bytes → Option Json} {dir : Directory} {calls : List PullCall} {s : Disk}

/-- What the pulls download. -/
def sources (parse : Bytes → Option Json) (calls : List PullCall) : List Source :=
  calls.filterMap fun c => (source parse c).toOption

theorem mem_sources {r : Source} : r ∈ sources parse calls ↔ ∃ c ∈ calls, source parse c = .ok r := by
  unfold sources
  rw [List.mem_filterMap]
  refine exists_congr fun c => and_congr_right fun _ => ?_
  cases source parse c <;> simp [Except.toOption]

theorem pull_ok_some {s s' : Disk} {c : PullCall} (h : pull_ok parse dir.path s c = some s') :
    ∃ r m, source parse c = .ok r ∧ store dir.path s r c = (s', .ok m) := by
  obtain ⟨hok, h⟩ := Option.ite_none_right_eq_some.1 h
  have hs' := Option.some.inj h
  unfold pull at hok hs'
  cases hsource : source parse c with
  | error e =>
    rw [hsource] at hok
    cases hok
  | ok r =>
    rw [hsource] at hok hs'
    dsimp only at hok hs'
    cases hm : (store dir.path s r c).2 with
    | error e =>
      rw [hm] at hok
      cases hok
    | ok m => exact ⟨r, m, rfl, Prod.ext hs' hm⟩

theorem pulls_accounted (hapart : Apart dir.path (sources parse calls)) (hrun : pulls parse dir.path calls = some s) :
    Accounted dir.path (sources parse calls) s := by
  refine foldlM_some_inv (Accounted dir.path (sources parse calls)) (fun _ _ h => by cases h) ?_ hrun
  intro s c hc s' hs hstep
  obtain ⟨r, m, hsource, hstore⟩ := pull_ok_some hstep
  exact accounted_store hapart hs (mem_sources.2 ⟨c, hc, hsource⟩) hstore

theorem mem_list {dir : Bytes} {files : Files} {m : Manifest} (h : m ∈ list dir files) :
    ∃ path, parent_path path = dir ∧ extension path = bytes ".toml" ∧ read_manifest files path = some m := by
  obtain ⟨e, he, hm⟩ := List.mem_filterMap.1 (List.mem_mergeSort.1 h)
  have hsidecar := (List.mem_filter.1 he).2
  unfold is_sidecar at hsidecar
  rw [Bool.and_eq_true, decide_eq_true_iff, decide_eq_true_iff] at hsidecar
  exact ⟨e.1, hsidecar.1, hsidecar.2, hm⟩

theorem read_manifest_some {files : Files} {path : Bytes} {m : Manifest} (h : read_manifest files path = some m) :
    ∃ file t, files.lookup path = some file ∧ file.table = some t ∧ m.source = t.source ∧
      (m.path ≠ [] → m.path = anchored (parent_path path) t.path ∧ (files.lookup m.path).isSome = true) := by
  obtain ⟨file, hfile, h⟩ := Option.bind_eq_some_iff.1 h
  obtain ⟨t, ht, h⟩ := Option.bind_eq_some_iff.1 h
  obtain rfl := Option.some.inj h
  refine ⟨file, t, hfile, ht, rfl, fun hne => ?_⟩
  dsimp only at hne ⊢
  split at hne
  · rename_i hexists
    rw [if_pos hexists]
    exact ⟨rfl, hexists⟩
  · exact absurd rfl hne

/-- A manifest listed where every file is accounted for is of the content of its file. -/
theorem accounted_content {rs : List Source} (hrs : ∀ r ∈ rs, ∃ c, source parse c = .ok r) (hapart : Apart dir.path rs)
    (hall : Accounted dir.path rs s) {m : Manifest} (hm : m ∈ list dir.path s.files) (hpath : m.path ≠ []) :
    ∃ file, s.files.lookup m.path = some file ∧ (m.source, file) ∈ s.downloads := by
  obtain ⟨path, hparent, htoml, hread⟩ := mem_list hm
  obtain ⟨sidecar, t, hsidecar, ht, hsource, hdata⟩ := read_manifest_some hread
  obtain ⟨hdest, hexists⟩ := hdata hpath
  -- the sidecar is that of some pull, its file the data of a pull from the same URL
  rcases hall path sidecar hsidecar with ⟨r, hr, rfl, -⟩ | ⟨r, hr, rfl, htable⟩
  · exact absurd htoml (hapart.toml r hr)
  · obtain ⟨hurl, hstored⟩ := htable t ht
    rw [hparent, hstored, Source.dest_gguf, anchored_stored dir _ hparent] at hdest
    obtain ⟨file, hfile⟩ := Option.isSome_iff_exists.1 hexists
    refine ⟨file, hfile, ?_⟩
    rcases hall m.path file hfile with ⟨r', hr', hr'path, hdownload⟩ | ⟨r', hr', hr'path, -⟩
    · rw [hsource, hurl, hapart.data r hr r' hr' (hdest.symm.trans hr'path)]
      exact hdownload
    · obtain ⟨c, hc⟩ := hrs r' hr'
      have hextension := @sidecar_extension dir.path r'.stem (stem_plain hc).1 (stem_plain hc).2
      exact absurd ((congrArg extension (hdest.symm.trans hr'path)).trans hextension) (hapart.toml r hr)

/-- Every manifest listed is of the content of its file. -/
theorem list_content (hapart : Apart dir.path (sources parse calls)) (hrun : pulls parse dir.path calls = some s) {m : Manifest}
    (hm : m ∈ list dir.path s.files) (hpath : m.path ≠ []) :
    ∃ file, s.files.lookup m.path = some file ∧ (m.source, file) ∈ s.downloads :=
  accounted_content (fun _ hr => (mem_sources.1 hr).imp fun _ hc => hc.2) hapart (pulls_accounted hapart hrun) hm hpath

/-- Of pulls into an empty directory two write the same sidecar exactly if they have
the same stem, which with quants is that of the repository and the quant of the file;
and when the data files are apart, every manifest listed is of the content of its
file. -/
theorem registry_integrity (hrun : pulls parse dir.path calls = some s) :
    (∀ c ∈ calls, ∀ c' ∈ calls, ∀ r r', source parse c = .ok r → source parse c' = .ok r' →
      (r.sidecar dir.path = r'.sidecar dir.path ↔ r.stem = r'.stem) ∧
      (ByQuant c → ByQuant c' →
        (r.sidecar dir.path = r'.sidecar dir.path ↔ clean r.repo = clean r'.repo ∧ r.quant = r'.quant))) ∧
    (Apart dir.path (sources parse calls) → ∀ m ∈ list dir.path s.files, m.path ≠ [] →
      ∃ file, s.files.lookup m.path = some file ∧ (m.source, file) ∈ s.downloads) := by
  refine ⟨fun c _ c' _ r r' h h' => ⟨sidecar_eq_iff dir.path h h', fun hc hc' => ?_⟩,
    fun hapart m hm hpath => list_content hapart hrun hm hpath⟩
  rw [sidecar_eq_iff dir.path h h', stem_by_quant hc hc' h h']

end

/-! ## Two files of one quant -/

def models : Directory := ⟨bytes "/models", by decide⟩

/-- A repository with two files of the quant `Q4_K_M`. -/
def two_files : Bytes → Option Json := fun _ => some <| .obj [(bytes "siblings", .arr [
  .obj [(bytes "rfilename", .str (bytes "a.Q4_K_M.gguf")), (bytes "size", .num 2)],
  .obj [(bytes "rfilename", .str (bytes "b.Q4_K_M.gguf")), (bytes "size", .num 1)]])]

def pulled (operand text : Bytes) : PullCall where
  operand := operand
  api := ⟨0, [], []⟩
  download := ⟨0, bytes "\nhostely_marker:200:2:0.5\n", []⟩
  remote := ⟨text, none⟩
  resumed file := ⟨file.text ++ text, none⟩
  renamed := none
  first_written := .whole []
  written := .whole []
  now := bytes "2025-01-01T00:00:00Z"

/-- The quant that is there gets the larger file, and one that is not the smaller. -/
def two_pulls : List PullCall := [pulled (bytes "user/repo:Q4_K_M") [1, 2], pulled (bytes "user/repo:Q8_0") [3]]

theorem registry_integrity_two :
    (pulls two_files models.path two_pulls).isSome ∧ Apart models.path (sources two_files two_pulls) ∧
    ∀ s, pulls two_files models.path two_pulls = some s → ∀ m ∈ list models.path s.files, m.path ≠ [] →
      ∃ file, s.files.lookup m.path = some file ∧ (m.source, file) ∈ s.downloads := by
  have hapart : Apart models.path (sources two_files two_pulls) := ⟨by decide +kernel, by decide +kernel, by decide +kernel⟩
  exact ⟨by decide +kernel, hapart, fun s hrun => (registry_integrity hrun).2 hapart⟩

/-- The second pull writes the sidecar of the first. -/
theorem two_pulls_share_sidecar :
    ¬ ∀ (parse : Bytes → Option Json) (dir : Directory) (calls : List PullCall) (s : Disk), pulls parse dir.path calls = some s →
      (∀ c ∈ calls, ∀ c' ∈ calls, ∀ r r', source parse c = .ok r → source parse c' = .ok r' → r.url ≠ r'.url →
        r.sidecar dir.path ≠ r'.sidecar dir.path) ∧
      ∀ m ∈ list dir.path s.files, m.path ≠ [] →
        ∃ file, s.files.lookup m.path = some file ∧ (m.source, file) ∈ s.downloads := by
  intro h
  have hrun : (pulls two_files models.path two_pulls).isSome := by decide +kernel
  obtain ⟨s, hs⟩ := Option.isSome_iff_exists.1 hrun
  have hfirst : ∃ r, source two_files (pulled (bytes "user/repo:Q4_K_M") [1, 2]) = .ok r ∧
      r.url = bytes "https://huggingface.co/user/repo/resolve/main/a.Q4_K_M.gguf" ∧
      r.sidecar models.path = bytes "/models/user_repo--Q4_K_M.toml" := ⟨_, rfl, by decide +kernel, by decide +kernel⟩
  have hsecond : ∃ r, source two_files (pulled (bytes "user/repo:Q8_0") [3]) = .ok r ∧
      r.url = bytes "https://huggingface.co/user/repo/resolve/main/b.Q4_K_M.gguf" ∧
      r.sidecar models.path = bytes "/models/user_repo--Q4_K_M.toml" := ⟨_, rfl, by decide +kernel, by decide +kernel⟩
  obtain ⟨r, hr, hurl, hsidecar⟩ := hfirst
  obtain ⟨r', hr', hurl', hsidecar'⟩ := hsecond
  refine (h two_files models two_pulls s hs).1 _ (.head _) _ (.tail _ (.head _)) r r' hr hr' ?_ (hsidecar.trans hsidecar'.symm)
  rw [hurl, hurl']
  decide +kernel

end Hostely.Models
