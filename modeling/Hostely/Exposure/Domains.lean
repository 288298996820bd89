import Hostely.Exposure.Saving
import Hostely.Lib.Fallible
import Hostely.Lib.Paths
import Mathlib.Data.List.Forall2
import Mathlib.Data.Set.Basic
/-!
# The directories of the domains

`domain_dir` makes one name of a domain, which the file system then resolves in
`certs_dir`. Slashes become `_`, and `.` and `..` stay what they are. Here the store
is the whole tree of files, of which `Saving` has the directories of `certs_dir`.
-/

open Hostely.Lib

namespace Hostely.Exposure.Domains

open Saving (Stored FileIo StoreIo DomainFiles)

/-! ## The store in the tree -/

/-- A domain as commands and handshakes have it: a C string that is not empty. -/
structure Domain where
  name : Bytes
  nonempty : name ≠ []
  no_nul : 0 ∉ name
deriving DecidableEq

abbrev Tree := Files (List Bytes) Stored

/-- How a removal goes: with an error it leaves some of the files. -/
structure RemoveIo where
  error : Bool
  left : List Bytes → Bool

section
variable (cwd : List Bytes) (certs_dir : Bytes)

/-- The whole path. -/
def domain_path (domain : Domain) : Bytes := slash certs_dir (domain_dir domain.name)

/-- Where it leads. -/
def home (domain : Domain) : List Bytes := resolve cwd (domain_path certs_dir domain)

def write_file_private (io : FileIo) (save : Nat) (path data : Bytes) (tree : Tree) : Bool × Tree :=
  let (ok, file) := Saving.write_file_private io save data (tree (resolve cwd path))
  (ok, Function.update tree (resolve cwd path) file)

def cert_store_save (io : StoreIo) (save : Nat) (domain : Domain) (cert_pem key_pem : Bytes) (meta_text : Option Bytes)
    (tree : Tree) : Option Bool × Tree :=
  let dir := domain_path certs_dir domain
  let (ok, tree) := write_file_private cwd io.cert save (slash dir (bytes "cert.pem")) cert_pem tree
  if !ok then (some false, tree)
  else
    let (ok, tree) := if key_pem ≠ [] then write_file_private cwd io.key save (slash dir (bytes "key.pem")) key_pem tree
      else (true, tree)
    if !ok then (some false, tree)
    else if !io.meta_json.opens then (some false, tree)
    else
      let out := resolve cwd (slash dir (bytes "meta.json"))
      match meta_text with
      | none => (none, Function.update tree out (some ⟨save, []⟩))
      | some text => (some true, Function.update tree out (some ⟨save, io.meta_json.left text⟩))

/-- `remove_all` of what is at the path. -/
def cert_store_remove (io : RemoveIo) (domain : Domain) (tree : Tree) : Bool × Tree :=
  (!io.error, fun path => if (home cwd certs_dir domain).isPrefixOf path && !(io.error && io.left path) then none else tree path)

inductive Call where
  | save (io : StoreIo) (save : Nat) (domain : Domain) (cert_pem key_pem : Bytes) (meta_text : Option Bytes)
  | remove (io : RemoveIo) (domain : Domain)

def Call.domain : Call → Domain
  | save _ _ domain _ _ _ => domain
  | remove _ domain => domain

def perform (tree : Tree) : Call → Tree
  | .save io save domain cert_pem key_pem meta_text =>
    (cert_store_save cwd certs_dir io save domain cert_pem key_pem meta_text tree).2
  | .remove io domain => (cert_store_remove cwd certs_dir io domain tree).2

/-- The tree after some calls. -/
def performs (calls : List Call) (tree : Tree) : Tree := calls.foldl (perform cwd certs_dir) tree

/-! ## Confinement -/

/-- Every domain of the set has a directory of its own in `certs_dir`, and calls for
some of them leave the files of the others alone, and those outside. -/
structure Confined (used : Set Domain) : Prop where
  child : ∀ d ∈ used, ∃ name, home cwd certs_dir d = resolve cwd certs_dir ++ [name]
  distinct : ∀ d ∈ used, ∀ d' ∈ used, d ≠ d' → home cwd certs_dir d ≠ home cwd certs_dir d'
  others : ∀ calls tree, (∀ c ∈ calls, c.domain ∈ used) → ∀ d ∈ used, (∀ c ∈ calls, c.domain ≠ d) →
    ∀ path, home cwd certs_dir d <+: path → performs cwd certs_dir calls tree path = tree path
  outside : ∀ calls tree, (∀ c ∈ calls, c.domain ∈ used) →
    ∀ path, ¬ resolve cwd certs_dir <+: path → performs cwd certs_dir calls tree path = tree path

end

/-- The characters that become `_`, and it. -/
def Slashed (c : UInt8) : Prop := c = 47 ∨ c = 92 ∨ c = 95

/-- Equal but for slashes and underscores. -/
def Alike (a b : Bytes) : Prop := List.Forall₂ (fun c d => c = d ∨ Slashed c ∧ Slashed d) a b

section
variable {cwd : List Bytes} {certs_dir : Bytes} {a b : Bytes}

theorem domain_dir_plain (domain : Bytes) : 47 ∉ domain_dir domain := by
  unfold domain_dir
  rw [List.mem_map]
  rintro ⟨c, -, hc⟩
  split at hc
  · exact absurd hc (by decide)
  · rename_i hslash
    exact hslash (by simp [hc])

theorem domain_dir_eq_iff : domain_dir a = domain_dir b ↔ Alike a b := by
  have hpoint (c d : UInt8) : (if c = 47 || c = 92 then 95 else c) = (if d = 47 || d = 92 then 95 else d) ↔
      c = d ∨ Slashed c ∧ Slashed d := by
    unfold Slashed
    by_cases hc : c = 47 ∨ c = 92 <;> by_cases hd : d = 47 ∨ d = 92 <;> grind
  unfold domain_dir Alike
  rw [← List.forall₂_eq_eq_eq, List.forall₂_map_left_iff, List.forall₂_map_right_iff]
  simp only [hpoint]

/-- Dots come from dots only. -/
theorem domain_dir_dots (n : Nat) : domain_dir a = List.replicate n 46 ↔ a = List.replicate n 46 := by
  have hdot (c : UInt8) : (if c = 47 || c = 92 then 95 else c) = 46 ↔ c = 46 := by
    by_cases hc : c = 47 ∨ c = 92 <;> grind
  simp only [domain_dir, List.eq_replicate_iff, List.length_map, List.forall_mem_map, hdot]

theorem home_eq (d : Domain) : home cwd certs_dir d = enter (resolve cwd certs_dir) (domain_dir d.name) :=
  resolve_slash cwd certs_dir (domain_dir_plain d.name)

theorem domain_dir_nonempty (d : Domain) : domain_dir d.name ≠ [] := by simp [domain_dir, d.nonempty]

theorem home_child_iff (d : Domain) :
    (∃ name, home cwd certs_dir d = resolve cwd certs_dir ++ [name]) ↔ d.name ≠ bytes "." ∧ d.name ≠ bytes ".." := by
  rw [home_eq, child_iff (domain_dir_nonempty d)]
  exact and_congr (not_congr (domain_dir_dots 1)) (not_congr (domain_dir_dots 2))

/-- A domain that is no dots has a proper directory. -/
theorem home_proper {d : Domain} (h : d.name ≠ bytes "." ∧ d.name ≠ bytes "..") :
    home cwd certs_dir d = resolve cwd certs_dir ++ [domain_dir d.name] := by
  rw [home_eq]
  exact enter_proper ⟨domain_dir_nonempty d, fun he => h.1 ((domain_dir_dots 1).1 he), fun he => h.2 ((domain_dir_dots 2).1 he)⟩

/-! ## What a call touches -/

variable {tree : Tree} {path : List Bytes} {d : Domain}

/-- A file of the directory is in it, whatever it is called. -/
theorem resolve_file (d : Domain) {file : Bytes} (hfile : Proper file) (hplain : 47 ∉ file) :
    resolve cwd (slash (domain_path certs_dir d) file) = home cwd certs_dir d ++ [file] := by
  rw [resolve_slash cwd _ hplain, enter_proper hfile]
  rfl

theorem proper_cert : Proper (bytes "cert.pem") ∧ 47 ∉ bytes "cert.pem" := ⟨⟨by decide, by decide, by decide⟩, by decide⟩

theorem proper_key : Proper (bytes "key.pem") ∧ 47 ∉ bytes "key.pem" := ⟨⟨by decide, by decide, by decide⟩, by decide⟩

theorem proper_meta : Proper (bytes "meta.json") ∧ 47 ∉ bytes "meta.json" := ⟨⟨by decide, by decide, by decide⟩, by decide⟩

/-- A file that is not below the directory is none of its files. -/
theorem update_other {file : Bytes} {content : Option Stored} (h : ¬ home cwd certs_dir d <+: path) :
    Function.update tree (home cwd certs_dir d ++ [file]) content path = tree path := by
  refine Function.update_of_ne ?_ _ _
  rintro rfl
  exact h (List.prefix_append _ _)

theorem write_other {io : FileIo} {save : Nat} {data file : Bytes} (hfile : Proper file ∧ 47 ∉ file)
    (h : ¬ home cwd certs_dir d <+: path) :
    (write_file_private cwd io save (slash (domain_path certs_dir d) file) data tree).2 path = tree path := by
  unfold write_file_private
  rw [resolve_file d hfile.1 hfile.2]
  exact update_other h

theorem save_other {io : StoreIo} {save : Nat} {cert_pem key_pem : Bytes} {meta_text : Option Bytes}
    (h : ¬ home cwd certs_dir d <+: path) :
    (cert_store_save cwd certs_dir io save d cert_pem key_pem meta_text tree).2 path = tree path := by
  have hcert := @write_other cwd certs_dir tree path d io.cert save cert_pem _ proper_cert h
  unfold cert_store_save
  dsimp only
  generalize write_file_private cwd io.cert save (slash (domain_path certs_dir d) (bytes "cert.pem")) cert_pem tree = first at *
  have hkey : (if key_pem ≠ [] then
      write_file_private cwd io.key save (slash (domain_path certs_dir d) (bytes "key.pem")) key_pem first.2
      else (true, first.2)).2 path = tree path := by
    split
    · exact (write_other proper_key h).trans hcert
    · exact hcert
  generalize (if key_pem ≠ [] then
      write_file_private cwd io.key save (slash (domain_path certs_dir d) (bytes "key.pem")) key_pem first.2
      else (true, first.2)) = second at *
  have hmeta (content : Option Stored) :
      Function.update second.2 (resolve cwd (slash (domain_path certs_dir d) (bytes "meta.json"))) content path = tree path := by
    rw [resolve_file d proper_meta.1 proper_meta.2]
    exact (update_other h).trans hkey
  -- however far the call gets
  cases first.1 with
  | false => exact hcert
  | true => cases second.1 <;> cases io.meta_json.opens <;> cases meta_text <;> first | exact hkey | exact hmeta _

theorem perform_other {c : Call} (h : ¬ home cwd certs_dir c.domain <+: path) : perform cwd certs_dir tree c path = tree path := by
  cases c with
  | save io save domain cert_pem key_pem meta_text => exact save_other h
  | remove io domain =>
    refine if_neg fun he => h ?_
    rw [Bool.and_eq_true] at he
    exact List.isPrefixOf_iff_prefix.1 he.1

/-- Calls touch nothing that is in none of their directories. -/
theorem performs_other {calls : List Call} (h : ∀ c ∈ calls, ¬ home cwd certs_dir c.domain <+: path) :
    performs cwd certs_dir calls tree path = tree path := by
  unfold performs
  refine @foldl_inv _ _ calls (fun t => t path = tree path) (perform cwd certs_dir) tree rfl fun t c hc ht => ?_
  rw [perform_other (h c hc), ht]

end

/-- The domains of a set are kept apart exactly if none of them is `.` or `..` and no
two differ only in slashes and underscores. -/
theorem confined_iff (cwd : List Bytes) (certs_dir : Bytes) (used : Set Domain) : Confined cwd certs_dir used ↔
    (∀ d ∈ used, d.name ≠ bytes "." ∧ d.name ≠ bytes "..") ∧ ∀ d ∈ used, ∀ d' ∈ used, Alike d.name d'.name → d = d' := by
  constructor
  · intro h
    refine ⟨fun d hd => (home_child_iff d).1 (h.child d hd), fun d hd d' hd' halike => ?_⟩
    by_contra hne
    refine h.distinct d hd d' hd' hne ?_
    rw [home_eq, home_eq, domain_dir_eq_iff.2 halike]
  · rintro ⟨hdots, halike⟩
    -- what is in two of the directories is in one
    have hown (d : Domain) (hd : d ∈ used) (d' : Domain) (hd' : d' ∈ used) (path : List Bytes)
        (h : home cwd certs_dir d <+: path) (h' : home cwd certs_dir d' <+: path) : d = d' := by
      rw [home_proper (hdots d hd)] at h
      rw [home_proper (hdots d' hd')] at h'
      exact halike d hd d' hd' (domain_dir_eq_iff.1 (children_disjoint h h'))
    refine ⟨fun d hd => (home_child_iff d).2 (hdots d hd), fun d hd d' hd' hne heq => ?_, ?_, ?_⟩
    · exact hne (hown d hd d' hd' _ (List.prefix_refl _) (heq ▸ List.prefix_refl _))
    · intro calls tree hcalls d hd hothers path hpath
      exact performs_other fun c hc h => hothers c hc (hown _ (hcalls c hc) d hd path h hpath)
    · intro calls tree hcalls path hpath
      refine performs_other fun c hc h => hpath ?_
      rw [home_proper (hdots _ (hcalls c hc))] at h
      exact (List.prefix_append _ _).trans h

/-! ## The store of a directory -/

/-- The files of the directories of `certs_dir`. -/
def view (cwd : List Bytes) (certs_dir : Bytes) (tree : Tree) : Saving.Store := fun dir =>
  let file := fun name => tree (resolve cwd certs_dir ++ [dir] ++ [name])
  ⟨file (bytes "cert.pem"), file (bytes "key.pem"), file (bytes "meta.json")⟩

/-- A file of a directory is replaced. -/
def put (files : DomainFiles) (name : Bytes) (content : Option Stored) : DomainFiles where
  cert_pem := if name = bytes "cert.pem" then content else files.cert_pem
  key_pem := if name = bytes "key.pem" then content else files.key_pem
  meta_json := if name = bytes "meta.json" then content else files.meta_json

section
variable {cwd : List Bytes} {certs_dir : Bytes} {tree : Tree} {d : Domain}

theorem names_distinct : bytes "cert.pem" ≠ bytes "key.pem" ∧ bytes "cert.pem" ≠ bytes "meta.json" ∧
    bytes "key.pem" ≠ bytes "meta.json" := by decide

theorem put_cert (files : DomainFiles) (content : Option Stored) :
    put files (bytes "cert.pem") content = { files with cert_pem := content } := by
  simp [put, names_distinct]

theorem put_key (files : DomainFiles) (content : Option Stored) :
    put files (bytes "key.pem") content = { files with key_pem := content } := by
  simp [put, names_distinct, names_distinct.1.symm]

theorem put_meta (files : DomainFiles) (content : Option Stored) :
    put files (bytes "meta.json") content = { files with meta_json := content } := by
  simp [put, names_distinct.2.1.symm, names_distinct.2.2.symm]

theorem view_update (dir name : Bytes) (content : Option Stored) :
    view cwd certs_dir (Function.update tree (resolve cwd certs_dir ++ [dir] ++ [name]) content) =
      Function.update (view cwd certs_dir tree) dir (put (view cwd certs_dir tree dir) name content) := by
  funext a
  by_cases ha : a = dir
  · subst ha
    simp [view, put, Function.update_apply, eq_comm]
  · simp [view, ha]

theorem view_write (h : d.name ≠ bytes "." ∧ d.name ≠ bytes "..") (io : FileIo) (save : Nat) (data : Bytes) {name : Bytes}
    (hname : Proper name ∧ 47 ∉ name) {old : Option Stored}
    (hold : tree (resolve cwd certs_dir ++ [domain_dir d.name] ++ [name]) = old) :
    (write_file_private cwd io save (slash (domain_path certs_dir d) name) data tree).1 =
        (Saving.write_file_private io save data old).1 ∧
      view cwd certs_dir (write_file_private cwd io save (slash (domain_path certs_dir d) name) data tree).2 =
        Function.update (view cwd certs_dir tree) (domain_dir d.name)
          (put (view cwd certs_dir tree (domain_dir d.name)) name (Saving.write_file_private io save data old).2) := by
  unfold write_file_private
  rw [resolve_file d hname.1 hname.2, home_proper h, hold]
  exact ⟨rfl, view_update _ _ _⟩

/-- In its directory a save is the one of the store. -/
theorem save_view (h : d.name ≠ bytes "." ∧ d.name ≠ bytes "..") (io : StoreIo) (save : Nat) (cert_pem key_pem : Bytes)
    (meta_text : Option Bytes) :
    (cert_store_save cwd certs_dir io save d cert_pem key_pem meta_text tree).1 =
        (Saving.cert_store_save io save d.name cert_pem key_pem meta_text (view cwd certs_dir tree)).1 ∧
      view cwd certs_dir (cert_store_save cwd certs_dir io save d cert_pem key_pem meta_text tree).2 =
        (Saving.cert_store_save io save d.name cert_pem key_pem meta_text (view cwd certs_dir tree)).2 := by
  obtain ⟨hok, hcert⟩ := @view_write cwd certs_dir tree d h io.cert save cert_pem _ proper_cert
    (view cwd certs_dir tree (domain_dir d.name)).cert_pem rfl
  unfold cert_store_save Saving.cert_store_save
  dsimp only
  generalize view cwd certs_dir tree = store at *
  generalize write_file_private cwd io.cert save (slash (domain_path certs_dir d) (bytes "cert.pem")) cert_pem tree = first at *
  generalize Saving.write_file_private io.cert save cert_pem (store (domain_dir d.name)).cert_pem = cert at *
  rw [put_cert] at hcert
  have hold : first.2 (resolve cwd certs_dir ++ [domain_dir d.name] ++ [bytes "key.pem"]) = (store (domain_dir d.name)).key_pem := by
    have hview := congrArg DomainFiles.key_pem (congrFun hcert (domain_dir d.name))
    rwa [Function.update_self] at hview
  obtain ⟨hkok, hkey⟩ := @view_write cwd certs_dir first.2 d h io.key save key_pem _ proper_key _ hold
  rw [hcert, Function.update_self, Function.update_idem, put_key] at hkey
  have hsecond : (if key_pem ≠ [] then
      write_file_private cwd io.key save (slash (domain_path certs_dir d) (bytes "key.pem")) key_pem first.2
      else (true, first.2)).1 = (if key_pem ≠ [] then
        Saving.write_file_private io.key save key_pem (store (domain_dir d.name)).key_pem
        else (true, (store (domain_dir d.name)).key_pem)).1 ∧
      view cwd certs_dir (if key_pem ≠ [] then
        write_file_private cwd io.key save (slash (domain_path certs_dir d) (bytes "key.pem")) key_pem first.2
        else (true, first.2)).2 = Function.update store (domain_dir d.name) { store (domain_dir d.name) with
          cert_pem := cert.2
          key_pem := (if key_pem ≠ [] then
            Saving.write_file_private io.key save key_pem (store (domain_dir d.name)).key_pem
            else (true, (store (domain_dir d.name)).key_pem)).2 } := by
    split
    · exact ⟨hkok, hkey⟩
    · exact ⟨rfl, hcert⟩
  generalize (if key_pem ≠ [] then
    write_file_private cwd io.key save (slash (domain_path certs_dir d) (bytes "key.pem")) key_pem first.2
    else (true, first.2)) = second at *
  generalize (if key_pem ≠ [] then
    Saving.write_file_private io.key save key_pem (store (domain_dir d.name)).key_pem
    else (true, (store (domain_dir d.name)).key_pem)) = key at *
  obtain ⟨hkok, hkey⟩ := hsecond
  have hmeta (content : Option Stored) :
      view cwd certs_dir (Function.update second.2 (resolve cwd (slash (domain_path certs_dir d) (bytes "meta.json"))) content) =
        Function.update store (domain_dir d.name) ⟨cert.2, key.2, content⟩ := by
    rw [resolve_file d proper_meta.1 proper_meta.2, home_proper h, view_update, hkey, Function.update_self,
      Function.update_idem, put_meta]
  rw [hok, hkok]
  -- both calls stop at the same place
  cases cert.1 with
  | false => exact ⟨rfl, hcert⟩
  | true =>
    cases key.1 <;> cases io.meta_json.opens <;> cases meta_text <;>
      first | exact ⟨rfl, hkey⟩ | exact ⟨rfl, hmeta _⟩

/-- A removal that succeeds is that of the proxy's store. -/
theorem remove_view (h : d.name ≠ bytes "." ∧ d.name ≠ bytes "..") {io : RemoveIo} (hio : io.error = false) :
    (view cwd certs_dir (cert_store_remove cwd certs_dir io d tree).2).plain =
      Exposure.cert_store_remove (view cwd certs_dir tree).plain d.name := by
  funext dir
  have hin (name : Bytes) : (home cwd certs_dir d).isPrefixOf (resolve cwd certs_dir ++ [dir] ++ [name]) = true ↔
      dir = domain_dir d.name := by
    rw [List.isPrefixOf_iff_prefix, home_proper h]
    refine ⟨fun hp => ?_, fun he => he ▸ List.prefix_append _ _⟩
    exact (children_disjoint hp (List.prefix_append _ _)).symm
  by_cases hdir : dir = domain_dir d.name
  · have hgone (name : Bytes) : (cert_store_remove cwd certs_dir io d tree).2 (resolve cwd certs_dir ++ [dir] ++ [name]) = none :=
      if_pos (by rw [(hin name).2 hdir, hio]; rfl)
    subst hdir
    rw [Exposure.cert_store_remove, Function.update_self]
    simp only [view, Saving.Store.plain, hgone, Option.map_none]
  · have hkept (name : Bytes) : (cert_store_remove cwd certs_dir io d tree).2 (resolve cwd certs_dir ++ [dir] ++ [name]) =
        tree (resolve cwd certs_dir ++ [dir] ++ [name]) := if_neg fun h => hdir ((hin name).1 (Bool.and_eq_true _ _ ▸ h).1)
    rw [Exposure.cert_store_remove, Function.update_of_ne hdir]
    simp only [view, Saving.Store.plain, hkept]

end

/-! ## Dots -/

theorem dotdot_domain : bytes ".." ≠ [] ∧ 0 ∉ bytes ".." := by decide

def dotdot : Domain := ⟨bytes "..", dotdot_domain.1, dotdot_domain.2⟩

/-- The routes, and the certificate of a domain. -/
def exposure : Tree := fun path =>
  if path = [bytes "exposure", bytes "routes.json"] ∨ path = [bytes "exposure", bytes "certs", bytes "a.io", bytes "cert.pem"]
  then some ⟨1, bytes "text"⟩ else none

/-- To remove the domain `..` is to remove both. -/
theorem dotdot_removes_routes :
    (cert_store_remove [] (bytes "/exposure/certs") ⟨true, fun _ => false⟩ dotdot exposure).2
        [bytes "exposure", bytes "routes.json"] ≠ exposure [bytes "exposure", bytes "routes.json"] ∧
      (cert_store_remove [] (bytes "/exposure/certs") ⟨true, fun _ => false⟩ dotdot exposure).2
        [bytes "exposure", bytes "certs", bytes "a.io", bytes "cert.pem"] = none ∧
      ¬ ∀ cwd certs_dir, Confined cwd certs_dir Set.univ := by
  refine ⟨by decide +kernel, by decide +kernel, fun h => ?_⟩
  have hchild := (h [] (bytes "/exposure/certs")).child dotdot (Set.mem_univ _)
  exact ((home_child_iff dotdot).1 hchild).2 rfl

end Hostely.Exposure.Domains
