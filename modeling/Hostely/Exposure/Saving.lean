import Hostely.Exposure.Certs
import Hostely.Exposure.Routes
import Hostely.Lib.Output
/-!
# Saving when the disk fails

`routes_save_atomic` writes a file beside `routes.json` and renames it, without a
look at the stream. `cert_store_save` looks, but writes `cert.pem` and `key.pem`
where they are, one after the other.
-/

open Hostely.Lib

namespace Hostely.Exposure.Saving

/-! ## routes.json -/

/-- How the steps of a save go. -/
structure SaveIo where
  create_directories : Bool
  tmp : Output
  rename : Bool
deriving DecidableEq, Repr

section Routes
variable (dump : Json → Option Bytes)

/-- `dump` is what the JSON library writes, with line breaks; it throws on text that is
not UTF-8. -/
def routes_json_string (routes : List Route) : Option Bytes := (dump (routes_json routes)).map (· ++ bytes "\n")

/-- The result, `none` when the call throws, and the files after it. -/
def routes_save_atomic (io : SaveIo) (path : Bytes) (routes : List Route) (fs : Files Bytes Bytes) :
    Option Bool × Files Bytes Bytes :=
  let tmp := path ++ bytes ".tmp"
  if !io.create_directories then (some false, fs)
  else if !io.tmp.opens then (some false, fs)
  else match routes_json_string dump routes with
    -- the file is open by then
    | none => (none, Function.update fs tmp (some []))
    | some text =>
      let fs := Function.update fs tmp (some (io.tmp.left text))
      if io.rename then (some true, Function.update (Function.update fs path (fs tmp)) tmp none) else (some false, fs)

/-- The old content and false, or the new one and true. -/
def Atomic (io : SaveIo) (path : Bytes) (routes : List Route) (fs : Files Bytes Bytes) : Prop :=
  let after := routes_save_atomic dump io path routes fs
  (after.2 path = fs path ∧ after.1 = some false) ∨
    ∃ text, routes_json_string dump routes = some text ∧ after.2 path = some text ∧ after.1 = some true

variable {dump} {io : SaveIo} {path : Bytes} {routes : List Route} {fs : Files Bytes Bytes}

theorem tmp_ne (path : Bytes) : path ≠ path ++ bytes ".tmp" := by
  intro h
  have hlen := congrArg List.length h
  rw [List.length_append] at hlen
  have htmp : (bytes ".tmp").length = 4 := by decide
  omega

/-- What the call does where the file beside it was opened. -/
theorem save_opened (path : Bytes) (fs : Files Bytes Bytes) (hc : io.create_directories = true)
    (ho : io.tmp.opens = true) {text : Bytes} (ht : routes_json_string dump routes = some text) :
    (routes_save_atomic dump io path routes fs).1 = some io.rename ∧
      (routes_save_atomic dump io path routes fs).2 path = if io.rename then some (io.tmp.left text) else fs path := by
  unfold routes_save_atomic
  rw [hc, ho, ht]
  cases io.rename with
  | false => exact ⟨rfl, Function.update_of_ne (tmp_ne path) _ _⟩
  | true =>
    refine ⟨rfl, ?_⟩
    have hpath := tmp_ne path
    simp [Function.update_of_ne hpath]

/-- The save is atomic exactly if it stops before the file beside `routes.json` is
opened, or there is a text to write and the rename, if it succeeds, finds all of it. -/
theorem save_atomic_iff (dump : Json → Option Bytes) (io : SaveIo) (path : Bytes) (routes : List Route)
    (fs : Files Bytes Bytes) :
    Atomic dump io path routes fs ↔ io.create_directories = false ∨ io.tmp.opens = false ∨
      ∃ text, routes_json_string dump routes = some text ∧ (io.rename = true → io.tmp.left text = text) := by
  cases hc : io.create_directories with
  | false => exact iff_of_true (.inl (by simp [routes_save_atomic, hc])) (.inl rfl)
  | true =>
    cases ho : io.tmp.opens with
    | false => exact iff_of_true (.inl (by simp [routes_save_atomic, hc, ho])) (.inr (.inl rfl))
    | true =>
      cases ht : routes_json_string dump routes with
      | none =>
        -- the exception leaves the call
        have hthrown : (routes_save_atomic dump io path routes fs).1 = none := by simp [routes_save_atomic, hc, ho, ht]
        simp [Atomic, hthrown, ht]
      | some text =>
        obtain ⟨hresult, hpath⟩ := save_opened path fs hc ho ht
        simp only [Atomic, hresult, hpath, ht]
        cases io.rename with
        | false => simp
        | true => simp [eq_comm]

/-- Where every step succeeds the file holds the new text, and the call returns what the
model of the table has it return. -/
theorem save_succeeds (hdump : ∀ j, (dump j).isSome = j.dump.isSome) (hc : io.create_directories = true)
    (ho : io.tmp.ok = true) (hr : io.rename = true) :
    (routes_save_atomic dump io path routes fs).1 = (Exposure.routes_save_atomic routes).map Prod.fst ∧
      ∀ text, routes_json_string dump routes = some text → (routes_save_atomic dump io path routes fs).2 path = some text := by
  have hopens := Output.opens_of_ok ho
  have hthrows : (routes_json_string dump routes).isSome = (routes_json routes).dump.isSome := by
    rw [routes_json_string, Option.isSome_map, hdump]
  constructor
  · unfold Exposure.routes_save_atomic
    rw [← hthrows]
    cases ht : routes_json_string dump routes with
    | none => simp [routes_save_atomic, hc, hopens, ht]
    | some text => simp [(save_opened path fs hc hopens ht).1, hr]
  · intro text ht
    rw [(save_opened path fs hc hopens ht).2, hr, if_pos rfl, Output.left_of_ok ho]

/-- The disk is full: nothing of the new text gets there when the stream is closed. -/
def full_disk : SaveIo := ⟨true, ⟨true, none, some 0⟩, true⟩

/-- An empty file takes the place of the routes, and the call returns true. -/
theorem full_disk_empties :
    (routes_save_atomic Json.dump full_disk (bytes "routes.json") [⟨bytes "a.example.org", bytes "web", 80, true⟩]
        fun _ => some (bytes "old")).1 = some true ∧
      (routes_save_atomic Json.dump full_disk (bytes "routes.json") [⟨bytes "a.example.org", bytes "web", 80, true⟩]
        fun _ => some (bytes "old")).2 (bytes "routes.json") = some [] ∧
      ¬ ∀ dump io path routes fs, Atomic dump io path routes fs := by
  have hresult : (routes_save_atomic Json.dump full_disk (bytes "routes.json")
      [⟨bytes "a.example.org", bytes "web", 80, true⟩] fun _ => some (bytes "old")).1 = some true := by decide +kernel
  have hpath : (routes_save_atomic Json.dump full_disk (bytes "routes.json")
      [⟨bytes "a.example.org", bytes "web", 80, true⟩] fun _ => some (bytes "old")).2 (bytes "routes.json") = some [] := by
    decide +kernel
  refine ⟨hresult, hpath, fun h => ?_⟩
  rcases h Json.dump full_disk (bytes "routes.json") [⟨bytes "a.example.org", bytes "web", 80, true⟩]
    (fun _ => some (bytes "old")) with ⟨-, hfalse⟩ | ⟨text, ht, hnew, -⟩
  · exact absurd (hresult.symm.trans hfalse) (by decide)
  · obtain rfl := Option.some.inj (hpath.symm.trans hnew)
    exact absurd ht (by decide +kernel)

end Routes

/-! ## Certificates -/

/-- What a file holds, and which save wrote it. -/
structure Stored where
  save : Nat
  text : Bytes
deriving DecidableEq, Repr

/-- The directory of a domain. -/
structure DomainFiles where
  cert_pem : Option Stored
  key_pem : Option Stored
  meta_json : Option Stored
deriving DecidableEq, Repr

/-- The directories by name. -/
abbrev Store := Bytes → DomainFiles

/-- How the steps of one of the PEM files go. -/
structure FileIo where
  create_directories : Bool
  out : Output
deriving DecidableEq, Repr

def FileIo.opens (io : FileIo) : Bool := io.create_directories && io.out.opens

/-- The file is written, and the write reports it. -/
def FileIo.ok (io : FileIo) : Bool := io.create_directories && io.out.ok

structure StoreIo where
  cert : FileIo
  key : FileIo
  meta_json : Output
deriving DecidableEq, Repr

/-- Save number `save` writes a file; who may read the key is not modelled. -/
def write_file_private (io : FileIo) (save : Nat) (data : Bytes) (old : Option Stored) : Bool × Option Stored :=
  if !io.create_directories then (false, old)
  else if !io.out.opens then (false, old)
  else (io.out.ok, some ⟨save, io.out.left data⟩)

/-- `meta_text` is what is written to `meta.json`, with the time and what OpenSSL finds
in the certificate; `none` when its texts are not UTF-8 and `dump` throws. -/
def cert_store_save (io : StoreIo) (save : Nat) (domain cert_pem key_pem : Bytes) (meta_text : Option Bytes)
    (store : Store) : Option Bool × Store :=
  let dir := domain_dir domain
  let old := store dir
  let (ok, cert) := write_file_private io.cert save cert_pem old.cert_pem
  let files := { old with cert_pem := cert }
  if !ok then (some false, Function.update store dir files)
  else
    let (ok, key) := if key_pem ≠ [] then write_file_private io.key save key_pem old.key_pem else (true, old.key_pem)
    let files := { files with key_pem := key }
    if !ok then (some false, Function.update store dir files)
    else if !io.meta_json.opens then (some false, Function.update store dir files)
    else match meta_text with
      | none => (none, Function.update store dir { files with meta_json := some ⟨save, []⟩ })
      | some text => (some true, Function.update store dir { files with meta_json := some ⟨save, io.meta_json.left text⟩ })

/-- Without the numbers of the saves. -/
def Store.plain (store : Store) : CertStore := fun dir =>
  ⟨(store dir).cert_pem.map Stored.text, (store dir).key_pem.map Stored.text⟩

section Certificates
variable {io : StoreIo} {save : Nat} {domain cert_pem key_pem : Bytes} {meta_text : Option Bytes} {store : Store}

/-- No file of the domain is of this save yet. -/
def New (save : Nat) (files : DomainFiles) : Prop :=
  (∀ f ∈ files.cert_pem, f.save ≠ save) ∧ ∀ f ∈ files.key_pem, f.save ≠ save

/-- Both PEM files are what this save has written. -/
def BothNew (save : Nat) (cert_pem key_pem : Bytes) (files : DomainFiles) : Prop :=
  files.cert_pem = some ⟨save, cert_pem⟩ ∧ files.key_pem = some ⟨save, key_pem⟩

/-- The PEM files are both as they were, or both new. -/
def SameSave (save : Nat) (cert_pem key_pem : Bytes) (before after : DomainFiles) : Prop :=
  (after.cert_pem = before.cert_pem ∧ after.key_pem = before.key_pem) ∨ BothNew save cert_pem key_pem after

/-- The PEM files of the domain are of one save, both new exactly when both writes
succeed, and what is loaded is a pair that was saved together. -/
structure KeepsPair (io : StoreIo) (save : Nat) (domain cert_pem key_pem : Bytes) (before after : Store) : Prop where
  same_save : SameSave save cert_pem key_pem (before (domain_dir domain)) (after (domain_dir domain))
  both_new : BothNew save cert_pem key_pem (after (domain_dir domain)) ↔ io.cert.ok = true ∧ io.key.ok = true
  loads : cert_store_load after.plain domain = cert_store_load before.plain domain ∨
    cert_store_load after.plain domain = some (cert_pem, key_pem)

/-- A write leaves the file alone, or puts something of this save into it. -/
theorem write_cases (io : FileIo) (save : Nat) (data : Bytes) (old : Option Stored) :
    (io.opens = false ∧ io.ok = false ∧ write_file_private io save data old = (false, old)) ∨
      (io.opens = true ∧ write_file_private io save data old = (io.ok, some ⟨save, io.out.left data⟩)) := by
  unfold write_file_private FileIo.opens FileIo.ok Output.ok
  cases io.create_directories with
  | false => simp
  | true => cases io.out.opens <;> simp

theorem ok_opens {io : FileIo} (h : io.ok = true) : io.opens = true := by
  simp only [FileIo.ok, Bool.and_eq_true] at h
  simp [FileIo.opens, h.1, Output.opens_of_ok h.2]

theorem ok_left {io : FileIo} (h : io.ok = true) (data : Bytes) : io.out.left data = data := by
  simp only [FileIo.ok, Bool.and_eq_true] at h
  exact Output.left_of_ok h.2 data

/-- The certificate's file cannot be opened. -/
theorem save_unopened (h : io.cert.opens = false) :
    (cert_store_save io save domain cert_pem key_pem meta_text store).2 (domain_dir domain) = store (domain_dir domain) := by
  obtain ⟨-, -, hw⟩ | ⟨hopens, -⟩ := write_cases io.cert save cert_pem (store (domain_dir domain)).cert_pem
  · simp [cert_store_save, hw]
  · exact absurd (h.symm.trans hopens) (by decide)

/-- The write of the certificate fails, when some of it may be in the file. -/
theorem save_half (hopens : io.cert.opens = true) (hok : io.cert.ok = false) :
    ((cert_store_save io save domain cert_pem key_pem meta_text store).2 (domain_dir domain)).cert_pem =
        some ⟨save, io.cert.out.left cert_pem⟩ ∧
      ((cert_store_save io save domain cert_pem key_pem meta_text store).2 (domain_dir domain)).key_pem =
        (store (domain_dir domain)).key_pem := by
  obtain ⟨hno, -⟩ | ⟨-, hw⟩ := write_cases io.cert save cert_pem (store (domain_dir domain)).cert_pem
  · exact absurd (hno.symm.trans hopens) (by decide)
  · simp [cert_store_save, hw, hok]

/-- The certificate is written, and the key is what the second write makes of it. -/
theorem save_cert (hok : io.cert.ok = true) (hkey : key_pem ≠ []) :
    ((cert_store_save io save domain cert_pem key_pem meta_text store).2 (domain_dir domain)).cert_pem =
        some ⟨save, cert_pem⟩ ∧
      ((cert_store_save io save domain cert_pem key_pem meta_text store).2 (domain_dir domain)).key_pem =
        (write_file_private io.key save key_pem (store (domain_dir domain)).key_pem).2 := by
  obtain ⟨hno, -⟩ | ⟨-, hw⟩ := write_cases io.cert save cert_pem (store (domain_dir domain)).cert_pem
  · exact absurd (hno.symm.trans (ok_opens hok)) (by decide)
  · simp only [cert_store_save, hw, hok, ok_left hok, if_pos hkey]
    rcases write_file_private io.key save key_pem (store (domain_dir domain)).key_pem with ⟨key_ok, key⟩
    -- whatever becomes of `meta.json`
    cases key_ok <;> cases io.meta_json.opens <;> cases meta_text <;> simp

/-- What a save with a key leaves of the two files. -/
theorem save_cases (hkey : key_pem ≠ []) {after : Store}
    (ha : (cert_store_save io save domain cert_pem key_pem meta_text store).2 = after) :
    (io.cert.opens = false ∧ (after (domain_dir domain)).cert_pem = (store (domain_dir domain)).cert_pem ∧
        (after (domain_dir domain)).key_pem = (store (domain_dir domain)).key_pem) ∨
      (io.cert.opens = true ∧ ¬ (io.cert.ok = true ∧ io.key.ok = true) ∧
        (∃ text, (after (domain_dir domain)).cert_pem = some ⟨save, text⟩) ∧
        (after (domain_dir domain)).key_pem = (store (domain_dir domain)).key_pem) ∨
      (io.cert.opens = true ∧ io.key.ok = false ∧ (after (domain_dir domain)).cert_pem = some ⟨save, cert_pem⟩) ∨
      (io.cert.ok = true ∧ io.key.ok = true ∧ BothNew save cert_pem key_pem (after (domain_dir domain))) := by
  subst ha
  cases hopens : io.cert.opens with
  | false =>
    rw [save_unopened hopens]
    exact .inl ⟨rfl, rfl, rfl⟩
  | true =>
    cases hok : io.cert.ok with
    | false =>
      obtain ⟨hc, hk⟩ := @save_half io save domain cert_pem key_pem meta_text store hopens hok
      exact .inr (.inl ⟨rfl, by simp, ⟨_, hc⟩, hk⟩)
    | true =>
      obtain ⟨hc, hk⟩ := @save_cert io save domain cert_pem key_pem meta_text store hok hkey
      obtain ⟨-, hkok, hw⟩ | ⟨-, hw⟩ := write_cases io.key save key_pem (store (domain_dir domain)).key_pem
      · exact .inr (.inl ⟨rfl, by simp [hkok], ⟨_, hc⟩, hk.trans (congrArg Prod.snd hw)⟩)
      · cases hkok : io.key.ok with
        | false => exact .inr (.inr (.inl ⟨rfl, rfl, hc⟩))
        | true =>
          refine .inr (.inr (.inr ⟨rfl, rfl, hc, hk.trans ?_⟩))
          rw [hw, ok_left hkok]

theorem loads_of_same_save {before after : Store}
    (h : SameSave save cert_pem key_pem (before (domain_dir domain)) (after (domain_dir domain))) :
    cert_store_load after.plain domain = cert_store_load before.plain domain ∨
      cert_store_load after.plain domain = some (cert_pem, key_pem) := by
  rcases h with ⟨hc, hk⟩ | ⟨hc, hk⟩
  · left
    simp [cert_store_load, Store.plain, hc, hk]
  · right
    simp [cert_store_load, Store.plain, hc, hk]

/-- A certificate of this save stands beside a key of another. -/
theorem not_same_save {before after : DomainFiles} (hnew : New save before) {text : Bytes}
    (hc : after.cert_pem = some ⟨save, text⟩) (hk : after.key_pem = before.key_pem) :
    ¬ SameSave save cert_pem key_pem before after := by
  rintro (⟨hsame, -⟩ | ⟨-, hkey⟩)
  · exact hnew.1 _ (hsame.symm.trans hc) rfl
  · exact hnew.2 _ (hk.symm.trans hkey) rfl

/-- The save that the proxy's model has is the one whose writes succeed. -/
theorem save_plain (hok : io.cert.ok = true) (hkok : io.key.ok = true) :
    (cert_store_save io save domain cert_pem key_pem meta_text store).2.plain =
      Exposure.cert_store_save store.plain domain cert_pem key_pem := by
  obtain ⟨hno, -⟩ | ⟨-, hw⟩ := write_cases io.cert save cert_pem (store (domain_dir domain)).cert_pem
  · exact absurd (hno.symm.trans (ok_opens hok)) (by decide)
  obtain ⟨hno, -⟩ | ⟨-, hwk⟩ := write_cases io.key save key_pem (store (domain_dir domain)).key_pem
  · exact absurd (hno.symm.trans (ok_opens hkok)) (by decide)
  funext dir
  by_cases hdir : dir = domain_dir domain
  · subst hdir
    by_cases hkey : key_pem = [] <;> cases hmeta : io.meta_json.opens <;> cases meta_text <;>
      simp [cert_store_save, Exposure.cert_store_save, Store.plain, hw, hwk, hok, hkok, hkey, hmeta, ok_left]
  · by_cases hkey : key_pem = [] <;> cases hmeta : io.meta_json.opens <;> cases meta_text <;>
      simp [cert_store_save, Exposure.cert_store_save, Store.plain, hw, hwk, hok, hkok, hkey, hmeta, hdir]

/-- The pair is kept exactly if `cert.pem` is not opened at all or both writes succeed:
every other failure leaves a new or torn file beside an old one. -/
theorem keeps_pair_iff (io : StoreIo) (save : Nat) (domain cert_pem key_pem : Bytes) (meta_text : Option Bytes)
    (store : Store) (hkey : key_pem ≠ []) (hnew : New save (store (domain_dir domain))) :
    KeepsPair io save domain cert_pem key_pem store
        (cert_store_save io save domain cert_pem key_pem meta_text store).2 ↔
      io.cert.opens = false ∨ (io.cert.ok = true ∧ io.key.ok = true) := by
  generalize ha : (cert_store_save io save domain cert_pem key_pem meta_text store).2 = after
  obtain ⟨hopens, hsame⟩ | ⟨hopens, hnot, ⟨text, hc⟩, hk⟩ | ⟨hopens, hkok, hc⟩ | ⟨hok, hkok, hboth⟩ := save_cases hkey ha
  · have hnot : ¬ BothNew save cert_pem key_pem (after (domain_dir domain)) :=
      fun h => hnew.1 _ (hsame.1.symm.trans h.1) rfl
    have hsave : SameSave save cert_pem key_pem (store (domain_dir domain)) (after (domain_dir domain)) := .inl hsame
    refine iff_of_true ⟨hsave, iff_of_false hnot fun h => ?_, loads_of_same_save hsave⟩ (.inl hopens)
    exact absurd (hopens.symm.trans (ok_opens h.1)) (by decide)
  · refine iff_of_false (fun h => not_same_save hnew hc hk h.same_save) ?_
    rintro (hno | hboth)
    · exact absurd (hno.symm.trans hopens) (by decide)
    · exact hnot hboth
  · -- even if all of the key is there, its write has failed
    refine iff_of_false (fun h => ?_) (by simp [hopens, hkok])
    rcases h.same_save with ⟨hsame, -⟩ | hboth
    · exact hnew.1 _ (hsame.symm.trans hc) rfl
    · exact absurd (hkok.symm.trans (h.both_new.mp hboth).2) (by decide)
  · exact iff_of_true ⟨.inr hboth, iff_of_true hboth ⟨hok, hkok⟩, loads_of_same_save (.inr hboth)⟩ (.inr ⟨hok, hkok⟩)

/-- What the first save of a domain left. -/
def first_save : Store := fun _ => ⟨some ⟨1, bytes "cert1"⟩, some ⟨1, bytes "key1"⟩, none⟩

/-- Nothing fails. -/
def all_well : StoreIo := ⟨⟨true, ⟨true, none, none⟩⟩, ⟨true, ⟨true, none, none⟩⟩, ⟨true, none, none⟩⟩

theorem keeps_pair_renewed :
    (bytes "key2" ≠ [] ∧ New 2 (first_save (domain_dir (bytes "a.io")))) ∧
      KeepsPair all_well 2 (bytes "a.io") (bytes "cert2") (bytes "key2") first_save
        (cert_store_save all_well 2 (bytes "a.io") (bytes "cert2") (bytes "key2") (some (bytes "meta")) first_save).2 := by
  have hkey : bytes "key2" ≠ [] := by decide
  have hnew : New 2 (first_save (domain_dir (bytes "a.io"))) := by simp [New, first_save]
  exact ⟨⟨hkey, hnew⟩, (keeps_pair_iff all_well 2 (bytes "a.io") (bytes "cert2") (bytes "key2") (some (bytes "meta"))
    first_save hkey hnew).mpr (.inr ⟨by decide, by decide⟩)⟩

/-- The certificate is written, and the key's file cannot be opened. -/
def key_unopened : StoreIo := ⟨⟨true, ⟨true, none, none⟩⟩, ⟨true, ⟨false, none, none⟩⟩, ⟨true, none, none⟩⟩

/-- The new certificate is loaded with the key of the first save. -/
theorem key_unopened_mixes :
    cert_store_load (cert_store_save key_unopened 2 (bytes "a.io") (bytes "cert2") (bytes "key2") (some (bytes "meta"))
        first_save).2.plain (bytes "a.io") = some (bytes "cert2", bytes "key1") ∧
      ¬ ∀ io save domain cert_pem key_pem meta_text store, key_pem ≠ [] → New save (store (domain_dir domain)) →
        KeepsPair io save domain cert_pem key_pem store
          (cert_store_save io save domain cert_pem key_pem meta_text store).2 := by
  have hload : cert_store_load (cert_store_save key_unopened 2 (bytes "a.io") (bytes "cert2") (bytes "key2")
      (some (bytes "meta")) first_save).2.plain (bytes "a.io") = some (bytes "cert2", bytes "key1") := by decide +kernel
  refine ⟨hload, fun h => ?_⟩
  have hpair := h key_unopened 2 (bytes "a.io") (bytes "cert2") (bytes "key2") (some (bytes "meta")) first_save
    (by decide) (by simp [New, first_save])
  rcases hpair.loads with hold | hnew
  · exact absurd (hload.symm.trans hold) (by decide +kernel)
  · exact absurd (hload.symm.trans hnew) (by decide +kernel)

end Certificates

end Hostely.Exposure.Saving
