import Hostely.Lib.Json
/-!
# CloudflareDns

`upsert` looks the zone up, lists the records of a type and name, deletes each, and
creates the new one. Only the first call and the last decide what it returns: a list
that fails and a delete that fails go unnoticed.
-/

open Hostely.Lib

namespace Hostely.Exposure.Dns

/-! ## Calls -/

/-- A status and what parsing the body gives. -/
structure HttpResult where
  status : Int
  json : Option Json

def HttpResult.ok (res : HttpResult) : Bool := 200 ≤ res.status && res.status < 300

/-- A call that fails, also one that gets no answer, when the status is -1. -/
structure Failure where
  res : HttpResult
  failed : res.ok = false

/-! ## What is read of an answer -/

/-- Empty when there is none, or when reading throws. -/
def zone_id (res : HttpResult) : Bytes :=
  if !res.ok then []
  else match res.json with
    | none => []
    | some j =>
      if j.value_bool (bytes "success") false = some true then
        match j.get? (bytes "result") with
        | some (.arr (first :: _)) => (first.value_string (bytes "id") []).getD []
        | _ => []
      else []

/-- The ids that are deleted: those in front of a record that cannot be read. -/
def read_ids : List Json → List Bytes
  | [] => []
  | rec :: rest =>
    match rec.value_string (bytes "id") [] with
    | none => []
    | some id => if id = [] then read_ids rest else id :: read_ids rest

def listed_ids (res : HttpResult) : List Bytes :=
  if !res.ok then []
  else match res.json.bind (·.get? (bytes "result")) with
    | none => []
    | some result => read_ids result.elements

/-- The body of the last call. -/
def record_json (type name content : Bytes) : Json := .obj [
  (bytes "content", .str content),
  (bytes "name", .str name),
  (bytes "proxied", .bool false),
  (bytes "ttl", .num 120),
  (bytes "type", .str type)]

/-! ## The zone -/

structure Record where
  id : Bytes
  type : Bytes
  name : Bytes
  content : Bytes
deriving DecidableEq, Repr

/-- Records by their ids. -/
structure Zone where
  records : List Record
  keyed : (records.map Record.id).Nodup
  named : ∀ r ∈ records, r.id ≠ []

/-- Of this type and name. -/
def Record.is (type name : Bytes) (r : Record) : Bool := r.type = type && r.name = name

def Record.json (r : Record) : Json := .obj [
  (bytes "content", .str r.content),
  (bytes "id", .str r.id),
  (bytes "name", .str r.name),
  (bytes "type", .str r.type)]

/-- What the service decides: the id of the zone, and those of new records. -/
structure Cloudflare where
  zid : Bytes
  zid_named : zid ≠ []
  new_id : Zone → Bytes
  new_id_named : ∀ zone, new_id zone ≠ []
  new_id_fresh : ∀ zone, new_id zone ∉ zone.records.map Record.id

theorem Zone.deleted_keyed (zone : Zone) (id : Bytes) : ((eraseKey Record.id id zone.records).map Record.id).Nodup :=
  nodup_eraseKey Record.id id zone.records zone.keyed

theorem Zone.deleted_named (zone : Zone) (id : Bytes) : ∀ r ∈ eraseKey Record.id id zone.records, r.id ≠ [] :=
  fun r hr => zone.named r ((mem_eraseKey Record.id).1 hr).1

def Zone.delete (zone : Zone) (id : Bytes) : Zone :=
  ⟨eraseKey Record.id id zone.records, zone.deleted_keyed id, zone.deleted_named id⟩

section
variable (cf : Cloudflare)

def Cloudflare.record (zone : Zone) (type name content : Bytes) : Record := ⟨cf.new_id zone, type, name, content⟩

theorem Cloudflare.created_keyed (zone : Zone) (type name content : Bytes) :
    ((zone.records ++ [cf.record zone type name content]).map Record.id).Nodup :=
  nodup_append_key Record.id _ zone.records zone.keyed (cf.new_id_fresh zone)

theorem Cloudflare.created_named (zone : Zone) (type name content : Bytes) :
    ∀ r ∈ zone.records ++ [cf.record zone type name content], r.id ≠ [] := by
  intro r hr
  rcases List.mem_append.1 hr with hr | hr
  · exact zone.named r hr
  · rw [List.mem_singleton.1 hr]
    exact cf.new_id_named zone

def Cloudflare.create (zone : Zone) (type name content : Bytes) : Zone :=
  ⟨zone.records ++ [cf.record zone type name content], cf.created_keyed zone type name content,
    cf.created_named zone type name content⟩

/-- The answers when nothing fails. -/
def Cloudflare.zones_answer : HttpResult :=
  ⟨200, some (.obj [(bytes "result", .arr [.obj [(bytes "id", .str cf.zid)]]), (bytes "success", .bool true)])⟩

def list_answer (zone : Zone) (type name : Bytes) : HttpResult :=
  ⟨200, some (.obj [(bytes "result", .arr ((zone.records.filter (Record.is type name)).map Record.json)),
    (bytes "success", .bool true)])⟩

/-! ## upsert -/

/-- Which of the calls of an upsert fail; the deletes are told apart by the id. -/
structure Pattern where
  zones : Option Failure
  list : Option Failure
  delete : Bytes → Option Failure
  create : Option Failure

/-- Deletes what was listed, as far as the calls succeed. -/
def list_and_delete (p : Pattern) (type name : Bytes) (zone : Zone) : Zone :=
  let res := match p.list with
    | some failure => failure.res
    | none => list_answer zone type name
  (listed_ids res).foldl (fun zone id => if (p.delete id).isSome then zone else zone.delete id) zone

/-- The zone and what is returned, `none` when the body cannot be written and `dump`
throws. -/
def upsert (p : Pattern) (type name content : Bytes) (zone : Zone) : Zone × Option Bool :=
  let res := match p.zones with
    | some failure => failure.res
    | none => cf.zones_answer
  if zone_id res = [] then (zone, some false)
  else
    let zone := list_and_delete p type name zone
    if (record_json type name content).dump = none then (zone, none)
    else match p.create with
      | some _ => (zone, some false)
      | none => (cf.create zone type name content, some true)

end

/-- After true there is the one record with the content, after false the records are
what they were, and those of other types and names always are. -/
structure Replaced (type name content : Bytes) (before : Zone) (after : Zone × Option Bool) : Prop where
  done : after.2 = some true → ∃ r, after.1.records.filter (Record.is type name) = [r] ∧ r.content = content
  kept : after.2 = some false → ∀ r, r.is type name = true → (r ∈ after.1.records ↔ r ∈ before.records)
  others : ∀ r, r.is type name = false → (r ∈ after.1.records ↔ r ∈ before.records)

/-- What has to happen: nothing is done at all, or the record is created when no other
one is left, or it is not and all of them are. -/
def Sound (p : Pattern) (type name content : Bytes) (zone : Zone) : Prop :=
  p.zones.isSome = true ∨ (record_json type name content).dump = none ∨
    match p.create with
    | none => (∀ r ∈ zone.records, r.is type name = false) ∨
        (p.list = none ∧ ∀ r ∈ zone.records, r.is type name = true → p.delete r.id = none)
    | some _ => p.list.isSome = true ∨ ∀ r ∈ zone.records, r.is type name = true → (p.delete r.id).isSome = true

section
variable {cf : Cloudflare} {p : Pattern} {type name content : Bytes} {zone : Zone}

/-! ### Answers -/

theorem zone_id_failed (failure : Failure) : zone_id failure.res = [] := by
  unfold zone_id
  rw [failure.failed]
  rfl

theorem zone_id_answer (cf : Cloudflare) : zone_id cf.zones_answer = cf.zid := by
  have hsuccess : (Json.obj [(bytes "result", .arr [.obj [(bytes "id", .str cf.zid)]]), (bytes "success", .bool true)]).value_bool
      (bytes "success") false = some true := by
    rw [Json.value_bool, Json.value_tail (by decide), Json.value_head]
    rfl
  have hid : (Json.obj [(bytes "id", .str cf.zid)]).value_string (bytes "id") [] = some cf.zid :=
    Json.value_string_of (Json.value_head _ _ _ _)
  unfold zone_id Cloudflare.zones_answer
  simp [HttpResult.ok, hsuccess, Json.get?, hid]

theorem listed_ids_failed (failure : Failure) : listed_ids failure.res = [] := by
  unfold listed_ids
  rw [failure.failed]
  rfl

theorem record_id (r : Record) : r.json.value_string (bytes "id") [] = some r.id := by
  refine Json.value_string_of ?_
  rw [Record.json, Json.value_tail (by decide), Json.value_head]

theorem read_ids_records {rs : List Record} (h : ∀ r ∈ rs, r.id ≠ []) : read_ids (rs.map Record.json) = rs.map Record.id := by
  induction rs with
  | nil => rfl
  | cons r rs ih =>
    obtain ⟨hr, hrs⟩ := List.forall_mem_cons.1 h
    simp only [List.map_cons, read_ids, record_id, if_neg hr, ih hrs]

/-- The ids of the records of that type and name. -/
theorem listed_ids_answer (zone : Zone) (type name : Bytes) :
    listed_ids (list_answer zone type name) = (zone.records.filter (Record.is type name)).map Record.id := by
  have hids := read_ids_records fun r (hr : r ∈ zone.records.filter (Record.is type name)) => zone.named r (List.mem_filter.1 hr).1
  rw [← hids]
  simp [listed_ids, list_answer, HttpResult.ok, Json.get?, Json.elements]

/-! ### Deleting -/

/-- A record goes if it was listed and its call succeeds. -/
theorem mem_deletes {ids : List Bytes} {r : Record} :
    r ∈ (ids.foldl (fun zone id => if (p.delete id).isSome then zone else zone.delete id) zone).records ↔
      r ∈ zone.records ∧ ¬ (r.id ∈ ids ∧ p.delete r.id = none) := by
  induction ids generalizing zone with
  | nil => simp
  | cons id ids ih =>
    rw [List.foldl_cons, ih]
    cases hid : p.delete id with
    | some failure =>
      have hne (h : p.delete r.id = none) : r.id ≠ id := by
        rintro rfl
        cases hid.symm.trans h
      simp only [Option.isSome_some, if_true, List.mem_cons]
      grind
    | none =>
      simp only [Option.isSome_none, Bool.false_eq_true, if_false, Zone.delete, mem_eraseKey, List.mem_cons]
      grind

theorem mem_list_and_delete {r : Record} : r ∈ (list_and_delete p type name zone).records ↔
    r ∈ zone.records ∧ ¬ (r.is type name = true ∧ p.list = none ∧ p.delete r.id = none) := by
  unfold list_and_delete
  dsimp only
  rw [mem_deletes]
  refine and_congr_right fun hr => not_congr ?_
  cases p.list with
  | some failure => simp [listed_ids_failed]
  | none =>
    -- ids are those of one record each
    have hlisted : r.id ∈ (zone.records.filter (Record.is type name)).map Record.id ↔ r.is type name = true := by
      constructor
      · intro h
        obtain ⟨r', hr', hid⟩ := List.mem_map.1 h
        obtain ⟨hr', his⟩ := List.mem_filter.1 hr'
        rwa [key_unique Record.id zone.keyed hr hr' hid.symm]
      · exact fun h => List.mem_map_of_mem (List.mem_filter.2 ⟨hr, h⟩)
    simp [listed_ids_answer, hlisted]

/-- Nothing is deleted. -/
theorem all_kept_iff : (∀ r, r.is type name = true → (r ∈ (list_and_delete p type name zone).records ↔ r ∈ zone.records)) ↔
    (p.list.isSome = true ∨ ∀ r ∈ zone.records, r.is type name = true → (p.delete r.id).isSome = true) := by
  simp only [mem_list_and_delete, and_iff_left_iff_imp]
  cases p.list with
  | some _ => simp
  | none =>
    simp only [true_and, Option.isSome_none, Bool.false_eq_true, false_or, not_and, Option.isSome_iff_ne_none]
    exact ⟨fun h r hr his => h r his hr his, fun h r his hr _ => h r hr his⟩

/-- Every record of the type and name is. -/
theorem all_deleted_iff : (∀ r ∈ (list_and_delete p type name zone).records, r.is type name = false) ↔
    ((∀ r ∈ zone.records, r.is type name = false) ∨
      (p.list = none ∧ ∀ r ∈ zone.records, r.is type name = true → p.delete r.id = none)) := by
  simp only [mem_list_and_delete]
  cases p.list with
  | some _ => simp
  | none =>
    simp only [true_and, and_imp]
    grind

/-! ### The call -/

theorem upsert_unresolved (failure : Failure) (h : p.zones = some failure) :
    upsert cf p type name content zone = (zone, some false) := by
  unfold upsert
  rw [h]
  exact if_pos (zone_id_failed failure)

theorem upsert_resolved (h : p.zones = none) : upsert cf p type name content zone =
    let zone := list_and_delete p type name zone
    if (record_json type name content).dump = none then (zone, none)
    else match p.create with
      | some _ => (zone, some false)
      | none => (cf.create zone type name content, some true) := by
  unfold upsert
  rw [h]
  exact if_neg (zone_id_answer cf ▸ cf.zid_named)

/-- Records of other types and names are none of the call's business. -/
theorem upsert_others {r : Record} (h : r.is type name = false) :
    r ∈ (upsert cf p type name content zone).1.records ↔ r ∈ zone.records := by
  have hleft : r ∈ (list_and_delete p type name zone).records ↔ r ∈ zone.records := by simp [mem_list_and_delete, h]
  cases hz : p.zones with
  | some failure => rw [upsert_unresolved failure hz]
  | none =>
    rw [upsert_resolved hz]
    dsimp only
    split
    · exact hleft
    · cases p.create with
      | some _ => exact hleft
      | none =>
        have hnew : r ≠ cf.record (list_and_delete p type name zone) type name content := by
          rintro rfl
          simp [Cloudflare.record, Record.is] at h
        simp [Cloudflare.create, hnew, hleft]

/-- The new record is the only one exactly if all the others were deleted. -/
theorem created_alone (left : Zone) :
    (∃ r, (cf.create left type name content).records.filter (Record.is type name) = [r] ∧ r.content = content) ↔
      ∀ r ∈ left.records, r.is type name = false := by
  have hnew : (cf.record left type name content).is type name = true := by simp [Cloudflare.record, Record.is]
  have hfilter : (cf.create left type name content).records.filter (Record.is type name) =
      left.records.filter (Record.is type name) ++ [cf.record left type name content] := by
    rw [Cloudflare.create, List.filter_append, List.filter_cons_of_pos hnew, List.filter_nil]
  rw [hfilter]
  constructor
  · rintro ⟨r, hr, -⟩
    have hnil : left.records.filter (Record.is type name) = [] := by
      have hlength := congrArg List.length hr
      rw [List.length_append, List.length_singleton, List.length_singleton] at hlength
      exact List.length_eq_zero_iff.1 (by omega)
    exact fun r hr => Bool.eq_false_iff.2 (List.filter_eq_nil_iff.1 hnil r hr)
  · intro h
    rw [List.filter_eq_nil_iff.2 fun r hr => Bool.eq_false_iff.1 (h r hr)]
    exact ⟨_, rfl, rfl⟩

end

/-- `upsert` replaces or leaves alone exactly if the zone is not found, or the record
is created and no other of its kind is left undeleted, or it is not created and none is
deleted. -/
theorem replaced_iff (cf : Cloudflare) (p : Pattern) (type name content : Bytes) (zone : Zone) :
    Replaced type name content zone (upsert cf p type name content zone) ↔ Sound p type name content zone := by
  unfold Sound
  cases hz : p.zones with
  | some failure =>
    rw [upsert_unresolved failure hz]
    exact iff_of_true ⟨nofun, fun _ _ _ => Iff.rfl, fun _ _ => Iff.rfl⟩ (.inl rfl)
  | none =>
    have hothers {r : Record} (h : r.is type name = false) := @upsert_others cf p type name content zone r h
    rw [upsert_resolved hz] at hothers ⊢
    by_cases hdump : (record_json type name content).dump = none
    · simp only [hdump, if_true] at hothers ⊢
      exact iff_of_true ⟨nofun, nofun, fun r h => hothers h⟩ (.inr (.inl trivial))
    · simp only [hdump, if_false, Option.isSome_none, Bool.false_eq_true, false_or] at hothers ⊢
      cases hcreate : p.create with
      | some _ =>
        rw [hcreate] at hothers
        rw [← all_kept_iff]
        exact ⟨fun h => h.kept rfl, fun h => ⟨nofun, fun _ => h, fun r hr => hothers hr⟩⟩
      | none =>
        rw [hcreate] at hothers
        rw [← all_deleted_iff]
        refine ⟨fun h => (created_alone _).1 (h.done rfl), fun h => ?_⟩
        exact ⟨fun _ => (created_alone _).2 h, nofun, fun r hr => hothers hr⟩

/-! ## An address record -/

/-- An id that is longer than all the others. -/
def longer_id (zone : Zone) : Bytes := 120 :: (zone.records.map Record.id).flatten

theorem longer_id_fresh (zone : Zone) : longer_id zone ∉ zone.records.map Record.id := by
  intro h
  have hlength := (List.sublist_flatten_of_mem h).length_le
  rw [longer_id, List.length_cons] at hlength
  omega

theorem toy_zid : bytes "z1" ≠ [] := by decide

def toyCloudflare : Cloudflare := ⟨bytes "z1", toy_zid, longer_id, fun _ => List.cons_ne_nil _ _, longer_id_fresh⟩

/-- The old address of the site. -/
def old_address : Record := ⟨bytes "r1", bytes "A", bytes "a.io", bytes "192.0.2.1"⟩

theorem old_keyed : ([old_address].map Record.id).Nodup := by decide

theorem old_named : ∀ r ∈ [old_address], r.id ≠ [] := by decide

def toyZone : Zone := ⟨[old_address], old_keyed, old_named⟩

def unavailable : HttpResult := ⟨503, none⟩

theorem unavailable_failed : unavailable.ok = false := rfl

/-- The last call fails. -/
def create_fails : Pattern := ⟨none, none, fun _ => none, some ⟨unavailable, unavailable_failed⟩⟩

/-- The second call fails. -/
def list_fails : Pattern := ⟨none, some ⟨unavailable, unavailable_failed⟩, fun _ => none, none⟩

/-- In the one case the site has no address afterwards, in the other it has two. -/
theorem address_lost_or_doubled :
    ((upsert toyCloudflare create_fails (bytes "A") (bytes "a.io") (bytes "192.0.2.2") toyZone).1.records = [] ∧
      (upsert toyCloudflare create_fails (bytes "A") (bytes "a.io") (bytes "192.0.2.2") toyZone).2 = some false) ∧
    (((upsert toyCloudflare list_fails (bytes "A") (bytes "a.io") (bytes "192.0.2.2") toyZone).1.records.map Record.content) =
        [bytes "192.0.2.1", bytes "192.0.2.2"] ∧
      (upsert toyCloudflare list_fails (bytes "A") (bytes "a.io") (bytes "192.0.2.2") toyZone).2 = some true) ∧
    ¬ ∀ cf p type name content zone, Replaced type name content zone (upsert cf p type name content zone) := by
  have hlost : (upsert toyCloudflare create_fails (bytes "A") (bytes "a.io") (bytes "192.0.2.2") toyZone).1.records = [] := by
    decide +kernel
  have hfalse : (upsert toyCloudflare create_fails (bytes "A") (bytes "a.io") (bytes "192.0.2.2") toyZone).2 = some false := by
    decide +kernel
  refine ⟨⟨hlost, hfalse⟩, ⟨by decide +kernel, by decide +kernel⟩, fun h => ?_⟩
  have hkept := (h toyCloudflare create_fails (bytes "A") (bytes "a.io") (bytes "192.0.2.2") toyZone).kept hfalse old_address
    (by decide +kernel)
  rw [hlost] at hkept
  exact absurd (hkept.2 (List.mem_singleton.2 rfl)) List.not_mem_nil

end Hostely.Exposure.Dns
