import Hostely.Exposure.Dns
/-!
# The records of a zone over many calls

`remove_record` deletes the records with one content, and `upsert` replaces all of a
type and name. Whatever fails on the way, a record that is there afterwards was there
before or was asked for, and one that no call was about stays.
-/

open Hostely.Lib

namespace Hostely.Exposure.Dns

/-! ## remove_record -/

/-- The ids of the records with the content, in front of one that cannot be read. -/
def read_matching (value : Bytes) : List Json → List Bytes
  | [] => []
  | rec :: rest =>
    match rec.value_string (bytes "content") [] with
    | none => []
    | some content =>
      if content ≠ value then read_matching value rest
      else match rec.value_string (bytes "id") [] with
        | none => []
        | some id => if id = [] then read_matching value rest else id :: read_matching value rest

def matching_ids (res : HttpResult) (value : Bytes) : List Bytes :=
  match res.json.bind (·.get? (bytes "result")) with
  | none => []
  | some result => read_matching value result.elements

section
variable (cf : Cloudflare)

/-- The zone, and whether a delete succeeded. -/
def remove_record (p : Pattern) (type name value : Bytes) (zone : Zone) : Zone × Bool :=
  let res := match p.zones with
    | some failure => failure.res
    | none => cf.zones_answer
  if zone_id res = [] then (zone, false)
  else
    let res := match p.list with
      | some failure => failure.res
      | none => list_answer zone type name
    if !res.ok then (zone, false)
    else
      let ids := matching_ids res value
      (ids.foldl (fun zone id => if (p.delete id).isSome then zone else zone.delete id) zone, ids.any fun id => (p.delete id).isNone)

end

def Record.has (type name content : Bytes) (r : Record) : Bool := r.is type name && r.content = content

section
variable {cf : Cloudflare} {p : Pattern} {type name value : Bytes} {zone : Zone}

theorem record_content (r : Record) : r.json.value_string (bytes "content") [] = some r.content :=
  Json.value_string_of (Json.value_head _ _ _ _)

theorem read_matching_records {rs : List Record} (h : ∀ r ∈ rs, r.id ≠ []) :
    read_matching value (rs.map Record.json) = (rs.filter fun r => r.content = value).map Record.id := by
  induction rs with
  | nil => rfl
  | cons r rs ih =>
    obtain ⟨hr, hrs⟩ := List.forall_mem_cons.1 h
    rw [List.map_cons, read_matching, record_content]
    by_cases hc : r.content = value
    · rw [List.filter_cons_of_pos (by simpa using hc)]
      simp [hc, record_id, hr, ih hrs]
    · rw [List.filter_cons_of_neg (by simpa using hc)]
      simp [hc, ih hrs]

theorem matching_ids_answer (zone : Zone) (type name value : Bytes) :
    matching_ids (list_answer zone type name) value = (zone.records.filter (Record.has type name value)).map Record.id := by
  have hids := @read_matching_records value _ fun r (hr : r ∈ zone.records.filter (Record.is type name)) =>
    zone.named r (List.mem_filter.1 hr).1
  rw [List.filter_filter] at hids
  have hhas : (fun r : Record => decide (r.content = value) && r.is type name) = Record.has type name value :=
    funext fun r => Bool.and_comm _ _
  rw [hhas] at hids
  rw [← hids]
  simp [matching_ids, list_answer, Json.get?, Json.elements]

/-- The ids of the matching records are theirs alone. -/
theorem id_matches {r : Record} (hr : r ∈ zone.records) :
    r.id ∈ (zone.records.filter (Record.has type name value)).map Record.id ↔ r.has type name value = true := by
  constructor
  · intro h
    obtain ⟨r', hr', hid⟩ := List.mem_map.1 h
    obtain ⟨hr', hhas⟩ := List.mem_filter.1 hr'
    rwa [key_unique Record.id zone.keyed hr hr' hid.symm]
  · exact fun h => List.mem_map_of_mem (List.mem_filter.2 ⟨hr, h⟩)

theorem remove_unresolved (h : ¬ (p.zones = none ∧ p.list = none)) : remove_record cf p type name value zone = (zone, false) := by
  unfold remove_record
  cases hz : p.zones with
  | some failure => exact if_pos (zone_id_failed failure)
  | none =>
    cases hl : p.list with
    | some failure =>
      dsimp only
      rw [if_neg (zone_id_answer cf ▸ cf.zid_named), failure.failed]
      rfl
    | none => exact absurd ⟨hz, hl⟩ h

theorem remove_resolved (hz : p.zones = none) (hl : p.list = none) :
    remove_record cf p type name value zone =
      let ids := (zone.records.filter (Record.has type name value)).map Record.id
      (ids.foldl (fun zone id => if (p.delete id).isSome then zone else zone.delete id) zone, ids.any fun id => (p.delete id).isNone) := by
  unfold remove_record
  rw [hz, hl]
  dsimp only
  rw [if_neg (zone_id_answer cf ▸ cf.zid_named), matching_ids_answer]
  rfl

/-- Of the matching records those go whose delete succeeds, and nothing else. -/
theorem mem_remove {r : Record} : r ∈ (remove_record cf p type name value zone).1.records ↔
    r ∈ zone.records ∧ ¬ (r.has type name value = true ∧ p.zones = none ∧ p.list = none ∧ p.delete r.id = none) := by
  by_cases hcalls : p.zones = none ∧ p.list = none
  · rw [remove_resolved hcalls.1 hcalls.2]
    dsimp only
    rw [mem_deletes]
    refine and_congr_right fun hr => not_congr ?_
    rw [id_matches hr]
    simp [hcalls]
  · rw [remove_unresolved hcalls]
    exact ⟨fun hr => ⟨hr, fun h => hcalls ⟨h.2.1, h.2.2.1⟩⟩, fun h => h.1⟩

/-- It says whether something went. -/
theorem remove_true_iff : (remove_record cf p type name value zone).2 = true ↔
    ∃ r ∈ zone.records, r ∉ (remove_record cf p type name value zone).1.records := by
  have hgone : (∃ r ∈ zone.records, r ∉ (remove_record cf p type name value zone).1.records) ↔
      ∃ r ∈ zone.records, r.has type name value = true ∧ p.zones = none ∧ p.list = none ∧ p.delete r.id = none := by
    refine exists_congr fun r => and_congr_right fun hr => ?_
    rw [mem_remove]
    simp [hr]
  rw [hgone]
  by_cases hcalls : p.zones = none ∧ p.list = none
  · rw [remove_resolved hcalls.1 hcalls.2]
    simp only [List.any_eq_true, List.mem_map, List.mem_filter, Option.isNone_iff_eq_none]
    constructor
    · rintro ⟨-, ⟨r, ⟨hr, hhas⟩, rfl⟩, hdelete⟩
      exact ⟨r, hr, hhas, hcalls.1, hcalls.2, hdelete⟩
    · rintro ⟨r, hr, hhas, -, -, hdelete⟩
      exact ⟨r.id, ⟨r, ⟨hr, hhas⟩, rfl⟩, hdelete⟩
  · rw [remove_unresolved hcalls]
    exact iff_of_false (by simp) fun ⟨r, _, _, hz, hl, _⟩ => hcalls ⟨hz, hl⟩

end

/-! ## Many calls -/

/-- What a `DnsProvider` is asked for. -/
inductive DnsCall where
  | set_txt (name value : Bytes)
  | remove_txt (name value : Bytes)
  | set_cname (name target : Bytes)
  | set_a (name ip : Bytes)

def DnsCall.type : DnsCall → Bytes
  | .set_txt .. | .remove_txt .. => bytes "TXT"
  | .set_cname .. => bytes "CNAME"
  | .set_a .. => bytes "A"

def DnsCall.name : DnsCall → Bytes
  | .set_txt name _ | .remove_txt name _ | .set_cname name _ | .set_a name _ => name

def DnsCall.content : DnsCall → Bytes
  | .set_txt _ value | .remove_txt _ value => value
  | .set_cname _ target => target
  | .set_a _ ip => ip

def DnsCall.sets : DnsCall → Bool
  | .remove_txt .. => false
  | _ => true

/-- A record that the call may delete. -/
def DnsCall.Replaces (c : DnsCall) (r : Record) : Prop :=
  r.is c.type c.name = true ∧ (c.sets = false → r.content = c.content)

section
variable (cf : Cloudflare)

def DnsCall.run (p : Pattern) (c : DnsCall) (zone : Zone) : Zone :=
  if c.sets then (upsert cf p c.type c.name c.content zone).1 else (remove_record cf p c.type c.name c.content zone).1

/-- The zone after some calls, each with what fails of it. -/
def runs (calls : List (Pattern × DnsCall)) (zone : Zone) : Zone := calls.foldl (fun zone (p, c) => c.run cf p zone) zone

end

section
variable {cf : Cloudflare} {p : Pattern} {c : DnsCall} {calls : List (Pattern × DnsCall)} {zone : Zone} {r : Record}

/-- What is there was there, or is what the call sets. -/
theorem upsert_origin {type name content : Bytes} (h : r ∈ (upsert cf p type name content zone).1.records) :
    r ∈ zone.records ∨ r.has type name content = true := by
  have hleft (h : r ∈ (list_and_delete p type name zone).records) : r ∈ zone.records := (mem_list_and_delete.1 h).1
  cases hz : p.zones with
  | some failure =>
    rw [upsert_unresolved failure hz] at h
    exact .inl h
  | none =>
    rw [upsert_resolved hz] at h
    dsimp only at h
    split at h
    · exact .inl (hleft h)
    · cases hcreate : p.create with
      | some failure =>
        rw [hcreate] at h
        exact .inl (hleft h)
      | none =>
        rw [hcreate] at h
        rcases List.mem_append.1 h with h | h
        · exact .inl (hleft h)
        · rw [List.mem_singleton.1 h]
          exact .inr (by simp [Record.has, Record.is, Cloudflare.record])

theorem run_origin (h : r ∈ (c.run cf p zone).records) :
    r ∈ zone.records ∨ c.sets = true ∧ r.has c.type c.name c.content = true := by
  unfold DnsCall.run at h
  split at h
  · rename_i hsets
    exact (upsert_origin h).imp_right fun hr => ⟨hsets, hr⟩
  · exact .inl (mem_remove.1 h).1

theorem run_keeps (hr : r ∈ zone.records) (h : ¬ c.Replaces r) : r ∈ (c.run cf p zone).records := by
  unfold DnsCall.run
  split
  · rename_i hsets
    have hother : r.is c.type c.name = false := by
      by_contra his
      exact h ⟨by simpa using his, fun hno => absurd (hsets.symm.trans hno) (by decide)⟩
    exact (upsert_others hother).2 hr
  · rename_i hsets
    refine mem_remove.2 ⟨hr, fun hgone => h ?_⟩
    obtain ⟨his, hcontent⟩ := Bool.and_eq_true_iff.1 hgone.1
    exact ⟨his, fun _ => of_decide_eq_true hcontent⟩

theorem runs_cons (a : Pattern × DnsCall) : runs cf (a :: calls) zone = runs cf calls (a.2.run cf a.1 zone) := rfl

theorem runs_origin (h : r ∈ (runs cf calls zone).records) :
    r ∈ zone.records ∨ ∃ a ∈ calls, a.2.sets = true ∧ r.has a.2.type a.2.name a.2.content = true := by
  induction calls generalizing zone with
  | nil => exact .inl h
  | cons a calls ih =>
    rw [runs_cons] at h
    rcases ih h with h | ⟨b, hb, hset⟩
    · exact (run_origin h).imp_right fun hset => ⟨a, List.mem_cons_self, hset⟩
    · exact .inr ⟨b, List.mem_cons_of_mem _ hb, hset⟩

theorem runs_keep (hr : r ∈ zone.records) (h : ∀ a ∈ calls, ¬ a.2.Replaces r) : r ∈ (runs cf calls zone).records := by
  induction calls generalizing zone with
  | nil => exact hr
  | cons a calls ih =>
    obtain ⟨ha, hcalls⟩ := List.forall_mem_cons.1 h
    exact ih (run_keeps hr ha) hcalls

end

/-- Over any calls, with any failures: what is there was there before or was set, what
none of them was about is still there, and after a removal without failures the record
is gone. -/
theorem records_over_calls (cf : Cloudflare) (calls : List (Pattern × DnsCall)) (zone : Zone) :
    (∀ r ∈ (runs cf calls zone).records,
      r ∈ zone.records ∨ ∃ a ∈ calls, a.2.sets = true ∧ r.has a.2.type a.2.name a.2.content = true) ∧
    (∀ r ∈ zone.records, (∀ a ∈ calls, ¬ a.2.Replaces r) → r ∈ (runs cf calls zone).records) ∧
    ∀ (p : Pattern) (name value : Bytes), p.zones = none → p.list = none → (∀ id, p.delete id = none) →
      ∀ r ∈ (runs cf (calls ++ [(p, .remove_txt name value)]) zone).records, r.has (bytes "TXT") name value = false := by
  refine ⟨fun _ => runs_origin, fun _ => runs_keep, fun p name value hz hl hdelete r hr => ?_⟩
  rw [runs, List.foldl_append] at hr
  have hremoved : r ∈ (remove_record cf p (bytes "TXT") name value (runs cf calls zone)).1.records := hr
  by_contra hhas
  exact (mem_remove.1 hremoved).2 ⟨by simpa using hhas, hz, hl, hdelete r.id⟩

/-- No call fails. -/
def all_served : Pattern := ⟨none, none, fun _ => none, none⟩

/-- A challenge is set and removed, and the address is still there. -/
theorem records_over_calls_challenge :
    let zone := runs toyCloudflare [(all_served, .set_txt (bytes "_acme-challenge") (bytes "x")),
      (all_served, .remove_txt (bytes "_acme-challenge") (bytes "x"))] toyZone
    old_address ∈ zone.records ∧ ∀ r ∈ zone.records, r.has (bytes "TXT") (bytes "_acme-challenge") (bytes "x") = false := by
  obtain ⟨-, hkept, -⟩ := records_over_calls toyCloudflare [(all_served, .set_txt (bytes "_acme-challenge") (bytes "x")),
    (all_served, .remove_txt (bytes "_acme-challenge") (bytes "x"))] toyZone
  obtain ⟨-, -, hgone⟩ := records_over_calls toyCloudflare [(all_served, .set_txt (bytes "_acme-challenge") (bytes "x"))] toyZone
  refine ⟨hkept old_address (List.mem_singleton_self _) fun a ha hreplaces => ?_,
    hgone all_served (bytes "_acme-challenge") (bytes "x") rfl rfl fun _ => rfl⟩
  simp only [List.mem_cons, List.not_mem_nil, or_false] at ha
  obtain rfl | rfl := ha <;> exact absurd hreplaces.1 (by decide +kernel)

end Hostely.Exposure.Dns
