import Hostely.Inference.Session
import Hostely.Lib.Recency
/-!
# SessionTable is an LRU map

The reference keeps the sessions in a list, the one used last first, and knows
no times. Every run of the table is a run of the reference.
-/

open Hostely.Lib

namespace Hostely.Inference

/-- A session without its time. -/
structure Entry where
  id : String
  seq_id : Nat
  tokens : List LlamaToken
deriving DecidableEq, Repr

def Session.entry (s : Session) : Entry := ⟨s.id, s.seq_id, s.tokens⟩

/-- The calls of the server. `write` is an assignment to `tokens` through the
pointer the table gave out. -/
inductive TableOp where
  | find (now : Nat) (id : String)
  | peek (id : String)
  | insert (it : IterOrder) (now : Nat) (id : String) (seq : Nat)
  | find_by_prefix (it : IterOrder) (now : Nat) (prompt_tokens : List LlamaToken)
  | evict_lru (it : IterOrder)
  | write (id : String) (tokens : List LlamaToken)

/-- The time of a call that may read the clock. -/
def TableOp.now : TableOp → Option Nat
  | find now _ | insert _ now _ _ | find_by_prefix _ now _ => some now
  | peek _ | evict_lru _ | write _ _ => none

inductive TableOutput where
  | session (s : Option Entry)
  | seq (id : Option Nat)
  | written
deriving DecidableEq, Repr

/-! ## The reference -/

section Reference
variable (max : Nat)

/-- A session `find_by_prefix` may return. -/
def Qualifies (prompt_tokens : List LlamaToken) (e : Entry) : Prop := e.tokens ≠ [] ∧ e.tokens <+: prompt_tokens

/-- One call of the reference; among longest sessions any may be found. -/
inductive RefStep : TableOp → TableOutput → List Entry → List Entry → Prop
  | found {now : Nat} {id : String} {l : List Entry} {e : Entry} :
    e ∈ l → e.id = id → RefStep (.find now id) (.session (some e)) l (e :: eraseKey Entry.id id l)
  | not_found {now : Nat} {id : String} {l : List Entry} :
    id ∉ l.map Entry.id → RefStep (.find now id) (.session none) l l
  | peek {id : String} {l : List Entry} : RefStep (.peek id) (.session (l.find? (·.id = id))) l l
  | replaced {it : IterOrder} {now : Nat} {id : String} {seq : Nat} {l : List Entry} :
    id ∈ l.map Entry.id → RefStep (.insert it now id seq) (.seq none) l (⟨id, seq, []⟩ :: eraseKey Entry.id id l)
  | added {it : IterOrder} {now : Nat} {id : String} {seq : Nat} {l : List Entry} :
    id ∉ l.map Entry.id → l.length < max → RefStep (.insert it now id seq) (.seq none) l (⟨id, seq, []⟩ :: l)
  | dropped {it : IterOrder} {now : Nat} {id : String} {seq : Nat} {l : List Entry} {last : Entry} :
    id ∉ l.map Entry.id → max ≤ l.length → l.getLast? = some last →
    RefStep (.insert it now id seq) (.seq (some last.seq_id)) l (⟨id, seq, []⟩ :: l.dropLast)
  | longest {it : IterOrder} {now : Nat} {prompt_tokens : List LlamaToken} {l : List Entry} {e : Entry} :
    e ∈ l → Qualifies prompt_tokens e → (∀ x ∈ l, Qualifies prompt_tokens x → x.tokens.length ≤ e.tokens.length) →
    RefStep ( TableOp.find_by_prefix it now prompt_tokens) (.session (some e)) l (e :: eraseKey Entry.id e.id l)
  | none_longest {it : IterOrder} {now : Nat} {prompt_tokens : List LlamaToken} {l : List Entry} :
    (∀ x ∈ l, ¬ Qualifies prompt_tokens x) → RefStep ( TableOp.find_by_prefix it now prompt_tokens) (.session none) l l
  | evict {it : IterOrder} {l : List Entry} : RefStep (.evict_lru it) (.seq (l.getLast?.map Entry.seq_id)) l l.dropLast
  | write {id : String} {tokens : List LlamaToken} {l : List Entry} :
    RefStep (.write id tokens) .written l (l.map fun e => if e.id = id then { e with tokens } else e)

inductive RefRun : List TableOp → List TableOutput → List Entry → List Entry → Prop
  | nil {l : List Entry} : RefRun [] [] l l
  | cons {op : TableOp} {ops : List TableOp} {out : TableOutput} {outs : List TableOutput} {l l' l'' : List Entry} :
    RefStep max op out l l' → RefRun ops outs l' l'' → RefRun (op :: ops) (out :: outs) l l''

end Reference

/-- A call of the reference never goes over the capacity. -/
theorem RefStep.size {max : Nat} {op : TableOp} {out : TableOutput} {l l' : List Entry} (h : RefStep max op out l l')
    (hl : l.length ≤ max) : l'.length ≤ max := by
  have moved {e : Entry} (k : String) (hk : k ∈ l.map Entry.id) : (e :: eraseKey Entry.id k l).length ≤ max :=
    le_trans (length_eraseKey Entry.id hk) hl
  cases h with
  | found he hid => exact moved _ (List.mem_map.2 ⟨_, he, hid⟩)
  | replaced hid => exact moved _ hid
  | longest he => exact moved _ (List.mem_map_of_mem he)
  | added _ hroom => exact hroom
  | dropped _ _ hlast =>
    have hpos := List.length_pos_of_mem (List.mem_of_getLast? hlast)
    rw [List.length_cons, List.length_dropLast]
    omega
  | evict => exact le_trans (by simp) hl
  | write => rwa [List.length_map]
  | not_found | peek | none_longest => exact hl

namespace SessionTable

def write (id : String) (tokens : List LlamaToken) (t : SessionTable) : SessionTable :=
  match t.peek id with
  | none => t
  | some s => t.set { s with tokens }

def call (op : TableOp) (t : SessionTable) : TableOutput × SessionTable :=
  match op with
  | .find now id => (.session ((t.find now id).1.map Session.entry), (t.find now id).2)
  | .peek id => (.session ((t.peek id).map Session.entry), t)
  | .insert it now id seq => (.seq (t.insert it now id seq).1, (t.insert it now id seq).2)
  | TableOp.find_by_prefix it now prompt_tokens =>
    let found := SessionTable.find_by_prefix it now prompt_tokens t
    (.session (found.1.map Session.entry), found.2)
  | .evict_lru it => (.seq (t.evict_lru it).1, (t.evict_lru it).2)
  | .write id tokens => (.written, t.write id tokens)

def calls : List TableOp → SessionTable → List TableOutput × SessionTable
  | [], t => ([], t)
  | op :: ops, t =>
    let (out, t) := t.call op
    let (outs, t) := t.calls ops
    (out :: outs, t)

/-! ## The simulation -/

/-- The reference's list is the table by last use. -/
def Represents (l : List Entry) (t : SessionTable) : Prop :=
  ∃ ss, ByRecency Session.last_used ss t.map ∧ ss.map Session.entry = l

section
variable {l : List Entry} {t : SessionTable}

theorem Represents.mem (h : Represents l t) {e : Entry} : e ∈ l ↔ ∃ s ∈ t.map, s.entry = e := by
  obtain ⟨ss, hss, rfl⟩ := h
  simp [hss.perm.mem_iff]

theorem Represents.ids (h : Represents l t) (id : String) : id ∈ l.map Entry.id ↔ id ∈ t.map.map Session.id := by
  obtain ⟨ss, hss, rfl⟩ := h
  rw [List.map_map]
  exact (hss.perm.map Session.id).mem_iff

theorem Represents.length (h : Represents l t) : l.length = t.map.length := by
  obtain ⟨ss, hss, rfl⟩ := h
  rw [List.length_map, hss.perm.length_eq]

theorem Represents.peek (h : Represents l t) (id : String) : l.find? (·.id = id) = (t.peek id).map Session.entry := by
  obtain ⟨ss, hss, rfl⟩ := h
  rw [List.find?_map, SessionTable.peek, ← find_perm Session.id hss.perm t.nodup]
  rfl

/-- A session written now is the first. -/
theorem Represents.touch (h : Represents l t) {s : Session} (hs : s.id ∈ t.map.map Session.id)
    (hnow : ∀ x ∈ t.map, x.last_used < s.last_used) : Represents (s.entry :: eraseKey Entry.id s.id l) (t.set s) := by
  obtain ⟨ss, hss, rfl⟩ := h
  refine ⟨_, hss.touch Session.id t.nodup hs hnow, ?_⟩
  rw [List.map_cons, map_eraseKey Session.id Entry.id fun _ => rfl]

theorem Represents.add (h : Represents l t) {s : Session} (hs : t.peek s.id = none)
    (hnow : ∀ x ∈ t.map, x.last_used < s.last_used) : Represents (s.entry :: l) (t.assign s) := by
  obtain ⟨ss, hss, rfl⟩ := h
  refine ⟨s :: ss, ?_, rfl⟩
  rw [assign_new hs]
  exact (hss.push hnow).of_perm (List.perm_append_singleton s t.map).symm

theorem Represents.lru (h : Represents l t) {it : IterOrder} {victim : Session} (hv : t.lru it = some victim) :
    l.getLast? = some victim.entry ∧ Represents l.dropLast (t.erase victim.id) := by
  obtain ⟨ss, hss, rfl⟩ := h
  obtain ⟨hmem, hmin⟩ := lru_mem hv
  obtain ⟨hlast, hdrop⟩ := hss.oldest Session.id t.nodup hmem hmin
  refine ⟨by rw [List.getLast?_map, hlast]; rfl, ss.dropLast, ?_, List.map_dropLast⟩
  rw [hdrop]
  exact hss.erase Session.id victim.id

theorem Represents.write (h : Represents l t) (id : String) (tokens : List LlamaToken) :
    Represents (l.map fun e => if e.id = id then { e with tokens } else e) (t.write id tokens) := by
  unfold SessionTable.write
  cases hp : t.peek id with
  | none =>
    have hnot : id ∉ l.map Entry.id := by rwa [h.ids, ← peek_none]
    have hsame : (l.map fun e => if e.id = id then { e with tokens } else e) = l := by
      refine (List.map_congr_left fun e he => ?_).trans (List.map_id l)
      have hne : e.id ≠ id := fun hid => hnot (hid ▸ List.mem_map_of_mem he)
      exact if_neg hne
    rw [hsame]
    exact h
  | some s =>
    obtain ⟨hs, rfl⟩ := peek_some hp
    obtain ⟨ss, hss, rfl⟩ := h
    have hsame : ∀ y ∈ t.map, y.id = s.id → y = s := fun y hy hk => key_unique Session.id t.nodup hy hs hk
    refine ⟨replaceKey Session.id { s with tokens } ss,
      hss.replace Session.id fun y hy hk => by rw [hsame y hy hk], ?_⟩
    rw [replaceKey, List.map_map, List.map_map]
    refine List.map_congr_left fun y hy => ?_
    by_cases hk : y.id = s.id
    · obtain rfl := hsame y (hss.perm.mem_iff.1 hy) hk
      simp [Session.entry]
    · simp [Session.entry, hk]

end

/-! ### find_by_prefix -/

theorem better_of_not {prompt_tokens : List LlamaToken} {s : Session} (h : ¬ Qualifies prompt_tokens s.entry)
    (best : Option Session) : better prompt_tokens best s = best := by
  unfold better
  dsimp only
  split_ifs with hempty hlong hdiffers
  · rfl
  · rfl
  · rfl
  · exact absurd ⟨hempty, List.prefix_iff_eq_take.2 (not_not.1 hdiffers)⟩ h
  · exact absurd ⟨hempty, List.prefix_iff_eq_take.2 (not_not.1 hdiffers)⟩ h

theorem better_of {prompt_tokens : List LlamaToken} {s : Session} (h : Qualifies prompt_tokens s.entry)
    (best : Option Session) : better prompt_tokens best s =
      if s.tokens.length > (best.map (·.tokens.length)).getD 0 then some s else best := by
  obtain ⟨hempty, hstart⟩ := h
  have hsome : ¬ s.tokens = [] := hempty
  have hlength : ¬ s.tokens.length > prompt_tokens.length := not_lt.2 hstart.length_le
  have htake : ¬ s.tokens ≠ prompt_tokens.take s.tokens.length := not_not.2 (List.prefix_iff_eq_take.1 hstart)
  unfold better
  dsimp only
  rw [if_neg hsome, if_neg hlength, if_neg htake]

/-- A round takes the session when it qualifies and is longer than the best. -/
theorem better_cases (prompt_tokens : List LlamaToken) (best : Option Session) (s : Session) :
    (better prompt_tokens best s = some s ∧ Qualifies prompt_tokens s.entry ∧
      ∀ b, best = some b → b.tokens.length < s.tokens.length) ∨
    (better prompt_tokens best s = best ∧
      (Qualifies prompt_tokens s.entry → ∃ b, best = some b ∧ s.tokens.length ≤ b.tokens.length)) := by
  by_cases hq : Qualifies prompt_tokens s.entry
  · rw [better_of hq]
    split_ifs with hlonger
    · refine .inl ⟨rfl, hq, ?_⟩
      rintro b rfl
      exact hlonger
    · refine .inr ⟨rfl, fun _ => ?_⟩
      cases best with
      | none => exact absurd (List.length_pos_iff.2 hq.1) hlonger
      | some b => exact ⟨b, rfl, not_lt.1 hlonger⟩
  · exact .inr ⟨better_of_not hq best, fun h => absurd h hq⟩

/-- What the scan finds qualifies and is as long as any other that does. -/
theorem better_longest {prompt_tokens : List LlamaToken} {ss : List Session} {best : Option Session}
    (hbest : ∀ b, best = some b → Qualifies prompt_tokens b.entry) :
    (∀ s, ss.foldl (better prompt_tokens) best = some s → Qualifies prompt_tokens s.entry ∧
      (∀ x ∈ ss, Qualifies prompt_tokens x.entry → x.tokens.length ≤ s.tokens.length) ∧
      ∀ b, best = some b → b.tokens.length ≤ s.tokens.length) ∧
    (ss.foldl (better prompt_tokens) best = none → best = none ∧ ∀ x ∈ ss, ¬ Qualifies prompt_tokens x.entry) := by
  induction ss generalizing best with
  | nil => exact ⟨fun s hs => ⟨hbest s hs, by simp, fun b hb => by rw [Option.some.inj (hb.symm.trans hs)]⟩,
      fun h => ⟨h, by simp⟩⟩
  | cons x ss ih =>
    rw [List.foldl_cons]
    rcases better_cases prompt_tokens best x with ⟨hx, hq, hlonger⟩ | ⟨hx, hshorter⟩
    · rw [hx]
      obtain ⟨hsome, hnone⟩ := @ih (some x) fun b hb => Option.some.inj hb ▸ hq
      refine ⟨fun s hs => ?_, fun h => absurd (hnone h).1 (by simp)⟩
      obtain ⟨hqs, hall, hlen⟩ := hsome s hs
      refine ⟨hqs, List.forall_mem_cons.2 ⟨fun _ => hlen x rfl, hall⟩, fun b hb => ?_⟩
      exact le_trans (le_of_lt (hlonger b hb)) (hlen x rfl)
    · rw [hx]
      obtain ⟨hsome, hnone⟩ := ih hbest
      refine ⟨fun s hs => ?_, fun h => ?_⟩
      · obtain ⟨hqs, hall, hlen⟩ := hsome s hs
        refine ⟨hqs, List.forall_mem_cons.2 ⟨fun hq => ?_, hall⟩, hlen⟩
        obtain ⟨b, hb, hle⟩ := hshorter hq
        exact le_trans hle (hlen b hb)
      · obtain ⟨hb, hall⟩ := hnone h
        refine ⟨hb, List.forall_mem_cons.2 ⟨fun hq => ?_, hall⟩⟩
        obtain ⟨b, hb', -⟩ := hshorter hq
        exact absurd (hb.symm.trans hb') (by simp)

/-! ### One call -/

/-- A call of the table is a call of the reference, and leaves no time but the
old ones and its own. -/
structure Simulates (op : TableOp) (l : List Entry) (t : SessionTable) (r : TableOutput × SessionTable) : Prop where
  step : ∃ l', RefStep t.max op r.1 l l' ∧ Represents l' r.2
  times : ∀ s ∈ r.2.map, (∃ x ∈ t.map, x.last_used = s.last_used) ∨ op.now = some s.last_used
  max : r.2.max = t.max

section
variable {l : List Entry} {t : SessionTable}

theorem times_set {op : TableOp} {s : Session} (hs : op.now = some s.last_used) :
    ∀ x ∈ (t.set s).map, (∃ y ∈ t.map, y.last_used = x.last_used) ∨ op.now = some x.last_used := by
  intro x hx
  rcases mem_set.1 hx with ⟨rfl, -⟩ | ⟨hx, -⟩
  · exact .inr hs
  · exact .inl ⟨x, hx, rfl⟩

theorem find_simulates (h : Represents l t) {now : Nat} (hnow : ∀ s ∈ t.map, s.last_used < now) (id : String) :
    Simulates (.find now id) l t (t.call (.find now id)) := by
  cases hp : t.peek id with
  | none =>
    have hcall : t.call (.find now id) = (.session none, t) := by simp [call, SessionTable.find, hp]
    rw [hcall]
    exact ⟨⟨l, .not_found (by rwa [h.ids, ← peek_none]), h⟩, fun s hs => .inl ⟨s, hs, rfl⟩, rfl⟩
  | some s =>
    have hcall : t.call (.find now id) = (.session (some s.entry), t.set (s.touch now)) := by
      simp [call, SessionTable.find, hp]
      rfl
    rw [hcall]
    obtain ⟨hs, rfl⟩ := peek_some hp
    have hmem : (s.touch now).id ∈ t.map.map Session.id := List.mem_map.2 ⟨s, hs, rfl⟩
    exact ⟨⟨_, .found (h.mem.2 ⟨s, hs, rfl⟩) rfl, h.touch hmem hnow⟩, times_set rfl, rfl⟩

theorem find_by_prefix_simulates (h : Represents l t) {now : Nat} (hnow : ∀ s ∈ t.map, s.last_used < now) (it : IterOrder)
    (prompt_tokens : List LlamaToken) :
    Simulates ( TableOp.find_by_prefix it now prompt_tokens) l t (t.call ( TableOp.find_by_prefix it now prompt_tokens)) := by
  obtain ⟨hsome, hnone⟩ := @better_longest prompt_tokens (it.order t.map) none nofun
  have hscan := @better_mem prompt_tokens (it.order t.map) none
  cases hr : (it.order t.map).foldl (better prompt_tokens) none with
  | none =>
    have hcall : t.call ( TableOp.find_by_prefix it now prompt_tokens) = (.session none, t) := by
      simp [call, SessionTable.find_by_prefix, hr]
    rw [hcall]
    refine ⟨⟨l, .none_longest fun e he hq => ?_, h⟩, fun s hs => .inl ⟨s, hs, rfl⟩, rfl⟩
    obtain ⟨s, hs, rfl⟩ := h.mem.1 he
    exact (hnone hr).2 s ((it.perm _).mem_iff.2 hs) hq
  | some s =>
    have hcall : t.call ( TableOp.find_by_prefix it now prompt_tokens) = (.session (some s.entry), t.set (s.touch now)) := by
      simp [call, SessionTable.find_by_prefix, hr]
      rfl
    rw [hcall]
    have hs : s ∈ t.map := (it.perm _).mem_iff.1 ((hscan hr).resolve_left nofun)
    obtain ⟨hq, hall, -⟩ := hsome s hr
    have hmem : (s.touch now).id ∈ t.map.map Session.id := List.mem_map.2 ⟨s, hs, rfl⟩
    refine ⟨⟨_, .longest (h.mem.2 ⟨s, hs, rfl⟩) hq fun e he hqe => ?_, h.touch hmem hnow⟩, times_set rfl, rfl⟩
    obtain ⟨x, hx, rfl⟩ := h.mem.1 he
    exact hall x ((it.perm _).mem_iff.2 hx) hqe

theorem evict_simulates (h : Represents l t) (it : IterOrder) :
    Simulates (.evict_lru it) l t (t.call (.evict_lru it)) := by
  have hstep := @RefStep.evict t.max it l
  cases hv : t.lru it with
  | none =>
    have hempty : l = [] := List.length_eq_zero_iff.1 (by rw [h.length, lru_none.1 hv]; rfl)
    subst hempty
    have hcall : t.call (.evict_lru it) = (.seq none, t) := by simp [call, SessionTable.evict_lru, hv]
    rw [hcall]
    exact ⟨⟨[], hstep, h⟩, fun s hs => .inl ⟨s, hs, rfl⟩, rfl⟩
  | some victim =>
    obtain ⟨hlast, hrest⟩ := h.lru hv
    have hcall : t.call (.evict_lru it) = (.seq (some victim.seq_id), t.erase victim.id) := by
      simp [call, SessionTable.evict_lru, hv]
    rw [hcall]
    rw [hlast] at hstep
    exact ⟨⟨l.dropLast, hstep, hrest⟩, fun s hs => .inl ⟨s, (mem_erase.1 hs).1, rfl⟩, rfl⟩

theorem write_simulates (h : Represents l t) (id : String) (tokens : List LlamaToken) :
    Simulates (.write id tokens) l t (t.call (.write id tokens)) := by
  have hwrite := h.write id tokens
  cases hp : t.peek id with
  | none =>
    have hcall : t.call (.write id tokens) = (.written, t) := by simp [call, SessionTable.write, hp]
    simp only [SessionTable.write, hp] at hwrite
    rw [hcall]
    exact ⟨⟨_, .write, hwrite⟩, fun s hs => .inl ⟨s, hs, rfl⟩, rfl⟩
  | some s =>
    have hcall : t.call (.write id tokens) = (.written, t.set { s with tokens }) := by simp [call, SessionTable.write, hp]
    simp only [SessionTable.write, hp] at hwrite
    rw [hcall]
    refine ⟨⟨_, .write, hwrite⟩, fun x hx => .inl ?_, rfl⟩
    rcases mem_set.1 hx with ⟨rfl, -⟩ | ⟨hx, -⟩
    · exact ⟨s, (peek_some hp).1, rfl⟩
    · exact ⟨x, hx, rfl⟩

theorem times_assign {op : TableOp} {s : Session} (hs : op.now = some s.last_used) :
    ∀ x ∈ (t.assign s).map, (∃ y ∈ t.map, y.last_used = x.last_used) ∨ op.now = some x.last_used := by
  unfold assign
  split
  · exact times_set hs
  · intro x hx
    rcases List.mem_append.1 hx with hx | hx
    · exact .inl ⟨x, hx, rfl⟩
    · exact .inr (List.mem_singleton.1 hx ▸ hs)

theorem insert_simulates (h : Represents l t) {now : Nat} (hnow : ∀ s ∈ t.map, s.last_used < now) (hmax : 1 ≤ t.max)
    (it : IterOrder) (id : String) (seq : Nat) :
    Simulates (.insert it now id seq) l t (t.call (.insert it now id seq)) := by
  by_cases hknown : id ∈ t.map.map Session.id
  · have hpeek : t.peek id ≠ none := fun hp => peek_none.1 hp hknown
    have hcall : t.call (.insert it now id seq) = (.seq none, t.set ⟨id, seq, [], now⟩) := by
      simp [call, SessionTable.insert, hpeek, assign, hknown]
    rw [hcall]
    exact ⟨⟨_, .replaced ((h.ids id).2 hknown), h.touch (s := ⟨id, seq, [], now⟩) hknown hnow⟩, times_set rfl, rfl⟩
  · have hpeek : t.peek id = none := peek_none.2 hknown
    have hnew : id ∉ l.map Entry.id := by rwa [h.ids]
    by_cases hfull : t.map.length ≥ t.max
    · -- with a capacity of at least one a full table has a victim
      have hsome : t.lru it ≠ none := fun hv => by
        rw [lru_none.1 hv] at hfull
        exact absurd hmax (not_le.2 (Nat.lt_succ_of_le hfull))
      obtain ⟨victim, hv⟩ := Option.ne_none_iff_exists'.1 hsome
      obtain ⟨hlast, hrest⟩ := h.lru hv
      have hcall : t.call (.insert it now id seq) =
          (.seq (some victim.seq_id), (t.erase victim.id).assign ⟨id, seq, [], now⟩) := by
        simp [call, SessionTable.insert, hfull, hpeek, evict_lru, hv]
      rw [hcall]
      have hfull' : t.max ≤ l.length := by rwa [h.length]
      have hlater : ∀ s ∈ (t.erase victim.id).map, s.last_used < now := fun s hs => hnow s (mem_erase.1 hs).1
      refine ⟨⟨_, .dropped hnew hfull' hlast, hrest.add (s := ⟨id, seq, [], now⟩) (peek_erase hpeek) hlater⟩, ?_,
        assign_max ..⟩
      intro x hx
      rcases @times_assign (t.erase victim.id) (.insert it now id seq) _ rfl x hx with ⟨y, hy, htime⟩ | htime
      · exact .inl ⟨y, (mem_erase.1 hy).1, htime⟩
      · exact .inr htime
    · have hcall : t.call (.insert it now id seq) = (.seq none, t.assign ⟨id, seq, [], now⟩) := by
        simp [call, SessionTable.insert, hfull]
      rw [hcall]
      have hroom : l.length < t.max := by rw [h.length]; exact not_le.1 hfull
      exact ⟨⟨_, .added hnew hroom, h.add (s := ⟨id, seq, [], now⟩) hpeek hnow⟩, times_assign rfl, assign_max ..⟩

theorem call_simulates (h : Represents l t) (hmax : 1 ≤ t.max) (op : TableOp)
    (hnow : ∀ now, op.now = some now → ∀ s ∈ t.map, s.last_used < now) : Simulates op l t (t.call op) := by
  cases op with
  | find now id => exact find_simulates h (hnow now rfl) id
  | peek id =>
    refine ⟨⟨l, ?_, h⟩, fun s hs => .inl ⟨s, hs, rfl⟩, rfl⟩
    have hstep := @RefStep.peek t.max id l
    rwa [h.peek] at hstep
  | insert it now id seq => exact insert_simulates h (hnow now rfl) hmax it id seq
  | find_by_prefix it now prompt_tokens => exact find_by_prefix_simulates h (hnow now rfl) it prompt_tokens
  | evict_lru it => exact evict_simulates h it
  | write id tokens => exact write_simulates h id tokens

end

/-! ### Every run -/

/-- By induction on the calls: the times of the table stay before the clock. -/
theorem calls_simulate {max : Nat} (hmax : 1 ≤ max) {ops : List TableOp} (hclock : (ops.filterMap TableOp.now).Pairwise (· < ·))
    {l : List Entry} {t : SessionTable} (h : Represents l t) (ht : t.max = max) (hl : l.length ≤ max)
    (hlater : ∀ now ∈ ops.filterMap TableOp.now, ∀ s ∈ t.map, s.last_used < now) :
    ∃ l', RefRun max ops (t.calls ops).1 l l' ∧ Represents l' (t.calls ops).2 ∧ l'.length ≤ max := by
  induction ops generalizing l t with
  | nil => exact ⟨l, .nil, h, hl⟩
  | cons op ops ih =>
    subst ht
    have hnow : ∀ now, op.now = some now → ∀ s ∈ t.map, s.last_used < now := fun now hop =>
      hlater now (List.mem_filterMap.2 ⟨op, List.mem_cons_self, hop⟩)
    obtain ⟨⟨l₁, hstep, hrep⟩, htimes, hmax'⟩ := call_simulates h hmax op hnow
    have hrest : (ops.filterMap TableOp.now).Pairwise (· < ·) := hclock.sublist ((List.sublist_cons_self op ops).filterMap _)
    have hstill : ∀ now ∈ ops.filterMap TableOp.now, ∀ s ∈ (t.call op).2.map, s.last_used < now := by
      intro now hmem s hs
      rcases htimes s hs with ⟨x, hx, htime⟩ | htime
      · rw [← htime]
        exact hlater now (((List.sublist_cons_self op ops).filterMap _).subset hmem) x hx
      · -- the call itself came before the later ones
        rw [List.filterMap_cons_some htime] at hclock
        exact (List.pairwise_cons.1 hclock).1 now hmem
    obtain ⟨l', hrun, hrep', hl'⟩ := ih hrest hrep hmax' (hstep.size hl) hstill
    exact ⟨l', .cons hstep hrun, hrep', hl'⟩

/-- Under a clock that goes up, every run of the table is one of the reference,
which it represents, and the table stays within its capacity. -/
theorem calls_lru (max : Nat) (hmax : 1 ≤ max) (ops : List TableOp) (hclock : (ops.filterMap TableOp.now).Pairwise (· < ·)) :
    ∃ l, RefRun max ops ((empty max).calls ops).1 [] l ∧ Represents l ((empty max).calls ops).2 ∧
      ((empty max).calls ops).2.map.length ≤ max := by
  have hempty : Represents [] (empty max) := ⟨[], .nil, rfl⟩
  obtain ⟨l, hrun, hrep, hl⟩ := calls_simulate hmax hclock hempty rfl (Nat.zero_le max) fun _ _ _ hs => absurd hs List.not_mem_nil
  exact ⟨l, hrun, hrep, by rwa [← hrep.length]⟩

def toyOps : List TableOp := [.insert .asIs 1 "a" 1, .insert .asIs 2 "b" 2, .find 3 "a", .insert .asIs 4 "c" 3]

theorem calls_lru_toyOps :
    ∃ l, RefRun 2 toyOps [.seq none, .seq none, .session (some ⟨"a", 1, []⟩), .seq (some 2)] [] l := by
  obtain ⟨l, hrun, -⟩ := calls_lru 2 (by decide) toyOps (by decide)
  have houtputs : ((empty 2).calls toyOps).1 = [.seq none, .seq none, .session (some ⟨"a", 1, []⟩), .seq (some 2)] := by
    decide +kernel
  rw [houtputs] at hrun
  exact ⟨l, hrun⟩

end SessionTable

end Hostely.Inference
