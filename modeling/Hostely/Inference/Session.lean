import Hostely.Lib.Keyed
import Hostely.Inference.Llama
import Mathlib.Data.List.MinMax
/-!
# Sequence ids and sessions

`SeqAllocator` hands out KV sequence ids, `SessionTable` maps client session
ids to them. `std::unordered_map` iterates in an unspecified order and
`steady_clock::now()` is outside the program, so both are arguments.
-/

open Hostely.Lib

namespace Hostely.Inference

/-! ## SeqAllocator -/

structure SeqAllocator where
  max : Nat
  next : Nat
  in_use : List Bool
deriving DecidableEq, Repr

namespace SeqAllocator

/-- `in_use_` is sized with the argument, not with `max_`. -/
def ofMax (max_seqs : Nat) : SeqAllocator :=
  ⟨if max_seqs < 2 then 2 else max_seqs, 1, List.replicate max_seqs false⟩

def capacity (a : SeqAllocator) : Nat := a.max - 1

def used (a : SeqAllocator) (id : Nat) : Bool := a.in_use.getD id false

/-- The slot that step `i` of the sweep looks at. -/
def slot (a : SeqAllocator) (i : Nat) : Nat := (a.next + i - 1) % a.max

def take (a : SeqAllocator) : Option Nat × SeqAllocator :=
  match (List.range' 1 (a.max - 1)).find? (fun i => a.slot i ≠ 0 && !a.used (a.slot i)) with
  | some i => (some (a.slot i), { a with in_use := a.in_use.set (a.slot i) true, next := (a.slot i + 1) % a.max })
  | none => (none, a)

def give_back (a : SeqAllocator) (id : Nat) : SeqAllocator :=
  if 0 < id ∧ id < a.max then { a with in_use := a.in_use.set id false } else a

/-- The one slot the sweep never looks at: the one before the cursor. -/
def skipped (a : SeqAllocator) : Nat := (a.next + a.max - 1) % a.max

/-- A well-formed allocator for `n` sequences. -/
structure Ok (a : SeqAllocator) (n : Nat) : Prop where
  max_eq : a.max = n
  two_le : 2 ≤ n
  next_lt : a.next < n
  size : a.in_use.length = n

theorem ofMax_ok {n : Nat} (h : 2 ≤ n) : (ofMax n).Ok n := by
  refine ⟨?_, h, ?_, by simp [ofMax]⟩
  · simp [ofMax, show ¬ n < 2 by omega]
  · simp only [ofMax]; omega

theorem ofMax_used (n id : Nat) : (ofMax n).used id = false := by
  simp only [ofMax, used, List.getD_eq_getElem?_getD, List.getElem?_replicate]
  split <;> rfl

theorem Ok.slot_lt {a : SeqAllocator} {n : Nat} (h : a.Ok n) (i : Nat) : a.slot i < n := by
  unfold slot
  rw [h.max_eq]
  exact Nat.mod_lt _ (by have := h.two_le; omega)

theorem used_set {a : SeqAllocator} {n id : Nat} (h : a.Ok n) (hid : id < n) (b : Bool) (x : Nat) :
    (a.in_use.set id b).getD x false = if x = id then b else a.used x := by
  simp only [used, List.getD_eq_getElem?_getD, List.getElem?_set, h.size]
  by_cases hx : id = x
  · subst hx; simp [hid]
  · simp [hx, Ne.symm hx]

/-- The sweep reaches every slot but the skipped one. -/
theorem Ok.reached {a : SeqAllocator} {n : Nat} (h : a.Ok n) {id : Nat} (hid : id < n) (hs : id ≠ a.skipped) :
    ∃ i, 1 ≤ i ∧ i ≤ n - 1 ∧ a.slot i = id := by
  have hn := h.next_lt
  have h2 := h.two_le
  unfold skipped at hs
  unfold slot
  rw [h.max_eq] at hs ⊢
  by_cases hle : a.next ≤ id
  · refine ⟨id - a.next + 1, by omega, ?_, ?_⟩
    · by_contra hc
      apply hs
      rw [show a.next = 0 by omega, Nat.mod_eq_of_lt (by omega)]
      omega
    · rw [show a.next + (id - a.next + 1) - 1 = id by omega, Nat.mod_eq_of_lt hid]
  · refine ⟨id + n - a.next + 1, by omega, ?_, ?_⟩
    · by_contra hc
      apply hs
      rw [show a.next + n - 1 = id + n by omega, Nat.add_mod_right, Nat.mod_eq_of_lt hid]
    · rw [show a.next + (id + n - a.next + 1) - 1 = id + n by omega, Nat.add_mod_right, Nat.mod_eq_of_lt hid]

/-- The skipped slot is not reached. -/
theorem Ok.not_reached {a : SeqAllocator} {n i : Nat} (h : a.Ok n) (h1 : 1 ≤ i) (hi : i ≤ n - 1) :
    a.slot i ≠ a.skipped := by
  have hn := h.next_lt
  have h2 := h.two_le
  unfold skipped slot
  rw [h.max_eq]
  by_cases h0 : a.next = 0
  · rw [h0, Nat.mod_eq_of_lt (by omega), Nat.mod_eq_of_lt (by omega)]
    omega
  · have e : (a.next + n - 1) % n = a.next - 1 := by
      rw [show a.next + n - 1 = (a.next - 1) + n by omega, Nat.add_mod_right, Nat.mod_eq_of_lt (by omega)]
    rw [e]
    by_cases hw : a.next + i - 1 < n
    · rw [Nat.mod_eq_of_lt hw]; omega
    · rw [show a.next + i - 1 = (a.next + i - 1 - n) + n by omega, Nat.add_mod_right, Nat.mod_eq_of_lt (by omega)]
      omega

/-- A free id the sweep comes to. -/
def Offers (a : SeqAllocator) (n id : Nat) : Prop := 1 ≤ id ∧ id < n ∧ a.used id = false ∧ id ≠ a.skipped

/-- What `take` does: it hands out a free id, or nothing when the sweep finds
none, which leaves the allocator alone. -/
theorem take_cases {a : SeqAllocator} {n : Nat} (h : a.Ok n) :
    (∃ id, a.Offers n id ∧
      a.take = (some id, { a with in_use := a.in_use.set id true, next := (id + 1) % n })) ∨
    ((∀ id, ¬ a.Offers n id) ∧ a.take = (none, a)) := by
  unfold take
  cases hf : (List.range' 1 (a.max - 1)).find? (fun i => a.slot i ≠ 0 && !a.used (a.slot i)) with
  | some i =>
    left
    have hmem := List.mem_of_find?_eq_some hf
    have hp := List.find?_some hf
    simp only [List.mem_range'_1, h.max_eq] at hmem
    simp only [ne_eq, decide_not, Bool.and_eq_true, Bool.not_eq_true', decide_eq_false_iff_not] at hp
    refine ⟨a.slot i, ⟨by omega, h.slot_lt i, hp.2, h.not_reached hmem.1 (by omega)⟩, ?_⟩
    simp [h.max_eq]
  | none =>
    right
    refine ⟨?_, rfl⟩
    rintro id ⟨h1, hlt, hu, hs⟩
    obtain ⟨i, hi1, hi2, hslot⟩ := h.reached hlt hs
    rw [List.find?_eq_none] at hf
    have := hf i (by simp only [List.mem_range'_1, h.max_eq]; omega)
    simp [hslot, hu] at this
    omega

theorem Ok.taken {a : SeqAllocator} {n id : Nat} (h : a.Ok n) :
    ({ a with in_use := a.in_use.set id true, next := (id + 1) % n } : SeqAllocator).Ok n :=
  ⟨h.max_eq, h.two_le, Nat.mod_lt _ (by have := h.two_le; omega), by simp [h.size]⟩

theorem Ok.give_back {a : SeqAllocator} {n : Nat} (h : a.Ok n) (id : Nat) : (a.give_back id).Ok n := by
  unfold SeqAllocator.give_back
  split
  · exact ⟨h.max_eq, h.two_le, h.next_lt, by simp [h.size]⟩
  · exact h

theorem give_back_used {a : SeqAllocator} {n id : Nat} (h : a.Ok n) (h1 : 1 ≤ id) (hid : id < n) (x : Nat) :
    (a.give_back id).used x = if x = id then false else a.used x := by
  simp only [SeqAllocator.give_back, h.max_eq, show 0 < id ∧ id < n from ⟨h1, hid⟩, and_self, if_true]
  exact used_set h hid false x

@[simp] theorem give_back_next (a : SeqAllocator) (id : Nat) : (a.give_back id).next = a.next := by
  unfold give_back; split <;> rfl

@[simp] theorem give_back_max (a : SeqAllocator) (id : Nat) : (a.give_back id).max = a.max := by
  unfold give_back; split <;> rfl

@[simp] theorem give_back_skipped (a : SeqAllocator) (id : Nat) : (a.give_back id).skipped = a.skipped := by
  simp [skipped]

end SeqAllocator

/-! ## SessionTable -/

structure Session where
  id : String
  seq_id : Nat
  tokens : List LlamaToken
  last_used : Nat
deriving DecidableEq, Repr

def Session.touch (s : Session) (now : Nat) : Session := { s with last_used := now }

/-- An iteration order of the hash map. -/
structure IterOrder where
  order : List Session → List Session
  perm : ∀ l, (order l).Perm l

def IterOrder.asIs : IterOrder := ⟨fun l => l, fun l => .refl l⟩

structure SessionTable where
  max : Nat
  map : List Session
  /-- The keys of a map are distinct. -/
  nodup : (map.map Session.id).Nodup

namespace SessionTable

def empty (max_sessions : Nat) : SessionTable := ⟨max_sessions, [], by simp⟩

def peek (t : SessionTable) (id : String) : Option Session := t.map.find? (·.id = id)

/-- Writes `s` back through the pointer the table gave out. -/
def set (t : SessionTable) (s : Session) : SessionTable :=
  ⟨t.max, replaceKey Session.id s t.map, by rw [keys_replaceKey]; exact t.nodup⟩

def erase (t : SessionTable) (id : String) : SessionTable :=
  ⟨t.max, eraseKey Session.id id t.map, nodup_eraseKey _ _ _ t.nodup⟩

/-- `map_[s.id] = s` -/
def assign (t : SessionTable) (s : Session) : SessionTable :=
  if h : s.id ∈ t.map.map Session.id then t.set s
  else ⟨t.max, t.map ++ [s], nodup_append_key _ _ _ t.nodup h⟩

def find (now : Nat) (id : String) (t : SessionTable) : Option Session × SessionTable :=
  match t.peek id with
  | none => (none, t)
  | some s => (some (s.touch now), t.set (s.touch now))

/-- `std::min_element` by `last_used`, in iteration order. -/
def lru (it : IterOrder) (t : SessionTable) : Option Session := (it.order t.map).argmin (·.last_used)

def evict_lru (it : IterOrder) (t : SessionTable) : Option Nat × SessionTable :=
  match t.lru it with
  | none => (none, t)
  | some victim => (some victim.seq_id, t.erase victim.id)

def insert (it : IterOrder) (now : Nat) (id : String) (seq : Nat) (t : SessionTable) : Option Nat × SessionTable :=
  let (evicted, t) :=
    if t.map.length ≥ t.max ∧ t.peek id = none then t.evict_lru it else (none, t)
  (evicted, t.assign ⟨id, seq, [], now⟩)

/-- One round of the loop over the table: `best` and its length so far. -/
def better (prompt_tokens : List LlamaToken) (best : Option Session) (s : Session) : Option Session :=
  let best_len := (best.map (·.tokens.length)).getD 0
  if s.tokens = [] then best
  else if s.tokens.length > prompt_tokens.length then best
  else if s.tokens ≠ prompt_tokens.take s.tokens.length then best
  else if s.tokens.length > best_len then some s
  else best

def find_by_prefix (it : IterOrder) (now : Nat) (prompt_tokens : List LlamaToken) (t : SessionTable) :
    Option Session × SessionTable :=
  match (it.order t.map).foldl (better prompt_tokens) none with
  | none => (none, t)
  | some best => (some (best.touch now), t.set (best.touch now))

/-! ### What the operations do to the table -/

theorem peek_some {t : SessionTable} {id : String} {s : Session} (h : t.peek id = some s) :
    s ∈ t.map ∧ s.id = id :=
  (find_eq_some Session.id t.nodup).1 h

theorem peek_none {t : SessionTable} {id : String} : t.peek id = none ↔ id ∉ t.map.map Session.id :=
  find_eq_none Session.id

@[simp] theorem assign_max (t : SessionTable) (s : Session) : (t.assign s).max = t.max := by
  unfold assign; split <;> rfl

theorem mem_set {t : SessionTable} {s x : Session} :
    x ∈ (t.set s).map ↔ (x = s ∧ s.id ∈ t.map.map Session.id) ∨ (x ∈ t.map ∧ x.id ≠ s.id) :=
  mem_replaceKey _

/-- Writing back a session as it is changes nothing. -/
theorem set_self {t : SessionTable} {s : Session} (h : s ∈ t.map) : t.set s = t := by
  cases t
  simp only [set, mk.injEq, true_and]
  exact replaceKey_eq_self _ ‹_› h

theorem mem_erase {t : SessionTable} {id : String} {x : Session} : x ∈ (t.erase id).map ↔ x ∈ t.map ∧ x.id ≠ id :=
  mem_eraseKey _

/-- Erasing a session enters none. -/
theorem peek_erase {t : SessionTable} {id k : String} (h : t.peek id = none) : (t.erase k).peek id = none := by
  rw [peek_none] at h ⊢
  intro hm
  obtain ⟨y, hy, hyid⟩ := List.mem_map.1 hm
  exact h (List.mem_map.2 ⟨y, (mem_erase.1 hy).1, hyid⟩)

theorem assign_new {t : SessionTable} {s : Session} (h : t.peek s.id = none) : (t.assign s).map = t.map ++ [s] := by
  rw [peek_none] at h
  simp only [assign, h, dif_neg, not_false_eq_true]

theorem lru_mem {it : IterOrder} {t : SessionTable} {v : Session} (h : t.lru it = some v) :
    v ∈ t.map ∧ ∀ x ∈ t.map, v.last_used ≤ x.last_used := by
  refine ⟨(it.perm _).subset (List.argmin_mem h), fun x hx => ?_⟩
  exact List.le_of_mem_argmin ((it.perm _).symm.subset hx) h

theorem lru_none {it : IterOrder} {t : SessionTable} : t.lru it = none ↔ t.map = [] := by
  rw [lru, List.argmin_eq_none]
  exact ⟨fun h => List.perm_nil.1 (h ▸ (it.perm t.map).symm), fun h => by
    have := it.perm t.map
    rw [h] at this ⊢
    exact List.perm_nil.1 this⟩

/-- What the scan of `find_by_prefix` finds is one of the sessions scanned. -/
theorem better_mem (prompt_tokens : List LlamaToken) (l : List Session) (best : Option Session) {s : Session}
    (h : l.foldl (better prompt_tokens) best = some s) : best = some s ∨ s ∈ l := by
  induction l generalizing best with
  | nil => exact .inl h
  | cons x l ih =>
    rcases ih _ h with hb | hm
    · unfold better at hb
      simp only at hb
      split_ifs at hb
      all_goals first
      | exact .inl hb
      | exact .inr (by simp [Option.some.inj hb])
    · exact .inr (List.mem_cons_of_mem _ hm)

end SessionTable

end Hostely.Inference
