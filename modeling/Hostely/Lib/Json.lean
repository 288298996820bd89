import Hostely.Lib.Keyed
import Hostely.Lib.Text
/-!
# JSON values

The values of a JSON library that throws: on text that is not UTF-8 when it
writes, on a value of another type when it reads. `none` stands for a throw.
-/

namespace Hostely.Lib

/-- The fields of an object are listed in the order of their keys. -/
inductive Json where
  | null
  | bool (b : Bool)
  | num (n : Int)
  /-- A number with a point or an exponent, as `dump` writes it. -/
  | float (text : Bytes)
  | str (s : Bytes)
  | arr (items : List Json)
  | obj (fields : List (Bytes × Json))

namespace Json

/-! ## Writing -/

/-- One byte inside quotes; bytes from 0x7F on stay as they are. -/
def escape (c : UInt8) : Bytes :=
  if c = 34 then bytes "\\\""
  else if c = 92 then bytes "\\\\"
  else if c = 8 then bytes "\\b"
  else if c = 9 then bytes "\\t"
  else if c = 10 then bytes "\\n"
  else if c = 12 then bytes "\\f"
  else if c = 13 then bytes "\\r"
  else if c < 16 then bytes "\\u000" ++ digits 16 c.toNat
  else if c < 32 then bytes "\\u00" ++ digits 16 c.toNat
  else [c]

def dump_string (s : Bytes) : Option Bytes :=
  if validUtf8 s then some (bytes "\"" ++ s.flatMap escape ++ bytes "\"") else none

/-- The parts of an array or an object between commas. -/
def commas : List Bytes → Bytes
  | [] => []
  | [x] => x
  | x :: y :: rest => x ++ bytes "," ++ commas (y :: rest)

mutual
/-- `dump()`, without spaces. -/
def dump : Json → Option Bytes
  | null => some (bytes "null")
  | bool true => some (bytes "true")
  | bool false => some (bytes "false")
  | num n => some (to_string n)
  | float text => some text
  | str s => dump_string s
  | arr items => (dump_items items).map fun l => bytes "[" ++ commas l ++ bytes "]"
  | obj fields => (dump_fields fields).map fun l => bytes "\x7b" ++ commas l ++ bytes "\x7d"

def dump_items : List Json → Option (List Bytes)
  | [] => some []
  | j :: rest => do return (← dump j) :: (← dump_items rest)

def dump_fields : List (Bytes × Json) → Option (List Bytes)
  | [] => some []
  | (k, j) :: rest => do return ((← dump_string k) ++ bytes ":" ++ (← dump j)) :: (← dump_fields rest)
end

/-! ## Reading -/

/-- `j.value(key, dflt)`; throws unless `j` is an object. -/
def value (j : Json) (key : Bytes) (dflt : Json) : Option Json :=
  match j with
  | obj fields => some (((fields.find? (·.1 = key)).map (·.2)).getD dflt)
  | _ => none

/-- `j[key]` where `j.contains(key)`. -/
def get? (j : Json) (key : Bytes) : Option Json :=
  match j with
  | obj fields => (fields.find? (·.1 = key)).map (·.2)
  | _ => none

/-- `get<std::string>()` -/
def string : Json → Option Bytes
  | str s => some s
  | _ => none

/-- `j.value(key, dflt)` for a string. -/
def value_string (j : Json) (key dflt : Bytes) : Option Bytes := do (← j.value key (str dflt)).string

/-- The part of a number before the point, as a cast to an integer takes it. -/
def truncate (text : Bytes) : Int :=
  let digits := if text.head? = some 45 then text.tail else text
  let value (l : Bytes) : Nat := l.foldl (fun n c => 10 * n + (c.toNat - 48)) 0
  let whole := digits.takeWhile isdigit
  let rest := digits.dropWhile isdigit
  let fraction := if rest.head? = some 46 then rest.tail.takeWhile isdigit else []
  let exponent := atoi ((rest.dropWhile fun c => c = 46 || isdigit c).drop 1)
  let shift := exponent - fraction.length
  let n : Nat := if 0 ≤ shift then value (whole ++ fraction) * Nat.pow 10 shift.toNat
    else value (whole ++ fraction) / Nat.pow 10 (-shift).toNat
  if text.head? = some 45 then -n else n

/-- `get<int>()` takes any number, cut to 32 bits, and truth values. -/
def int : Json → Option Int32
  | num n => some (Int32.ofInt n)
  | float text => some (Int32.ofInt (truncate text))
  | bool b => some (if b then 1 else 0)
  | _ => none

/-- `get<unsigned>()` takes them too. -/
def unsigned : Json → Option UInt32
  | num n => some (UInt32.ofInt n)
  | float text => some (UInt32.ofInt (truncate text))
  | bool b => some (if b then 1 else 0)
  | _ => none

/-- `get<unsigned long long>()` takes numbers only. -/
def ulong : Json → Option UInt64
  | num n => some (UInt64.ofInt n)
  | float text => some (UInt64.ofInt (truncate text))
  | _ => none

/-- `get<int64_t>()` takes numbers only. -/
def long : Json → Option Int64
  | num n => some (Int64.ofInt n)
  | float text => some (Int64.ofInt (truncate text))
  | _ => none

def boolean : Json → Option Bool
  | bool b => some b
  | _ => none

/-- `j.value(key, dflt)` for an `int` and for a `bool`. -/
def value_int (j : Json) (key : Bytes) (dflt : Int32) : Option Int32 := do (← j.value key (num dflt.toInt)).int

def value_bool (j : Json) (key : Bytes) (dflt : Bool) : Option Bool := do (← j.value key (bool dflt)).boolean

def value_unsigned (j : Json) (key : Bytes) (dflt : UInt32) : Option UInt32 := do
  (← j.value key (num dflt.toNat)).unsigned

def value_ulong (j : Json) (key : Bytes) (dflt : UInt64) : Option UInt64 := do (← j.value key (num dflt.toNat)).ulong

def value_long (j : Json) (key : Bytes) (dflt : Int64) : Option Int64 := do (← j.value key (num dflt.toInt)).long

def is_object : Json → Bool
  | obj _ => true
  | _ => false

def is_string : Json → Bool
  | str _ => true
  | _ => false

/-- What `items()` runs through; the keys of an array are its indices. -/
def items : Json → List (Bytes × Json)
  | null => []
  | arr l => l.mapIdx fun i j => (to_string i, j)
  | obj fields => fields
  | j => [([], j)]

/-- What a range-for over the value runs through: a value that is no container
is run through once. -/
def elements : Json → List Json
  | null => []
  | arr items => items
  | obj fields => fields.map (·.2)
  | j => [j]

/-! ## Reading what was written -/

theorem value_head (key : Bytes) (dflt v : Json) (fields : List (Bytes × Json)) :
    (obj ((key, v) :: fields)).value key dflt = some v := by
  simp [value]

theorem value_tail {key k : Bytes} (h : k ≠ key) (dflt v : Json) (fields : List (Bytes × Json)) :
    (obj ((k, v) :: fields)).value key dflt = (obj fields).value key dflt := by
  simp [value, h]

theorem value_of_mem {key : Bytes} {v : Json} {fields : List (Bytes × Json)} (hkeys : (fields.map Prod.fst).Nodup)
    (h : (key, v) ∈ fields) (dflt : Json) : (obj fields).value key dflt = some v := by
  have hfind : fields.find? (fun f => f.1 = key) = some (key, v) := (find_eq_some Prod.fst hkeys).2 ⟨h, rfl⟩
  exact congrArg (fun f => some ((f.map Prod.snd).getD dflt)) hfind

theorem value_string_of {key dflt s : Bytes} {j : Json} (h : j.value key (str dflt) = some (str s)) :
    j.value_string key dflt = some s := by
  unfold value_string
  rw [h]
  rfl

theorem ulong_num (n : UInt64) : (num n.toNat).ulong = some n := by
  have hlt : (n.toNat : Int) < 2 ^ 64 := Int.ofNat_lt.2 n.toNat_lt
  refine congrArg some ?_
  rw [UInt64.ofInt, Int.emod_eq_of_lt (Int.natCast_nonneg _) hlt, Int.toNat_natCast, UInt64.ofNat_toNat]

/-- Reading back a list that was written element by element. -/
theorem mapM_map {α β : Type} {read : Json → Option β} {write : α → Json} {g : α → β}
    (h : ∀ a, read (write a) = some (g a)) (l : List α) : (l.map write).mapM read = some (l.map g) := by
  induction l with
  | nil => rfl
  | cons a l ih =>
    rw [List.map_cons, List.mapM_cons, h, ih]
    rfl

/-! ## Text that can be written

A value can be written when all of its strings are UTF-8, and then every part
of it can.
-/

theorem dump_str (s : Bytes) : (str s).dump.isSome = validUtf8 s := by
  unfold dump dump_string
  cases validUtf8 s <;> rfl

@[simp] theorem dump_literal (s : String) : (str (bytes s)).dump.isSome = true := by rw [dump_str, validUtf8_bytes]

theorem dump_arr (items : List Json) : (arr items).dump.isSome = true ↔ ∀ j ∈ items, j.dump.isSome = true := by
  have hitems : (dump_items items).isSome = true ↔ ∀ j ∈ items, j.dump.isSome = true := by
    induction items with
    | nil => simp [dump_items]
    | cons j rest ih =>
      rw [dump_items, List.forall_mem_cons, ← ih]
      cases j.dump <;> cases dump_items rest <;> simp
  rw [dump, Option.isSome_map, hitems]

theorem dump_obj (fields : List (Bytes × Json)) :
    (obj fields).dump.isSome = true ↔ ∀ f ∈ fields, validUtf8 f.1 = true ∧ f.2.dump.isSome = true := by
  have hfields : (dump_fields fields).isSome = true ↔ ∀ f ∈ fields, validUtf8 f.1 = true ∧ f.2.dump.isSome = true := by
    induction fields with
    | nil => simp [dump_fields]
    | cons f rest ih =>
      obtain ⟨k, j⟩ := f
      rw [dump_fields, List.forall_mem_cons, ← ih, ← dump_str, dump]
      cases dump_string k <;> cases j.dump <;> cases dump_fields rest <;> simp
  rw [dump, Option.isSome_map, hfields]

theorem value_valid {j v dflt : Json} {key : Bytes} (hj : j.dump.isSome = true) (hd : dflt.dump.isSome = true)
    (h : j.value key dflt = some v) : v.dump.isSome = true := by
  cases j with
  | obj fields =>
    obtain rfl := Option.some.inj h
    cases hf : fields.find? (·.1 = key) with
    | none => exact hd
    | some f => exact ((dump_obj fields).1 hj f (List.mem_of_find?_eq_some hf)).2
  | _ => cases h

theorem elements_valid {j e : Json} (hj : j.dump.isSome = true) (he : e ∈ j.elements) : e.dump.isSome = true := by
  cases j with
  | null => cases he
  | arr items => exact (dump_arr items).1 hj e he
  | obj fields =>
    obtain ⟨f, hf, rfl⟩ := List.mem_map.1 he
    exact ((dump_obj fields).1 hj f hf).2
  | _ =>
    obtain rfl := List.mem_singleton.1 he
    exact hj

theorem string_valid {j : Json} {s : Bytes} (hj : j.dump.isSome = true) (h : j.string = some s) : validUtf8 s = true := by
  cases j with
  | str t =>
    obtain rfl := Option.some.inj h
    rwa [dump_str] at hj
  | _ => cases h

/-! ## Fields of a type -/

/-- An object in which the field, if it is there, is as it should be. -/
def Field (P : Json → Prop) (j : Json) (key : Bytes) : Prop := j.is_object = true ∧ ∀ v, j.get? key = some v → P v

theorem field_iff {P : Json → Prop} {j dflt : Json} {key : Bytes} (hd : P dflt) :
    j.Field P key ↔ ∃ v, j.value key dflt = some v ∧ P v := by
  cases j with
  | obj fields =>
    have hvalue : (obj fields).value key dflt = some (((obj fields).get? key).getD dflt) := rfl
    simp only [Field, hvalue, Option.some_inj, exists_eq_left']
    refine (and_iff_right rfl).trans ?_
    cases (obj fields).get? key with
    | none => exact iff_of_true nofun hd
    | some v => exact ⟨fun h => h v rfl, fun h v' hv' => by rwa [← Option.some.inj hv']⟩
  | _ => exact iff_of_false (fun h => absurd h.1 Bool.false_ne_true) nofun

theorem string_isSome (j : Json) : j.string.isSome = j.is_string := by cases j <;> rfl

theorem value_string_isSome {j : Json} {key dflt : Bytes} :
    (j.value_string key dflt).isSome = true ↔ j.Field (·.is_string = true) key := by
  rw [@field_iff (·.is_string = true) j (str dflt) key rfl]
  unfold value_string
  cases j.value key (str dflt) with
  | none => exact iff_of_false Bool.false_ne_true nofun
  | some v => simp [string_isSome]

theorem mapM_isSome {α β : Type} {f : α → Option β} (l : List α) :
    (l.mapM f).isSome = true ↔ ∀ a ∈ l, (f a).isSome = true := by
  induction l with
  | nil => simp
  | cons a l ih =>
    rw [List.mapM_cons, List.forall_mem_cons, ← ih]
    cases f a <;> cases l.mapM f <;> simp

theorem foldlM_isSome {α β : Type} {f : β → α → Option β} {P : α → Prop} (h : ∀ b a, (f b a).isSome = true ↔ P a) (l : List α) (b : β) :
    (l.foldlM f b).isSome = true ↔ ∀ a ∈ l, P a := by
  induction l generalizing b with
  | nil => simp
  | cons a l ih =>
    rw [List.foldlM_cons, List.forall_mem_cons, ← h b a]
    cases hb : f b a with
    | none => simp
    | some b' => simpa using ih b'

end Json

end Hostely.Lib
