import Hostely.Lib.Text
/-!
# base64url without padding

Three bytes are four characters of six bits; one byte left over is two
characters, two bytes are three. The decoder takes nothing but what the encoder
writes.
-/

namespace Hostely.Lib.Base64url

/-! ## Characters -/

def alphabet : Bytes := bytes "ABCDEFGHIJKLMNOPQRSTUVWXYZabcdefghijklmnopqrstuvwxyz0123456789-_"

/-- The character of six bits. -/
def char (n : Nat) : UInt8 := alphabet.getD n 0

def sextet (c : UInt8) : Option Nat := alphabet.findIdx? (· = c)

theorem sextet_char {n : Nat} (h : n < 64) : sextet (char n) = some n := by
  have hall : ∀ i : Fin 64, sextet (char i) = some i.val := by decide +kernel
  exact hall ⟨n, h⟩

/-! ## Encoding -/

/-- The first, second, third and fourth six bits of three bytes. -/
def first (a : UInt8) : UInt8 := char (a.toNat / 4)

def second (a b : UInt8) : UInt8 := char (a.toNat % 4 * 16 + b.toNat / 16)

def third (b c : UInt8) : UInt8 := char (b.toNat % 16 * 4 + c.toNat / 64)

def fourth (c : UInt8) : UInt8 := char (c.toNat % 64)

def encode : Bytes → Bytes
  | [] => []
  | [a] => [first a, second a 0]
  | [a, b] => [first a, second a b, third b 0]
  | a :: b :: c :: rest => first a :: second a b :: third b c :: fourth c :: encode rest

theorem encode_length (d : Bytes) : (encode d).length = (4 * d.length + 2) / 3 := by
  fun_induction encode d with
  | case1 => rfl
  | case2 a => simp
  | case3 a b => simp
  | case4 a b c rest ih =>
    simp only [List.length_cons, ih]
    omega

/-! ## Decoding -/

def decode : Bytes → Option Bytes
  | [] => some []
  | [_] => none
  | [p, q] => do
    let x ← sextet p
    let y ← sextet q
    if y % 16 = 0 then return [UInt8.ofNat (x * 4 + y / 16)] else none
  | [p, q, r] => do
    let x ← sextet p
    let y ← sextet q
    let z ← sextet r
    if z % 4 = 0 then return [UInt8.ofNat (x * 4 + y / 16), UInt8.ofNat (y % 16 * 16 + z / 4)] else none
  | p :: q :: r :: s :: rest => do
    let x ← sextet p
    let y ← sextet q
    let z ← sextet r
    let w ← sextet s
    let d ← decode rest
    return UInt8.ofNat (x * 4 + y / 16) :: UInt8.ofNat (y % 16 * 16 + z / 4) :: UInt8.ofNat (z % 4 * 64 + w) :: d

section
variable (a b c : UInt8)

theorem sextet_first : sextet (first a) = some (a.toNat / 4) := sextet_char (by have := a.toNat_lt; omega)

theorem sextet_second : sextet (second a b) = some (a.toNat % 4 * 16 + b.toNat / 16) :=
  sextet_char (by have := b.toNat_lt; omega)

theorem sextet_third : sextet (third b c) = some (b.toNat % 16 * 4 + c.toNat / 64) :=
  sextet_char (by have := c.toNat_lt; omega)

theorem sextet_fourth : sextet (fourth c) = some (c.toNat % 64) := sextet_char (by omega)

end

section
variable (a b c : UInt8)

theorem first_byte : UInt8.ofNat (a.toNat / 4 * 4 + (a.toNat % 4 * 16 + b.toNat / 16) / 16) = a := by
  have hb := b.toNat_lt
  have hsum : a.toNat / 4 * 4 + (a.toNat % 4 * 16 + b.toNat / 16) / 16 = a.toNat := by omega
  rw [hsum, UInt8.ofNat_toNat]

theorem second_byte :
    UInt8.ofNat ((a.toNat % 4 * 16 + b.toNat / 16) % 16 * 16 + (b.toNat % 16 * 4 + c.toNat / 64) / 4) = b := by
  have hb := b.toNat_lt
  have hc := c.toNat_lt
  have hsum : (a.toNat % 4 * 16 + b.toNat / 16) % 16 * 16 + (b.toNat % 16 * 4 + c.toNat / 64) / 4 = b.toNat := by omega
  rw [hsum, UInt8.ofNat_toNat]

theorem third_byte : UInt8.ofNat ((b.toNat % 16 * 4 + c.toNat / 64) % 4 * 64 + c.toNat % 64) = c := by
  have hc := c.toNat_lt
  have hsum : (b.toNat % 16 * 4 + c.toNat / 64) % 4 * 64 + c.toNat % 64 = c.toNat := by omega
  rw [hsum, UInt8.ofNat_toNat]

end

/-- The decoder recovers what was encoded. -/
theorem decode_encode (d : Bytes) : decode (encode d) = some d := by
  fun_induction encode d with
  | case1 => rfl
  | case2 a =>
    have hzero : (a.toNat % 4 * 16 + (0 : UInt8).toNat / 16) % 16 = 0 := by simp
    simp only [decode, sextet_first, sextet_second, Option.bind_eq_bind, Option.bind_some, if_pos hzero, first_byte, pure]
  | case3 a b =>
    have hzero : (b.toNat % 16 * 4 + (0 : UInt8).toNat / 64) % 4 = 0 := by simp
    simp only [decode, sextet_first, sextet_second, sextet_third, Option.bind_eq_bind, Option.bind_some, if_pos hzero,
      first_byte, second_byte, pure]
  | case4 a b c rest ih =>
    simp only [decode, sextet_first, sextet_second, sextet_third, sextet_fourth, ih, Option.bind_eq_bind, Option.bind_some,
      first_byte, second_byte, third_byte, pure]

/-- Four characters are three bytes. -/
theorem decode_length {t d : Bytes} (h : decode t = some d) : d.length = 3 * t.length / 4 := by
  fun_induction decode t generalizing d with
  | case1 =>
    obtain rfl := Option.some.inj h
    rfl
  | case2 => cases h
  | case3 p q =>
    obtain ⟨x, -, h⟩ := Option.bind_eq_some_iff.1 h
    obtain ⟨y, -, h⟩ := Option.bind_eq_some_iff.1 h
    split at h
    · obtain rfl := Option.some.inj h
      simp
    · cases h
  | case4 p q r =>
    obtain ⟨x, -, h⟩ := Option.bind_eq_some_iff.1 h
    obtain ⟨y, -, h⟩ := Option.bind_eq_some_iff.1 h
    obtain ⟨z, -, h⟩ := Option.bind_eq_some_iff.1 h
    split at h
    · obtain rfl := Option.some.inj h
      simp
    · cases h
  | case5 p q r s rest ih =>
    obtain ⟨x, -, h⟩ := Option.bind_eq_some_iff.1 h
    obtain ⟨y, -, h⟩ := Option.bind_eq_some_iff.1 h
    obtain ⟨z, -, h⟩ := Option.bind_eq_some_iff.1 h
    obtain ⟨w, -, h⟩ := Option.bind_eq_some_iff.1 h
    obtain ⟨d', hrest, h⟩ := Option.bind_eq_some_iff.1 h
    obtain rfl := Option.some.inj h
    simp only [List.length_cons, ih hrest]
    omega

end Hostely.Lib.Base64url
