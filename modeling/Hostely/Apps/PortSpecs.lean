import Hostely.Apps.Ports
import Hostely.Apps.Splitting
/-!
# Port specs

`parse_ports` cuts a spec at its last colon, `app_up` takes the number in front and
`Manager::run` puts the two together again. An address is in front of the host
port, so the number taken is the first of the address.
-/

open Hostely.Lib Hostely.Services

namespace Hostely.Apps

/-! ## Specs -/

def Digits (text : Bytes) : Prop := text ≠ [] ∧ ∀ c ∈ text, isdigit c = true

instance (text : Bytes) : Decidable (Digits text) := inferInstanceAs (Decidable (_ ∧ _))

/-- The digits of a port. -/
abbrev Port := { text : Bytes // Digits text ∧ 1 ≤ decimal text ∧ decimal text ≤ 65535 }

abbrev Octet := { text : Bytes // Digits text ∧ decimal text ≤ 255 }

/-- An IPv4 address. -/
structure Dotted where
  a : Octet
  b : Octet
  c : Octet
  d : Octet

def Dotted.text (ip : Dotted) : Bytes :=
  ip.a.1 ++ bytes "." ++ ip.b.1 ++ bytes "." ++ ip.c.1 ++ bytes "." ++ ip.d.1

/-- `c`, `h:c` or `ip:h:c`. -/
inductive PortSpec where
  | container (c : Port)
  | host (h c : Port)
  | address (ip : Dotted) (h c : Port)

/-- The address to publish on, if one is named, the port of the host and the port of
the container. -/
abbrev Publication := Option Bytes × Nat × Nat

namespace PortSpec

def text : PortSpec → Bytes
  | container c => c.1
  | host h c => h.1 ++ bytes ":" ++ c.1
  | address ip h c => ip.text ++ bytes ":" ++ h.1 ++ bytes ":" ++ c.1

def names : PortSpec → Publication
  | container c => (none, decimal c.1, decimal c.1)
  | host h c => (none, decimal h.1, decimal c.1)
  | address ip h c => (some ip.text, decimal h.1, decimal c.1)

end PortSpec

/-! ## Publishing -/

/-- What an argument of `-p` publishes. -/
def published (arg : Bytes) : Option Publication :=
  match splitAt (· = 58) arg with
  | [h, c] => some (none, decimal h, decimal c)
  | [ip, h, c] => some (some ip, decimal h, decimal c)
  | _ => none

/-- The pairs that `app_up` passes on for one entry of `ports`, when no host port is
in use or claimed. -/
def passed (env : Env) (spec : Bytes) : Option (List (Bytes × Bytes)) :=
  (pick_ports (fun _ _ => false) [] ((parse_ports (.seq [.scalar spec])).map (halves env))).map Prod.fst

/-- The spec is passed on as one pair, and the `-p` argument built from it publishes
what the spec names. -/
def Publishes (spec : PortSpec) : Prop :=
  ∀ (env : Env) (cli_path app : Bytes) (s : ComposeService), ∃ pair arg rest, passed env spec.text = some [pair] ∧
    run_argv cli_path (run_options app s [pair]) =
      [cli_path, bytes "run", bytes "-d", bytes "--name", container_name app s.name, bytes "-p", arg] ++ rest ∧
    published arg = some spec.names

/-! ## Texts without colons -/

theorem bytes_colon : bytes ":" = [58] := by decide

theorem Digits.not_mem {text : Bytes} (h : Digits text) {c : UInt8} (hc : isdigit c = false) : c ∉ text :=
  fun hm => by simp [h.2 c hm] at hc

theorem Dotted.not_mem (ip : Dotted) {c : UInt8} (hc : isdigit c = false) (hdot : c ≠ 46) : c ∉ ip.text := by
  have hone : bytes "." = [46] := by decide
  simp [Dotted.text, hone, hdot, ip.a.2.1.not_mem hc, ip.b.2.1.not_mem hc, ip.c.2.1.not_mem hc, ip.d.2.1.not_mem hc]

theorem digits_not_colon (n : Nat) : 58 ∉ digits 10 n := fun hm => absurd (digits_isdigit n 58 hm) (by decide)

/-! ## The pair of a spec -/

/-- The texts before and after the last colon. -/
def PortSpec.pair : PortSpec → Bytes × Bytes
  | container c => (c.1, c.1)
  | host h c => (h.1, c.1)
  | address ip h c => (ip.text ++ bytes ":" ++ h.1, c.1)

theorem port_spec_text (spec : PortSpec) : port_spec spec.text = spec.pair := by
  cases spec with
  | container c =>
    rw [PortSpec.text, port_spec, split_last_unmarked (c.2.1.not_mem (by decide))]
    rfl
  | host h c =>
    rw [PortSpec.text, port_spec, bytes_colon, List.append_assoc, List.singleton_append,
      split_last_mark (c.2.1.not_mem (by decide))]
    rfl
  | address ip h c =>
    rw [PortSpec.text, port_spec, List.append_assoc, bytes_colon, List.singleton_append,
      split_last_mark (c.2.1.not_mem (by decide))]
    rfl

/-- No byte of a spec but its digits, dots and colons. -/
theorem PortSpec.not_mem (spec : PortSpec) {c : UInt8} (hc : isdigit c = false) (hdot : c ≠ 46) (hcolon : c ≠ 58) :
    c ∉ spec.text ∧ c ∉ spec.pair.1 ∧ c ∉ spec.pair.2 := by
  cases spec with
  | container p => simp [text, pair, p.2.1.not_mem hc]
  | host h p => simp [text, pair, bytes_colon, hcolon, h.2.1.not_mem hc, p.2.1.not_mem hc]
  | address ip h p => simp [text, pair, bytes_colon, hcolon, ip.not_mem hc hdot, h.2.1.not_mem hc, p.2.1.not_mem hc]

theorem trim_solid {t : Bytes} (h : ∀ c ∈ t, isspace c = false) : trim t = t := by
  have hdrop : ∀ {l : Bytes}, (∀ c ∈ l, isspace c = false) → l.dropWhile isspace = l := by
    intro l hl
    cases l with
    | nil => rfl
    | cons c l => exact List.dropWhile_cons_of_neg (by simp [hl c List.mem_cons_self])
  rw [trim, hdrop h, hdrop fun c hc => h c (List.mem_reverse.1 hc), List.reverse_reverse]

theorem PortSpec.trim_text (spec : PortSpec) : trim spec.text = spec.text := by
  apply trim_solid
  intro c hc
  have hother := forall_byte (p := fun c => !isspace c || (!isdigit c && c != 46 && c != 58)) (by decide +kernel) c
  by_contra hspace
  simp only [Bool.not_eq_false] at hspace
  simp only [hspace, Bool.not_true, Bool.false_or, Bool.and_eq_true, Bool.not_eq_true', bne_iff_ne] at hother
  exact (spec.not_mem hother.1.1 hother.1.2 hother.2).1 hc

/-- A text without a dollar means itself. -/
theorem interpolate_solid (env : Env) {t : Bytes} (h : 36 ∉ t) : interpolate env t = t := by
  have hnil : interpolate env [] = [] := rfl
  have := @interpolate_literal env t [] (fun hin => h (hin.subset (by decide)))
    fun hlast => absurd (List.mem_of_mem_getLast? hlast) h
  rwa [hnil, List.append_nil] at this

/-- What is passed on for a pair when every port is free. -/
def picked (pair : Bytes × Bytes) : Bytes × Bytes :=
  if atoi pair.1 ≤ 0 then pair else (to_string (atoi pair.1), pair.2)

theorem passed_eq (env : Env) (spec : PortSpec) : passed env spec.text = some [picked spec.pair] := by
  obtain ⟨-, hfst, hsnd⟩ := spec.not_mem (c := 36) (by decide) (by decide) (by decide)
  have hports : (parse_ports (.seq [.scalar spec.text])).map (halves env) = [spec.pair] := by
    rw [parse_ports, List.map_singleton, node_scalar, spec.trim_text, port_spec_text, List.map_singleton, halves,
      interpolate_solid env hfst, interpolate_solid env hsnd]
  rw [passed, hports, pick_ports, List.foldlM_cons]
  unfold add_port picked pick_port
  by_cases hpos : atoi spec.pair.1 ≤ 0
  · simp [hpos]
  · simp [hpos]

/-! ## What is published -/

theorem published_two {h c : Bytes} (hh : 58 ∉ h) (hc : 58 ∉ c) :
    published (h ++ bytes ":" ++ c) = some (none, decimal h, decimal c) := by
  have hsplit : splitAt (· = 58) (h ++ bytes ":" ++ c) = [h, c] := by
    have := @splitAt_lines 58 h [c] hh (by simpa using hc)
    simpa [bytes_colon] using this
  rw [published, hsplit]

theorem published_three {ip h c : Bytes} (hip : 58 ∉ ip) (hh : 58 ∉ h) (hc : 58 ∉ c) :
    published (ip ++ bytes ":" ++ h ++ bytes ":" ++ c) = some (some ip, decimal h, decimal c) := by
  have hsplit : splitAt (· = 58) (ip ++ bytes ":" ++ h ++ bytes ":" ++ c) = [ip, h, c] := by
    have := @splitAt_lines 58 ip [h, c] hip (by simp [hh, hc])
    simpa [bytes_colon] using this
  rw [published, hsplit]

theorem atoi_port (p : Port) : atoi p.1 = (decimal p.1 : Nat) := by
  have h := @atoi_digits p.1 [] p.2.1.2 (by simp) p.2.1.1 (by have := p.2.2.2; omega)
  rwa [List.append_nil] at h

/-- The number at the start of an address and a port is the first of the address. -/
theorem atoi_address (ip : Dotted) (rest : Bytes) : atoi (ip.text ++ rest) = (decimal ip.a.1 : Nat) := by
  have htext : ip.text ++ rest = ip.a.1 ++ 46 :: (ip.b.1 ++ bytes "." ++ ip.c.1 ++ bytes "." ++ ip.d.1 ++ rest) := by
    have hdot : bytes "." = [46] := by decide
    simp [Dotted.text, hdot]
  rw [htext]
  exact atoi_digits ip.a.2.1.2 (by rintro c ⟨⟩; rfl) ip.a.2.1.1 (by have := ip.a.2.2; omega)

/-- The argument of `-p`. -/
def publish_arg (pair : Bytes × Bytes) : Bytes := pair.1 ++ bytes ":" ++ pair.2

theorem published_number {n : Nat} {c : Bytes} (hc : 58 ∉ c) :
    published (to_string n ++ bytes ":" ++ c) = some (none, n, decimal c) := by
  have htext : to_string (n : Int) = digits 10 n := if_neg (by omega)
  rw [htext, published_two (digits_not_colon n) hc, decimal_digits]

theorem published_picked (spec : PortSpec) :
    published (publish_arg (picked spec.pair)) = some spec.names ↔
      ∀ ip h c, spec = .address ip h c → decimal ip.a.1 = 0 := by
  have hport (p : Port) : ¬ (decimal p.1 : Int) ≤ 0 := by
    have := p.2.2.1
    omega
  cases spec with
  | container c =>
    rw [PortSpec.pair, picked, atoi_port, if_neg (hport c), publish_arg, published_number (c.2.1.not_mem (by decide))]
    exact iff_of_true rfl nofun
  | host h c =>
    rw [PortSpec.pair, picked, atoi_port, if_neg (hport h), publish_arg, published_number (c.2.1.not_mem (by decide))]
    exact iff_of_true rfl nofun
  | address ip h c =>
    have hc : 58 ∉ c.1 := c.2.1.not_mem (by decide)
    rw [PortSpec.pair, picked, List.append_assoc, atoi_address, ← List.append_assoc]
    by_cases hzero : decimal ip.a.1 = 0
    · rw [if_pos (by omega), publish_arg,
        published_three (ip.not_mem (by decide) (by decide)) (h.2.1.not_mem (by decide)) hc]
      refine iff_of_true rfl ?_
      rintro _ _ _ ⟨⟩
      exact hzero
    · -- the first number of the address is taken for the port, and the address is gone
      rw [if_neg (by omega), publish_arg, published_number hc]
      exact iff_of_false (by simp [PortSpec.names]) fun hall => hzero (hall ip h c rfl)

theorem publishes_picked (spec : PortSpec) :
    Publishes spec ↔ published (publish_arg (picked spec.pair)) = some spec.names := by
  constructor
  · intro hpub
    obtain ⟨pair, arg, rest, hpassed, hargv, harg⟩ := hpub ⟨[], fun _ => none⟩ [] [] (toyService "web" "nginx")
    obtain rfl := (List.cons.inj (Option.some.inj ((passed_eq _ spec).symm.trans hpassed))).1
    have hsame : publish_arg (picked spec.pair) = arg := by
      have := congrArg (·[6]?) hargv
      exact Option.some.inj this
    rwa [hsame]
  · intro harg env cli_path app s
    exact ⟨picked spec.pair, publish_arg (picked spec.pair), _, passed_eq env spec, rfl, harg⟩

/-- A spec is published as it says exactly if it has no address, or one whose first
number is 0. -/
theorem publishes_iff (spec : PortSpec) : Publishes spec ↔ ∀ ip h c, spec = .address ip h c → decimal ip.a.1 = 0 :=
  (publishes_picked spec).trans (published_picked spec)

/-- Of `127.0.0.1:8080:80` port 127 is published, on every address. -/
theorem loopback_published_wide :
    (passed ⟨[], fun _ => none⟩ (bytes "127.0.0.1:8080:80")).map (·.map publish_arg) = some [bytes "127:80"] ∧
      published (bytes "127:80") = some (none, 127, 80) ∧ ¬ ∀ spec, Publishes spec := by
  refine ⟨by decide +kernel, by decide +kernel, fun h => ?_⟩
  have hpub := h (.address
    ⟨⟨bytes "127", by decide +kernel⟩, ⟨bytes "0", by decide +kernel⟩, ⟨bytes "0", by decide +kernel⟩,
      ⟨bytes "1", by decide +kernel⟩⟩
    ⟨bytes "8080", by decide +kernel⟩ ⟨bytes "80", by decide +kernel⟩)
  have hzero := (published_picked _).1 ((publishes_picked _).1 hpub) _ _ _ rfl
  exact absurd hzero (by decide)

end Hostely.Apps
