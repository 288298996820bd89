import Hostely.Inference.ServeLock
import Mathlib.Algebra.Group.Nat.Defs
/-!
# Whether a model fits into memory

`load_model` computes the size of the key-value cache, `FitAdvisor::check` adds the
weights and what llama.cpp needs besides, and `start` refuses what exceeds the free
memory by a gibibyte. The sums are of machine integers; they mean what they say while
they stay below 2^63.
-/

open Hostely.Lib

namespace Hostely.Models

open Inference (LoadedModel)

/-! ## The advisor -/

structure MemoryStats where
  total_bytes : UInt64
  free_bytes : UInt64
  inactive_bytes : UInt64
  valid : Bool

inductive Verdict where
  | Fits | Tight | WontFit
deriving DecidableEq

structure FitEstimate where
  tensor_bytes : UInt64
  kv_state_bytes : UInt64
  scratch_bytes : UInt64
  peak_rss_bytes : UInt64
  available_bytes : UInt64
  delta_bytes : Int64
  headroom_bytes : UInt64
  total_memory : UInt64
  verdict : Verdict
  message : Bytes

def GiB : UInt64 := 1073741824

/-- 256 MiB or a tenth of the weights. -/
def scratch (tensor_bytes : UInt64) : UInt64 :=
  let ten_pct := tensor_bytes / 10
  if 268435456 < ten_pct then ten_pct else 268435456

def available (mem : MemoryStats) (headroom_bytes : UInt64) : UInt64 :=
  let free_inactive := mem.free_bytes + mem.inactive_bytes
  if headroom_bytes < free_inactive then free_inactive - headroom_bytes else 0

def verdict_of (delta_bytes : Int64) : Verdict :=
  if delta_bytes < 0 then .Fits else if delta_bytes.toUInt64 < GiB then .Tight else .WontFit

section
variable (human_bytes : UInt64 → Bytes)

def fit_message (delta_bytes : Int64) : Verdict → Bytes
  | .Fits => bytes "fits with " ++ human_bytes (-delta_bytes).toUInt64 ++ bytes " headroom"
  | .Tight => bytes "tight: peak RSS exceeds available by " ++ human_bytes delta_bytes.toUInt64 ++ bytes " (within the 1 GiB tolerance)"
  | .WontFit => bytes "won't fit: peak RSS exceeds available by " ++ human_bytes delta_bytes.toUInt64 ++
      bytes "; reduce --ctx-size or pick a smaller quant"

/-- `FitAdvisor::check`, which does not look at the context size it is given; `mem` is
what `read_memory` says. -/
def check (mem : MemoryStats) (model : LoadedModel) (headroom_bytes : UInt64) : FitEstimate :=
  let scratch_bytes := scratch model.tensor_bytes
  let peak_rss_bytes := model.tensor_bytes + model.kv_state_bytes + scratch_bytes
  let available_bytes := if mem.valid then available mem headroom_bytes else 0
  let delta_bytes := peak_rss_bytes.toInt64 - available_bytes.toInt64
  { tensor_bytes := model.tensor_bytes
    kv_state_bytes := model.kv_state_bytes
    scratch_bytes
    peak_rss_bytes
    available_bytes
    delta_bytes
    headroom_bytes
    total_memory := mem.total_bytes
    verdict := verdict_of delta_bytes
    message := fit_message human_bytes delta_bytes (verdict_of delta_bytes) }

end

def should_proceed (est : FitEstimate) (no_fit_check : Bool) : Bool := !(est.verdict = .WontFit && !no_fit_check)

/-- The switch in `start`: whether it goes on. -/
def start_goes_on (est : FitEstimate) (no_fit_check : Bool) : Bool :=
  match est.verdict with
  | .Fits => true
  | .Tight => true
  | .WontFit => no_fit_check

/-- What `run_status` says is available for serve. -/
def status_available (mem : MemoryStats) : UInt64 :=
  let kSafety := 2 * GiB
  let free_inactive := mem.free_bytes + mem.inactive_bytes
  if kSafety < free_inactive then free_inactive - kSafety else 0

/-! ## The cache -/

/-- What llama.cpp says of the layers. -/
structure ModelShape where
  n_layer : Int32
  n_embd : Int32
  n_head : Int32
  n_head_kv : Int32

def u64 (n : Int32) : UInt64 := n.toInt64.toUInt64

/-- Keys and values of two bytes each; nothing for models that do not fit the formula. -/
def kv_state_bytes (shape : ModelShape) (ctx_size : Int32) : UInt64 :=
  if 0 < shape.n_head ∧ 0 < shape.n_head_kv ∧ 0 < shape.n_layer then
    let head_dim := u64 shape.n_embd / u64 shape.n_head
    2 * 2 * u64 shape.n_layer * u64 ctx_size * u64 shape.n_head_kv * head_dim
  else 0

/-! ## The same in numbers -/

def ModelShape.cache (shape : ModelShape) (ctx_size : Int32) : Nat :=
  if 0 < shape.n_head ∧ 0 < shape.n_head_kv ∧ 0 < shape.n_layer then
    4 * shape.n_layer.toInt.toNat * ctx_size.toInt.toNat * shape.n_head_kv.toInt.toNat *
      (shape.n_embd.toInt.toNat / shape.n_head.toInt.toNat)
  else 0

/-- Weights, cache and the rest. -/
def peak (tensor_bytes kv : Nat) : Nat := tensor_bytes + kv + max 268435456 (tensor_bytes / 10)

def MemoryStats.left (mem : MemoryStats) (headroom : Nat) : Nat :=
  if mem.valid then mem.free_bytes.toNat + mem.inactive_bytes.toNat - headroom else 0

section
variable {mem : MemoryStats} {human_bytes : UInt64 → Bytes} {model : LoadedModel} {headroom : UInt64} {shape : ModelShape}
  {ctx ctx' : Int32}

theorem toInt_toInt64 {a : UInt64} (h : a.toNat < 2 ^ 63) : a.toInt64.toInt = a.toNat :=
  BitVec.toInt_eq_toNat_of_lt (show 2 * a.toNat < 2 ^ 64 by omega)

theorem delta_exact {a b : UInt64} (ha : a.toNat < 2 ^ 63) (hb : b.toNat < 2 ^ 63) :
    (a.toInt64 - b.toInt64).toInt = (a.toNat : Int) - b.toNat := by
  rw [Int64.toInt_sub, toInt_toInt64 ha, toInt_toInt64 hb, Int.bmod_eq_of_le (by omega) (by omega)]

theorem toNat_toUInt64 {d : Int64} (h : 0 ≤ d.toInt) : d.toUInt64.toNat = d.toInt.toNat :=
  Int64.toNat_toUInt64_of_le (Int64.le_iff_toInt_le.2 h)

theorem u64_exact {n : Int32} (h : 0 ≤ n.toInt) : (u64 n).toNat = n.toInt.toNat := by
  rw [u64, toNat_toUInt64 (by rwa [Int32.toInt_toInt64]), Int32.toInt_toInt64]

theorem scratch_exact (t : UInt64) : (scratch t).toNat = max 268435456 (t.toNat / 10) := by
  have hdiv : (t / 10).toNat = t.toNat / 10 := UInt64.toNat_div t 10
  unfold scratch
  dsimp only
  split
  · rename_i h
    have hlt : 268435456 < t.toNat / 10 := hdiv ▸ UInt64.lt_iff_toNat_lt.1 h
    rw [hdiv, max_eq_right hlt.le]
  · rename_i h
    have hle : t.toNat / 10 ≤ 268435456 := not_lt.1 fun hlt => h (UInt64.lt_iff_toNat_lt.2 (hdiv.symm ▸ hlt))
    exact (max_eq_left hle).symm

theorem available_exact (h : mem.free_bytes.toNat + mem.inactive_bytes.toNat < 2 ^ 63) :
    (available mem headroom).toNat = mem.free_bytes.toNat + mem.inactive_bytes.toNat - headroom.toNat := by
  have hsum : (mem.free_bytes + mem.inactive_bytes).toNat = mem.free_bytes.toNat + mem.inactive_bytes.toNat := by
    rw [UInt64.toNat_add, Nat.mod_eq_of_lt (by omega)]
  unfold available
  dsimp only
  split
  · rename_i hlt
    rw [UInt64.toNat_sub_of_le _ _ (UInt64.le_of_lt hlt), hsum]
  · rename_i hnot
    have hle : mem.free_bytes.toNat + mem.inactive_bytes.toNat ≤ headroom.toNat :=
      not_lt.1 fun hlt => hnot (UInt64.lt_iff_toNat_lt.2 (hsum.symm ▸ hlt))
    rw [Nat.sub_eq_zero_of_le hle]
    rfl

theorem kv_exact (hembd : 0 ≤ shape.n_embd.toInt) (hctx : 0 ≤ ctx.toInt) (h : shape.cache ctx < 2 ^ 63) :
    (kv_state_bytes shape ctx).toNat = shape.cache ctx := by
  unfold ModelShape.cache at h
  unfold kv_state_bytes ModelShape.cache
  split
  · rename_i hpos
    rw [if_pos hpos] at h
    obtain ⟨hhead, hkv, hlayer⟩ := hpos
    have hlt {n : Int32} (hn : 0 < n) : 0 ≤ n.toInt := Int.le_of_lt (Int32.lt_iff_toInt_lt.1 hn)
    simp only [UInt64.toNat_mul, UInt64.toNat_div, u64_exact hembd, u64_exact hctx, u64_exact (hlt hhead), u64_exact (hlt hkv),
      u64_exact (hlt hlayer), Nat.mod_mul_mod]
    exact Nat.mod_eq_of_lt (Nat.lt_of_lt_of_le h (by decide))
  · rfl

/-- The sums of an estimate as numbers. -/
theorem check_exact (hpeak : peak model.tensor_bytes.toNat model.kv_state_bytes.toNat < 2 ^ 63)
    (hmem : mem.free_bytes.toNat + mem.inactive_bytes.toNat < 2 ^ 63) :
    (check human_bytes mem model headroom).peak_rss_bytes.toNat = peak model.tensor_bytes.toNat model.kv_state_bytes.toNat ∧
    (check human_bytes mem model headroom).available_bytes.toNat = mem.left headroom.toNat ∧
    (check human_bytes mem model headroom).delta_bytes.toInt =
      (peak model.tensor_bytes.toNat model.kv_state_bytes.toNat : Int) - mem.left headroom.toNat := by
  have hp : (model.tensor_bytes + model.kv_state_bytes + scratch model.tensor_bytes).toNat =
      peak model.tensor_bytes.toNat model.kv_state_bytes.toNat := by
    unfold peak at hpeak ⊢
    rw [UInt64.toNat_add, UInt64.toNat_add, scratch_exact, Nat.mod_add_mod, Nat.mod_eq_of_lt (by omega)]
  have ha : (if mem.valid then available mem headroom else 0).toNat = mem.left headroom.toNat := by
    unfold MemoryStats.left
    cases mem.valid with
    | false => rfl
    | true => exact available_exact hmem
  have hleft : mem.left headroom.toNat < 2 ^ 63 := by
    unfold MemoryStats.left
    split <;> omega
  refine ⟨hp, ha, ?_⟩
  have hdelta := delta_exact (hp ▸ hpeak) (ha ▸ hleft)
  rw [hp, ha] at hdelta
  exact hdelta

theorem verdict_exact {d : Int64} :
    (verdict_of d = .Fits ↔ d.toInt < 0) ∧ (verdict_of d = .Tight ↔ 0 ≤ d.toInt ∧ d.toInt < 1073741824) ∧
      (verdict_of d = .WontFit ↔ 1073741824 ≤ d.toInt) := by
  have hneg : d < 0 ↔ d.toInt < 0 := Int64.lt_iff_toInt_lt
  unfold verdict_of
  by_cases h : d < 0
  · rw [if_pos h]
    have hlt := hneg.1 h
    refine ⟨iff_of_true rfl hlt, iff_of_false (by simp) (by omega), iff_of_false (by simp) (by omega)⟩
  · rw [if_neg h]
    have hle : 0 ≤ d.toInt := Int.not_lt.1 fun hlt => h (hneg.2 hlt)
    have hgib : d.toUInt64 < GiB ↔ d.toInt < 1073741824 := by
      have hnat : d.toUInt64 < GiB ↔ d.toUInt64.toNat < 1073741824 := UInt64.lt_iff_toNat_lt
      rw [hnat, toNat_toUInt64 hle]
      omega
    by_cases hsmall : d.toUInt64 < GiB
    · rw [if_pos hsmall]
      have hlt := hgib.1 hsmall
      refine ⟨iff_of_false (by simp) (by omega), iff_of_true rfl ⟨hle, hlt⟩, iff_of_false (by simp) (by omega)⟩
    · rw [if_neg hsmall]
      have hge : 1073741824 ≤ d.toInt := Int.not_lt.1 fun hlt => hsmall (hgib.2 hlt)
      refine ⟨iff_of_false (by simp) (by omega), iff_of_false (by simp) (by omega), iff_of_true rfl hge⟩

theorem goes_on_iff (est : FitEstimate) (no_fit_check : Bool) :
    start_goes_on est no_fit_check = true ↔ est.verdict ≠ .WontFit ∨ no_fit_check = true := by
  unfold start_goes_on
  cases est.verdict <;> simp

theorem proceed_iff (est : FitEstimate) (no_fit_check : Bool) :
    should_proceed est no_fit_check = true ↔ est.verdict ≠ .WontFit ∨ no_fit_check = true := by
  unfold should_proceed
  cases est.verdict <;> simp

theorem cache_mono (hctx : ctx'.toInt ≤ ctx.toInt) : shape.cache ctx' ≤ shape.cache ctx := by
  unfold ModelShape.cache
  split
  · have hle : ctx'.toInt.toNat ≤ ctx.toInt.toNat := Int.toNat_le_toNat hctx
    exact Nat.mul_le_mul_right _ (Nat.mul_le_mul_right _ (Nat.mul_le_mul_left _ hle))
  · exact le_rfl

/-- What the model takes with a context, as the advisor is given it. -/
def with_context (model : LoadedModel) (shape : ModelShape) (ctx_size : Int32) : LoadedModel :=
  { model with kv_state_bytes := kv_state_bytes shape ctx_size }

/-- Without a wrap the three verdicts are the three ranges, `start` refuses exactly the
last one, as `should_proceed` would, a smaller context is never refused where a larger is
not, and `status` shows what the advisor compares with. -/
theorem fit_check_exact (mem : MemoryStats) (human_bytes : UInt64 → Bytes) (model : LoadedModel) (shape : ModelShape) {ctx : Int32}
    (no_fit_check : Bool) (hembd : 0 ≤ shape.n_embd.toInt) (hctx : 0 ≤ ctx.toInt)
    (hpeak : peak model.tensor_bytes.toNat (shape.cache ctx) < 2 ^ 63)
    (hmem : mem.free_bytes.toNat + mem.inactive_bytes.toNat < 2 ^ 63) :
    let headroom := 2 * GiB
    let est (ctx : Int32) := check human_bytes mem (with_context model shape ctx) headroom
    let p := peak model.tensor_bytes.toNat (shape.cache ctx)
    let left := mem.left headroom.toNat
    ((est ctx).verdict = .Fits ↔ p < left) ∧
    ((est ctx).verdict = .Tight ↔ left ≤ p ∧ p < left + 1073741824) ∧
    (start_goes_on (est ctx) no_fit_check = true ↔ p < left + 1073741824 ∨ no_fit_check = true) ∧
    start_goes_on (est ctx) no_fit_check = should_proceed (est ctx) no_fit_check ∧
    (∀ ctx' : Int32, 0 ≤ ctx'.toInt → ctx'.toInt ≤ ctx.toInt → start_goes_on (est ctx) no_fit_check = true →
      start_goes_on (est ctx') no_fit_check = true) ∧
    (mem.valid = true → status_available mem = (est ctx).available_bytes) := by
  intro headroom est p left
  have hall (c : Int32) (hc : 0 ≤ c.toInt) (hle : c.toInt ≤ ctx.toInt) :
      ((est c).verdict = .Fits ↔ peak model.tensor_bytes.toNat (shape.cache c) < left) ∧
      ((est c).verdict = .Tight ↔ left ≤ peak model.tensor_bytes.toNat (shape.cache c) ∧
        peak model.tensor_bytes.toNat (shape.cache c) < left + 1073741824) ∧
      ((est c).verdict = .WontFit ↔ left + 1073741824 ≤ peak model.tensor_bytes.toNat (shape.cache c)) := by
    have hcache := @cache_mono shape ctx c hle
    have hbound : peak model.tensor_bytes.toNat (shape.cache c) < 2 ^ 63 := by
      unfold peak at hpeak ⊢
      omega
    have hkv : (with_context model shape c).kv_state_bytes.toNat = shape.cache c :=
      kv_exact hembd hc (by unfold peak at hbound; omega)
    have hsum : peak (with_context model shape c).tensor_bytes.toNat (with_context model shape c).kv_state_bytes.toNat < 2 ^ 63 := by
      rw [hkv]
      exact hbound
    obtain ⟨-, -, hdelta⟩ := @check_exact mem human_bytes (with_context model shape c) headroom hsum hmem
    rw [hkv] at hdelta
    have hdelta : (est c).delta_bytes.toInt = (peak model.tensor_bytes.toNat (shape.cache c) : Int) - left := hdelta
    obtain ⟨hfits, htight, hwont⟩ := @verdict_exact (est c).delta_bytes
    have hverdict : (est c).verdict = verdict_of (est c).delta_bytes := rfl
    rw [hverdict, hfits, htight, hwont, hdelta]
    omega
  obtain ⟨hfits, htight, hwont⟩ := hall ctx hctx (Int.le_refl _)
  have hgoes : start_goes_on (est ctx) no_fit_check = true ↔ p < left + 1073741824 ∨ no_fit_check = true := by
    rw [goes_on_iff, Ne, hwont, not_le]
  refine ⟨hfits, htight, hgoes, ?_, fun c hc hle hgo => ?_, fun hvalid => ?_⟩
  · rw [Bool.eq_iff_iff, goes_on_iff, proceed_iff]
  · obtain ⟨-, -, hwont'⟩ := hall c hc hle
    rw [goes_on_iff, Ne, hwont', not_le]
    refine (hgoes.1 hgo).imp_left fun hlt => Nat.lt_of_le_of_lt ?_ hlt
    have hcache := @cache_mono shape ctx c hle
    show peak _ _ ≤ peak _ _
    unfold peak
    omega
  · show status_available mem = if mem.valid then available mem headroom else 0
    rw [if_pos hvalid]
    rfl

/-- Four gibibytes of weights with a half for the cache, beside eight free and one
inactive. -/
theorem fit_check_exact_fits : (check (fun _ => []) ⟨17179869184, 8589934592, 1073741824, true⟩
    (with_context ⟨[], [], [], 0, 4294967296, 0, 4096⟩ ⟨32, 4096, 32, 8⟩ 4096) (2 * GiB)).verdict = .Fits :=
  (fit_check_exact ⟨17179869184, 8589934592, 1073741824, true⟩ (fun _ => []) ⟨[], [], [], 0, 4294967296, 0, 4096⟩
    ⟨32, 4096, 32, 8⟩ false (by decide) (by decide) (by decide) (by decide)).1.2 (by decide)

end

end Hostely.Models
