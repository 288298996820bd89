import Hostely.Lib.Optimum
import Hostely.Models.Pull
/-!
# The file of a repository

`pick_sibling` by indices, as it is written: a pass over the files for each of its
three rules, with the best index so far and its size.
-/

open Hostely.Lib

namespace Hostely.Models.Siblings

/-! ## Names -/

def is_gguf (f : Bytes) : Bool := 5 ≤ f.length && f.drop (f.length - 5) = bytes ".gguf"

def ends_with_quant (fname q : Bytes) : Bool :=
  -- the dot, the quant, the five of `.gguf` and at least one byte before
  if fname.length < q.length + 7 then false
  else
    let quant_at := fname.length - 5 - q.length
    if (fname.drop quant_at).take q.length ≠ q then false
    else if fname[quant_at - 1]? ≠ some 46 then false
    else if fname.drop (fname.length - 5) ≠ bytes ".gguf" then false
    else true

/-- What the names are to be. -/
def IsGguf (f : Bytes) : Prop := bytes ".gguf" <:+ f

def HasQuant (q f : Bytes) : Prop := ∃ x, x ≠ [] ∧ f = x ++ bytes "." ++ q ++ bytes ".gguf"

def Recognised (f : Bytes) : Prop := ∃ k ∈ kRecognisedQuants, HasQuant k f

theorem gguf_length : (bytes ".gguf").length = 5 := rfl

theorem is_gguf_iff (f : Bytes) : is_gguf f = true ↔ IsGguf f := by
  rw [IsGguf, List.suffix_iff_eq_drop, gguf_length, is_gguf, Bool.and_eq_true, decide_eq_true_eq, decide_eq_true_eq]
  constructor
  · exact fun h => h.2.symm
  · intro h
    have hlength := congrArg List.length h
    rw [gguf_length, List.length_drop] at hlength
    exact ⟨by omega, h.symm⟩

/-- The name cut where `ends_with_quant` looks. -/
theorem name_eq {fname q : Bytes} {k : Nat} (hk : k + 1 + q.length + 5 = fname.length) (hdot : fname[k]? = some 46)
    (hquant : (fname.drop (k + 1)).take q.length = q) (hgguf : fname.drop (fname.length - 5) = bytes ".gguf") :
    fname = fname.take k ++ bytes "." ++ q ++ bytes ".gguf" := by
  have hrest : fname.drop (k + 1) = q ++ bytes ".gguf" := by
    have hcut := List.take_append_drop q.length (fname.drop (k + 1))
    rwa [hquant, List.drop_drop, show k + 1 + q.length = fname.length - 5 by omega, hgguf, eq_comm] at hcut
  obtain ⟨hlt, hget⟩ := List.getElem?_eq_some_iff.1 hdot
  have hcut := List.take_append_drop k fname
  rw [List.drop_eq_getElem_cons hlt, hget, hrest] at hcut
  rw [List.append_assoc, List.append_assoc]
  exact hcut.symm

theorem ends_with_quant_iff (fname q : Bytes) : ends_with_quant fname q = true ↔ HasQuant q fname := by
  unfold ends_with_quant
  constructor
  · intro h
    split at h
    · cases h
    · rename_i hlength
      dsimp only at h
      split at h
      · cases h
      · rename_i hquant
        split at h
        · cases h
        · rename_i hdot
          split at h
          · cases h
          · rename_i hgguf
            rw [not_ne_iff] at hquant hdot hgguf
            have hat : fname.length - 5 - q.length = fname.length - 5 - q.length - 1 + 1 := by omega
            rw [hat] at hquant
            refine ⟨_, ?_, name_eq (by omega) hdot hquant hgguf⟩
            intro hnil
            have := congrArg List.length hnil
            rw [List.length_take, List.length_nil] at this
            omega
  · rintro ⟨x, hx, rfl⟩
    have hpos : 0 < x.length := List.length_pos_of_ne_nil hx
    have hname : x ++ bytes "." ++ q ++ bytes ".gguf" = x ++ 46 :: (q ++ bytes ".gguf") := by
      rw [List.append_assoc, List.append_assoc]
      rfl
    have hlength : (x ++ 46 :: (q ++ bytes ".gguf")).length = x.length + 1 + q.length + 5 := by
      rw [List.length_append, List.length_cons, List.length_append, gguf_length]
      omega
    have hat : x.length + 1 + q.length + 5 - 5 - q.length = x.length + 1 := by omega
    have hend : x.length + 1 + q.length + 5 - 5 = x.length + 1 + q.length := by omega
    have hrest : (x ++ 46 :: (q ++ bytes ".gguf")).drop (x.length + 1) = q ++ bytes ".gguf" := by simp
    rw [hname, hlength, hat, hend, if_neg (by omega), ← List.drop_drop, hrest]
    simp

/-! ## The passes -/

/-- The indices of the GGUF files, each with its file, and what is listed as available. -/
def collect (sibs : List HfSibling) : List (HfSibling × Nat) × List (Bytes × UInt64) :=
  sibs.zipIdx.foldl (fun (gguf_idx, available_out) (s, i) =>
    if is_gguf s.rfilename then (gguf_idx ++ [(s, i)], available_out ++ [(s.rfilename, s.size_bytes)])
    else (gguf_idx, available_out)) ([], [])

/-- A pass: the best index, none at first, and its size. -/
def pass (wanted : Bytes → Bool) (beats : UInt64 → UInt64 → Bool) (size : UInt64) (gguf_idx : List (HfSibling × Nat)) :
    Option Nat × UInt64 :=
  gguf_idx.foldl (fun (best, best_size) (s, i) =>
    if wanted s.rfilename && (best.isNone || beats s.size_bytes best_size) then (some i, s.size_bytes)
    else (best, best_size)) (none, size)

def best_exact (quant : Bytes) (gguf_idx : List (HfSibling × Nat)) : Option Nat :=
  (pass (ends_with_quant · quant) (fun size best => best < size) 0 gguf_idx).1

/-- The loop over the quants ends at the first that the name has. -/
def best_quant_idx (gguf_idx : List (HfSibling × Nat)) : Option Nat :=
  (pass (fun f => kRecognisedQuants.any fun q => ends_with_quant f q) (fun size best => size < best) 18446744073709551615 gguf_idx).1

def biggest_idx (gguf_idx : List (HfSibling × Nat)) : Option Nat :=
  (pass (fun _ => true) (fun size best => best < size) 0 gguf_idx).1

/-- `idx_out`, none when it returns false, and `available_out`. -/
def pick_sibling (sibs : List HfSibling) (quant : Bytes) : Option Nat × List (Bytes × UInt64) :=
  let (gguf_idx, available_out) := collect sibs
  if gguf_idx = [] then (none, available_out)
  else match best_exact quant gguf_idx with
    | some i => (some i, available_out)
    | none =>
      match best_quant_idx gguf_idx with
      | some i => (some i, available_out)
      | none => (biggest_idx gguf_idx, available_out)

theorem collect_eq (sibs : List HfSibling) : collect sibs =
    (sibs.zipIdx.filter fun s => is_gguf s.1.rfilename,
      (sibs.filter fun s => is_gguf s.rfilename).map fun s => (s.rfilename, s.size_bytes)) := by
  unfold collect
  induction sibs using List.reverseRecOn with
  | nil => rfl
  | append_singleton sibs s ih =>
    rw [List.zipIdx_append, List.foldl_append, ih]
    cases hs : is_gguf s.rfilename <;> simp [hs]

/-- A pass finds the best of those it wants. -/
theorem pass_eq {β : Type} [LinearOrder β] (key : UInt64 → β) {wanted : Bytes → Bool} {beats : UInt64 → UInt64 → Bool}
    (hbeats : ∀ a b, beats a b = true ↔ key b < key a) (size : UInt64) (gguf_idx : List (HfSibling × Nat)) :
    (pass wanted beats size gguf_idx).1 =
      ((gguf_idx.filter fun s => wanted s.1.rfilename).argmax fun s => key s.1.size_bytes).map Prod.snd := by
  -- the size kept is that of the best so far
  have hloop : pass wanted beats size gguf_idx =
      match (gguf_idx.filter fun s => wanted s.1.rfilename).argmax fun s => key s.1.size_bytes with
      | none => (none, size)
      | some (s, i) => (some i, s.size_bytes) := by
    unfold pass
    induction gguf_idx using List.reverseRecOn with
    | nil => rfl
    | append_singleton gguf_idx s ih =>
      rw [List.foldl_append, ih, List.filter_append]
      cases hs : wanted s.1.rfilename with
      | false => simp [hs]
      | true =>
        rw [List.filter_cons_of_pos (by exact hs), List.filter_nil, List.argmax_concat]
        cases (gguf_idx.filter fun s => wanted s.1.rfilename).argmax fun s => key s.1.size_bytes with
        | none => simp [hs]
        | some c =>
          by_cases hbetter : key c.1.size_bytes < key s.1.size_bytes
          · simp [hs, hbetter, (hbeats _ _).2 hbetter]
          · have hworse : beats s.1.size_bytes c.1.size_bytes = false := by
              rw [← Bool.not_eq_true, hbeats]
              exact hbetter
            simp [hs, hbetter, hworse]
  rw [hloop]
  cases (gguf_idx.filter fun s => wanted s.1.rfilename).argmax fun s => key s.1.size_bytes <;> rfl

/-! ## The rules -/

/-- The first index of maximal, and of minimal size among the files with such a name. -/
def FirstLargest (P : Bytes → Prop) (sibs : List HfSibling) (i : Nat) : Prop :=
  FirstMax (fun s => s.size_bytes.toNat) (fun s => P s.rfilename) sibs i

def FirstSmallest (P : Bytes → Prop) (sibs : List HfSibling) (i : Nat) : Prop :=
  FirstMax (fun s => OrderDual.toDual s.size_bytes.toNat) (fun s => P s.rfilename) sibs i

section
variable {sibs : List HfSibling} {quant : Bytes}

theorem HasQuant.gguf {q f : Bytes} (h : HasQuant q f) : IsGguf f := by
  obtain ⟨x, -, rfl⟩ := h
  exact List.suffix_append _ _

theorem Recognised.gguf {f : Bytes} (h : Recognised f) : IsGguf f := by
  obtain ⟨k, -, hk⟩ := h
  exact hk.gguf

/-- A pass over the GGUF files. -/
theorem pass_first {β : Type} [LinearOrder β] (key : UInt64 → β) {wanted : Bytes → Bool} {beats : UInt64 → UInt64 → Bool}
    (hbeats : ∀ a b, beats a b = true ↔ key b < key a) (size : UInt64) {P : Bytes → Prop}
    (hP : ∀ f, (wanted f && is_gguf f) = true ↔ P f) :
    ((pass wanted beats size (collect sibs).1).1 = none ↔ ∀ s ∈ sibs, ¬ P s.rfilename) ∧
      ∀ i, (pass wanted beats size (collect sibs).1).1 = some i →
        FirstMax (fun s => key s.size_bytes) (fun s => P s.rfilename) sibs i := by
  rw [pass_eq key hbeats, collect_eq, List.filter_filter]
  constructor
  · rw [Option.map_eq_none_iff, List.argmax_eq_none, List.filter_eq_nil_iff]
    constructor
    · intro h s hs hPs
      obtain ⟨i, hi⟩ := List.getElem?_of_mem hs
      exact h (s, i) (List.mem_zipIdx_iff_getElem?.2 hi) ((hP _).2 hPs)
    · intro h s hs hwanted
      exact h s.1 (List.mem_of_getElem? (List.mem_zipIdx_iff_getElem?.1 hs)) ((hP _).1 hwanted)
  · intro i hi
    obtain ⟨m, hm, rfl⟩ := Option.map_eq_some_iff.1 hi
    exact @firstMax_argmax HfSibling β _ (fun s => key s.size_bytes) _ sibs _ (fun s => hP s.rfilename) m hm

theorem best_exact_first : (best_exact quant (collect sibs).1 = none ↔ ∀ s ∈ sibs, ¬ HasQuant quant s.rfilename) ∧
    ∀ i, best_exact quant (collect sibs).1 = some i → FirstLargest (HasQuant quant) sibs i := by
  refine pass_first UInt64.toNat (fun a b => ?_) 0 fun f => ?_
  · simp [UInt64.lt_iff_toNat_lt]
  · rw [Bool.and_eq_true, ends_with_quant_iff, is_gguf_iff]
    exact and_iff_left_of_imp HasQuant.gguf

theorem best_quant_first : (best_quant_idx (collect sibs).1 = none ↔ ∀ s ∈ sibs, ¬ Recognised s.rfilename) ∧
    ∀ i, best_quant_idx (collect sibs).1 = some i → FirstSmallest Recognised sibs i := by
  refine pass_first (fun size => OrderDual.toDual size.toNat) (fun a b => ?_) 18446744073709551615 fun f => ?_
  · simp [UInt64.lt_iff_toNat_lt]
  · rw [Bool.and_eq_true, List.any_eq_true, is_gguf_iff]
    simp only [ends_with_quant_iff]
    exact and_iff_left_of_imp Recognised.gguf

theorem biggest_first : (biggest_idx (collect sibs).1 = none ↔ ∀ s ∈ sibs, ¬ IsGguf s.rfilename) ∧
    ∀ i, biggest_idx (collect sibs).1 = some i → FirstLargest IsGguf sibs i := by
  refine pass_first UInt64.toNat (fun a b => ?_) 0 fun f => ?_
  · simp [UInt64.lt_iff_toNat_lt]
  · rw [Bool.true_and, is_gguf_iff]

end

theorem pick_sibling_eq (sibs : List HfSibling) (quant : Bytes) : pick_sibling sibs quant =
    ((best_exact quant (collect sibs).1).or ((best_quant_idx (collect sibs).1).or (biggest_idx (collect sibs).1)),
      (collect sibs).2) := by
  unfold pick_sibling
  dsimp only
  split
  · rename_i hnone
    rw [hnone]
    rfl
  · cases best_exact quant (collect sibs).1 <;> cases best_quant_idx (collect sibs).1 <;> rfl

/-- It fails if there is no GGUF file, lists those there are, and picks the first of the
largest with the quant, else the first of the smallest with a quant that is recognised,
else the first of the largest. -/
theorem pick_sibling_rules (sibs : List HfSibling) (quant : Bytes) :
    ((pick_sibling sibs quant).1 = none ↔ ∀ s ∈ sibs, ¬ IsGguf s.rfilename) ∧
      (pick_sibling sibs quant).2 = (sibs.filter fun s => is_gguf s.rfilename).map (fun s => (s.rfilename, s.size_bytes)) ∧
      ∀ i, (pick_sibling sibs quant).1 = some i → (∃ s, sibs[i]? = some s ∧ IsGguf s.rfilename) ∧
        ((∃ s ∈ sibs, HasQuant quant s.rfilename) → FirstLargest (HasQuant quant) sibs i) ∧
        ((∀ s ∈ sibs, ¬ HasQuant quant s.rfilename) → (∃ s ∈ sibs, Recognised s.rfilename) → FirstSmallest Recognised sibs i) ∧
        ((∀ s ∈ sibs, ¬ HasQuant quant s.rfilename) → (∀ s ∈ sibs, ¬ Recognised s.rfilename) → FirstLargest IsGguf sibs i) := by
  obtain ⟨hexact, hexact_first⟩ := @best_exact_first sibs quant
  obtain ⟨hquant, hquant_first⟩ := @best_quant_first sibs
  obtain ⟨hbiggest, hbiggest_first⟩ := @biggest_first sibs
  rw [pick_sibling_eq]
  refine ⟨?_, congrArg Prod.snd (collect_eq sibs), fun i hi => ?_⟩
  · rw [Option.or_eq_none_iff, Option.or_eq_none_iff, hexact, hquant, hbiggest]
    exact ⟨fun h => h.2.2, fun h => ⟨fun s hs hq => h s hs hq.gguf, fun s hs hk => h s hs hk.gguf, h⟩⟩
  · rcases Option.or_eq_some_iff.1 hi with he | ⟨he, hi⟩
    · obtain ⟨s, hs, hq, -⟩ := hexact_first i he
      refine ⟨⟨s, hs, hq.gguf⟩, fun _ => hexact_first i he, fun hno => ?_, fun hno => ?_⟩
      all_goals exact absurd hq (hno s (List.mem_of_getElem? hs))
    · have hno_exact : ¬ ∃ s ∈ sibs, HasQuant quant s.rfilename := fun ⟨s, hs, hq⟩ => hexact.1 he s hs hq
      rcases Option.or_eq_some_iff.1 hi with hk | ⟨hk, hb⟩
      · obtain ⟨s, hs, hq, -⟩ := hquant_first i hk
        refine ⟨⟨s, hs, hq.gguf⟩, fun h => absurd h hno_exact, fun _ _ => hquant_first i hk, fun _ hno => ?_⟩
        exact absurd hq (hno s (List.mem_of_getElem? hs))
      · obtain ⟨s, hs, hgguf, -⟩ := hbiggest_first i hb
        refine ⟨⟨s, hs, hgguf⟩, fun h => absurd h hno_exact, fun _ ⟨s, hs, hq⟩ => ?_, fun _ _ => hbiggest_first i hb⟩
        exact absurd hq (hquant.1 hk s hs)

/-! ## The file that is pulled -/

theorem is_gguf_eq (f : Bytes) : is_gguf f = (bytes ".gguf").isSuffixOf f := by
  rw [Bool.eq_iff_iff, is_gguf_iff, IsGguf, List.isSuffixOf_iff_suffix]

theorem ends_with_quant_eq (fname q : Bytes) : ends_with_quant fname q = Models.ends_with_quant fname q := by
  have hlength : (quant_suffix q).length = q.length + 6 := by
    rw [quant_suffix, List.length_append, List.length_append, gguf_length, show (bytes ".").length = 1 from rfl]
    omega
  rw [Bool.eq_iff_iff, ends_with_quant_iff, Models.ends_with_quant, Bool.and_eq_true, decide_eq_true_eq, List.isSuffixOf_iff_suffix]
  constructor
  · rintro ⟨x, hx, rfl⟩
    have hpos : 0 < x.length := List.length_pos_of_ne_nil hx
    have hname : x ++ bytes "." ++ q ++ bytes ".gguf" = x ++ quant_suffix q := by simp [quant_suffix]
    rw [hname, List.length_append, hlength]
    exact ⟨by omega, List.suffix_append _ _⟩
  · rintro ⟨hlong, x, rfl⟩
    refine ⟨x, ?_, by simp [quant_suffix]⟩
    rintro rfl
    rw [List.nil_append, hlength] at hlong
    omega

/-- `best` is the maximum of Mathlib. -/
theorem best_eq {β : Type} [LinearOrder β] (key : UInt64 → β) {better : HfSibling → HfSibling → Bool}
    (hbetter : ∀ a b, better a b = true ↔ key b.size_bytes < key a.size_bytes) (sibs : List HfSibling) :
    best better sibs = sibs.argmax fun s => key s.size_bytes := by
  unfold best
  induction sibs using List.reverseRecOn with
  | nil => rfl
  | append_singleton sibs s ih =>
    rw [List.foldl_append, ih, List.argmax_concat]
    cases sibs.argmax fun s => key s.size_bytes with
    | none => rfl
    | some c => simp [hbetter]

/-- The file at the index that a pass ends with. -/
theorem pass_file {β : Type} [LinearOrder β] (key : UInt64 → β) {wanted : Bytes → Bool} {beats : UInt64 → UInt64 → Bool}
    (hbeats : ∀ a b, beats a b = true ↔ key b < key a) (size : UInt64) (sibs : List HfSibling) :
    ((pass wanted beats size (collect sibs).1).1.bind (sibs[·]?)) =
      ((ggufs sibs).filter fun s => wanted s.rfilename).argmax fun s => key s.size_bytes := by
  have hfiles : ((collect sibs).1.filter fun s => wanted s.1.rfilename).map Prod.fst =
      (ggufs sibs).filter fun s => wanted s.rfilename := by
    have hzip : sibs.zipIdx.map Prod.fst = sibs := List.zipIdx_map_fst 0 sibs
    rw [collect_eq]
    simp only [is_gguf_eq, ggufs, List.filter_filter]
    conv_rhs => rw [← hzip, List.filter_map]
    rfl
  rw [pass_eq key hbeats, ← hfiles, argmax_map]
  cases hm : ((collect sibs).1.filter fun s => wanted s.1.rfilename).argmax fun s => key s.1.size_bytes with
  | none => rfl
  | some m =>
    have hmem : m ∈ sibs.zipIdx := by
      have hcollected := (List.mem_filter.1 (List.argmax_mem hm)).1
      rw [collect_eq] at hcollected
      exact (List.mem_filter.1 hcollected).1
    exact List.mem_zipIdx_iff_getElem?.1 hmem

theorem or_bind {sibs : List HfSibling} {a b : Option Nat} (ha : ∀ i, a = some i → ∃ s, sibs[i]? = some s) :
    (a.or b).bind (sibs[·]?) = (a.bind (sibs[·]?)).or (b.bind (sibs[·]?)) := by
  cases a with
  | none => rfl
  | some i =>
    obtain ⟨s, hs⟩ := ha i rfl
    simp [hs]

/-- What `pull` is given is the file at `idx_out`, and what it lists is `available_out`. -/
theorem pick_sibling_file (sibs : List HfSibling) (quant : Bytes) :
    (pick_sibling sibs quant).1.bind (sibs[·]?) = Models.pick_sibling sibs quant ∧
      (pick_sibling sibs quant).2 = (ggufs sibs).map fun s => (s.rfilename, s.size_bytes) := by
  have hlargest (a b : HfSibling) : largest a b = true ↔ b.size_bytes.toNat < a.size_bytes.toNat := by
    simp [largest, UInt64.lt_iff_toNat_lt]
  have hsmallest (a b : HfSibling) :
      smallest a b = true ↔ OrderDual.toDual b.size_bytes.toNat < OrderDual.toDual a.size_bytes.toNat := by
    simp [smallest, UInt64.lt_iff_toNat_lt]
  have hexact : (best_exact quant (collect sibs).1).bind (sibs[·]?) =
      best largest ((ggufs sibs).filter fun s => Models.ends_with_quant s.rfilename quant) := by
    rw [best_eq UInt64.toNat hlargest]
    simp only [← ends_with_quant_eq]
    exact pass_file UInt64.toNat (fun a b => by simp [UInt64.lt_iff_toNat_lt]) 0 sibs
  have hquant : (best_quant_idx (collect sibs).1).bind (sibs[·]?) =
      best smallest ((ggufs sibs).filter fun s => kRecognisedQuants.any fun q => Models.ends_with_quant s.rfilename q) := by
    rw [best_eq (fun size => OrderDual.toDual size.toNat) hsmallest]
    simp only [← ends_with_quant_eq]
    exact pass_file (fun size => OrderDual.toDual size.toNat) (fun a b => by simp [UInt64.lt_iff_toNat_lt]) 18446744073709551615 sibs
  have hbiggest : (biggest_idx (collect sibs).1).bind (sibs[·]?) = best largest (ggufs sibs) := by
    rw [best_eq UInt64.toNat hlargest]
    refine (pass_file UInt64.toNat (fun a b => by simp [UInt64.lt_iff_toNat_lt]) 0 sibs).trans ?_
    rw [List.filter_true]
  have hvalid {β : Type} [LinearOrder β] {key : HfSibling → β} {P : HfSibling → Prop} {i : Nat} (h : FirstMax key P sibs i) :
      ∃ s, sibs[i]? = some s := by
    obtain ⟨s, hs, -⟩ := h
    exact ⟨s, hs⟩
  rw [pick_sibling_eq]
  constructor
  · rw [or_bind fun i hi => hvalid (best_exact_first.2 i hi), or_bind fun i hi => hvalid (best_quant_first.2 i hi),
      hexact, hquant, hbiggest]
    rfl
  · rw [collect_eq]
    simp only [is_gguf_eq, ggufs]

end Hostely.Models.Siblings
