import Mathlib.Data.Nat.Find
import Hostely.Inference.Stops
/-!
# Which stop string cuts

`apply_stops` looks for each stop string in what the earlier ones left. A stop
string that runs into the place of an earlier cut is no longer found, even when
it begins before it. So the text is cut at the first stop string for some
orders of the list and not for others, unless the stop strings keep apart.
-/

open Hostely.Lib

namespace Hostely.Inference

/-- Where a non-empty stop string begins first. -/
def first_stop (stops : List Bytes) (text : Bytes) : Option Nat :=
  (List.range text.length).find? fun n => stops.any fun s => !s.isEmpty && s.isPrefixOf (text.drop n)

/-- The text up to the first stop string. -/
def before_stop (stops : List Bytes) (text : Bytes) : Bytes :=
  match first_stop stops text with
  | some m => text.take m
  | none => text

/-- The stop string is not empty, and its first occurrence is at `p`. -/
def Begins (text stop : Bytes) (p : Nat) : Prop := stop ≠ [] ∧ findSub? stop text = some p

theorem Begins.fits {text stop : Bytes} {p : Nat} (h : Begins text stop p) : p + stop.length ≤ text.length :=
  (findSub?_eq_some h.2).1

theorem Begins.lt {text stop : Bytes} {p : Nat} (h : Begins text stop p) : p < p + stop.length :=
  Nat.lt_add_of_pos_right (List.length_pos_iff.2 h.1)

theorem begins_of_infix {text stop : Bytes} (hne : stop ≠ []) (h : stop <:+: text) : ∃ p, Begins text stop p := by
  obtain ⟨p, hp⟩ := Option.isSome_iff_exists.1 (findSub?_isSome.2 h)
  exact ⟨p, hne, hp⟩

/-- An occurrence is at or after the first. -/
theorem begins_le {text stop : Bytes} {n : Nat} (hne : stop ≠ []) (h : stop <+: text.drop n) :
    ∃ p ≤ n, Begins text stop p := by
  obtain ⟨p, hp⟩ := begins_of_infix hne (h.isInfix.trans (List.drop_suffix n text).isInfix)
  refine ⟨p, Nat.le_of_not_lt fun hlt => ?_, hp⟩
  exact (findSub?_eq_some hp.2).2.2 n hlt h

theorem first_stop_eq_some {stops : List Bytes} {text : Bytes} {m : Nat} (h : first_stop stops text = some m) :
    (∃ s ∈ stops, Begins text s m) ∧ ∀ s ∈ stops, ∀ p, Begins text s p → m ≤ p := by
  obtain ⟨hat, -, hbefore⟩ := List.find?_range_eq_some.1 h
  have hleast : ∀ s ∈ stops, ∀ p, Begins text s p → m ≤ p := by
    intro s hs p hp
    refine Nat.le_of_not_lt fun hlt => ?_
    have hno := hbefore p hlt
    have hpre := (findSub?_eq_some hp.2).2.1
    simp only [Bool.not_eq_true', List.any_eq_false, Bool.and_eq_true, List.isPrefixOf_iff_prefix, not_and,
      List.isEmpty_eq_false_iff] at hno
    exact hno s hs hp.1 hpre
  simp only [List.any_eq_true, Bool.and_eq_true, Bool.not_eq_true', List.isEmpty_eq_false_iff,
    List.isPrefixOf_iff_prefix] at hat
  obtain ⟨s, hs, hne, hpre⟩ := hat
  obtain ⟨p, hple, hp⟩ := begins_le hne hpre
  obtain rfl : p = m := Nat.le_antisymm hple (hleast s hs p hp)
  exact ⟨⟨s, hs, hp⟩, hleast⟩

theorem first_stop_eq_none {stops : List Bytes} {text : Bytes} (h : first_stop stops text = none) :
    StopFree stops text := by
  intro s hs hne hin
  obtain ⟨p, hp⟩ := begins_of_infix hne hin
  have hlt : p < text.length := Nat.lt_of_lt_of_le hp.lt hp.fits
  have hno := List.find?_range_eq_none.1 h p hlt
  have hpre := (findSub?_eq_some hp.2).2.1
  simp only [Bool.not_eq_true', List.any_eq_false, Bool.and_eq_true, List.isPrefixOf_iff_prefix, not_and,
    List.isEmpty_eq_false_iff] at hno
  exact hno s hs hne hpre

/-! ## One round -/

/-- A stop string that ends within what is left cuts it. -/
theorem cut_at_begins {text pre stop : Bytes} {p : Nat} (hpre : pre <+: text) (h : Begins text stop p)
    (hlen : p + stop.length ≤ pre.length) : cut_at pre stop = pre.take p := by
  rw [cut_at, if_neg h.1, findSub?_beginning h.2 hpre hlen]

/-- Any other leaves it alone. -/
theorem cut_at_of_not {text pre stop : Bytes} (hpre : pre <+: text)
    (h : ∀ p, Begins text stop p → pre.length < p + stop.length) : cut_at pre stop = pre := by
  unfold cut_at
  split
  · rfl
  · have hnot : ¬ stop <:+: pre := by
      intro hin
      obtain ⟨p, hp⟩ := begins_of_infix ‹_› (hin.trans hpre.isInfix)
      exact not_infix_of_findSub? hp.2 hpre (h p hp) hin
    rw [findSub?_eq_none.2 hnot]

/-- What one round does to a beginning of the text. -/
theorem cut_at_cases {text pre : Bytes} (hpre : pre <+: text) (stop : Bytes) :
    (∃ p, Begins text stop p ∧ p + stop.length ≤ pre.length ∧ cut_at pre stop = text.take p) ∨
      ((∀ p, Begins text stop p → pre.length < p + stop.length) ∧ cut_at pre stop = pre) := by
  by_cases hcut : ∃ p, Begins text stop p ∧ p + stop.length ≤ pre.length
  · obtain ⟨p, hp, hlen⟩ := hcut
    have hlt := hp.lt
    refine .inl ⟨p, hp, hlen, ?_⟩
    rw [cut_at_begins hpre hp hlen, List.prefix_iff_eq_take.1 hpre, List.take_take, Nat.min_eq_left (by omega)]
  · have hlong : ∀ p, Begins text stop p → pre.length < p + stop.length := by
      intro p hp
      exact Nat.lt_of_not_le fun hle => hcut ⟨p, hp, hle⟩
    exact .inr ⟨hlong, cut_at_of_not hpre hlong⟩

theorem apply_stops_concat (stops : List Bytes) (stop text : Bytes) :
    apply_stops (stops ++ [stop]) text = cut_at (apply_stops stops text) stop := by
  simp [apply_stops]

theorem apply_stops_append (front back : List Bytes) (text : Bytes) :
    apply_stops (front ++ back) text = apply_stops back (apply_stops front text) := by
  simp [apply_stops]

/-! ## The whole list -/

/-- No cut of these stop strings, the latest first, falls before `n`. A stop
string cuts when the cuts before it leave its first occurrence whole. -/
def Uncut (text : Bytes) : List Bytes → Nat → Prop
  | [], _ => True
  | stop :: earlier, n =>
    Uncut text earlier n ∧ ∀ p, Begins text stop p → Uncut text earlier (p + stop.length) → n ≤ p

/-- What is left is as long as the cuts allow. -/
theorem uncut_iff {text : Bytes} (stops : List Bytes) {n : Nat} (hn : n ≤ text.length) :
    Uncut text stops.reverse n ↔ n ≤ (apply_stops stops text).length := by
  induction stops using List.reverseRecOn generalizing n with
  | nil => simp [Uncut, apply_stops, hn]
  | append_singleton stops stop ih =>
    rw [List.reverse_append, List.reverse_singleton, List.singleton_append, Uncut, ih hn, apply_stops_concat]
    have hpre := apply_stops_starts stops text
    rcases cut_at_cases hpre stop with ⟨p, hp, hlen, hcut⟩ | ⟨hlong, hcut⟩
    · have hlt := hp.lt
      have hfits := hp.fits
      rw [hcut, List.length_take, Nat.min_eq_left (by omega)]
      constructor
      · rintro ⟨-, hall⟩
        exact hall p hp ((ih hfits).2 hlen)
      · intro hle
        refine ⟨by omega, fun p' hp' _ => ?_⟩
        obtain rfl := Option.some.inj (hp.2.symm.trans hp'.2)
        exact hle
    · rw [hcut]
      refine ⟨And.left, fun hle => ⟨hle, fun p hp huncut => ?_⟩⟩
      exact absurd ((ih hp.fits).1 huncut) (Nat.not_le.2 (hlong p hp))

/-- The text is left alone, or ends where some stop string of the list cut it. -/
theorem apply_stops_cut (stops : List Bytes) (text : Bytes) :
    apply_stops stops text = text ∨
      ∃ front s back, stops = front ++ s :: back ∧ Begins text s (apply_stops stops text).length ∧
        Uncut text front.reverse ((apply_stops stops text).length + s.length) := by
  induction stops using List.reverseRecOn with
  | nil => exact .inl rfl
  | append_singleton stops stop ih =>
    rw [apply_stops_concat]
    have hpre := apply_stops_starts stops text
    rcases cut_at_cases hpre stop with ⟨p, hp, hlen, hcut⟩ | ⟨-, hcut⟩
    · have hlt := hp.lt
      have hfits := hp.fits
      rw [hcut, List.length_take, Nat.min_eq_left (by omega)]
      exact .inr ⟨stops, stop, [], rfl, hp, (uncut_iff stops hfits).2 hlen⟩
    · rw [hcut]
      rcases ih with hall | ⟨front, s, back, rfl, hs, huncut⟩
      · exact .inl hall
      · exact .inr ⟨front, s, back ++ [stop], by simp, hs, huncut⟩

/-- It never ends before the first stop string. -/
theorem first_stop_le {stops l : List Bytes} {text : Bytes} {m : Nat} (hm : first_stop stops text = some m)
    (hl : ∀ s ∈ l, s ∈ stops) : m ≤ (apply_stops l text).length := by
  obtain ⟨⟨s, -, hs⟩, hleast⟩ := first_stop_eq_some hm
  rcases apply_stops_cut l text with hall | ⟨front, s', back, rfl, hs', -⟩
  · rw [hall]
    have := hs.fits
    omega
  · exact hleast s' (hl s' (by simp)) _ hs'

/-- It ends there as soon as a stop string that begins there is found whole. -/
theorem apply_stops_of_whole {stops front back : List Bytes} {text s : Bytes} {m : Nat}
    (hm : first_stop stops text = some m) (hl : ∀ t ∈ front ++ s :: back, t ∈ stops) (hs : Begins text s m)
    (hwhole : m + s.length ≤ (apply_stops front text).length) :
    apply_stops (front ++ s :: back) text = text.take m := by
  have hge := first_stop_le hm hl
  have hle : (apply_stops (front ++ s :: back) text).length ≤ m := by
    have hrest := (apply_stops_starts back (cut_at (apply_stops front text) s)).length_le
    rw [cut_at_begins (apply_stops_starts front text) hs hwhole, List.length_take] at hrest
    rw [apply_stops_append, apply_stops, List.foldl_cons, cut_at_begins (apply_stops_starts front text) hs hwhole]
    exact hrest.trans (Nat.min_le_left _ _)
  rw [List.prefix_iff_eq_take.1 (apply_stops_starts (front ++ s :: back) text), Nat.le_antisymm hle hge]

/-- Some stop string that begins first cuts. -/
def CutsFirst (stops : List Bytes) (text : Bytes) : Prop :=
  ∀ m ∈ first_stop stops text, ∃ front s back, stops = front ++ s :: back ∧ Begins text s m ∧
    Uncut text front.reverse (m + s.length)

/-- Some stop string that begins first ends before any other begins, those apart that begin with it. -/
def EndsFirst (stops : List Bytes) (text : Bytes) : Prop :=
  ∀ m ∈ first_stop stops text, ∃ s ∈ stops, Begins text s m ∧
    ∀ t ∈ stops, ∀ p, Begins text t p → p = m ∨ m + s.length ≤ p

theorem apply_stops_iff (stops : List Bytes) (text : Bytes) :
    apply_stops stops text = before_stop stops text ↔ CutsFirst stops text := by
  unfold before_stop CutsFirst
  cases hm : first_stop stops text with
  | none =>
    simp [apply_stops_free (first_stop_eq_none hm)]
  | some m =>
    simp only [Option.mem_def, Option.some.injEq, forall_eq']
    obtain ⟨⟨s, -, hs⟩, -⟩ := first_stop_eq_some hm
    have hlt := hs.lt
    have hfits := hs.fits
    constructor
    · intro he
      have hlen : (apply_stops stops text).length = m := by
        rw [he, List.length_take]
        omega
      rcases apply_stops_cut stops text with hall | hcut
      · rw [hall] at hlen
        omega
      · rwa [hlen] at hcut
    · rintro ⟨front, s, back, rfl, hs, huncut⟩
      exact apply_stops_of_whole hm (fun t ht => ht) hs ((uncut_iff front hs.fits).1 huncut)

/-- Kept apart so, they cut at the first whatever their order. -/
theorem apply_stops_of_endsFirst {stops l : List Bytes} {text : Bytes} (h : EndsFirst stops text) (hl : l.Perm stops) :
    apply_stops l text = before_stop stops text := by
  unfold before_stop
  cases hm : first_stop stops text with
  | none =>
    have hfree := first_stop_eq_none hm
    exact apply_stops_free fun s hs => hfree s (hl.mem_iff.1 hs)
  | some m =>
    obtain ⟨s, hs, hbegins, hends⟩ := h m hm
    obtain ⟨front, back, rfl⟩ := List.append_of_mem (hl.mem_iff.2 hs)
    have hin : ∀ t ∈ front ++ s :: back, t ∈ stops := fun t ht => hl.mem_iff.1 ht
    rcases apply_stops_cut front text with hall | ⟨front', t, back', rfl, ht, -⟩
    · exact apply_stops_of_whole hm hin hbegins (by rw [hall]; exact hbegins.fits)
    · rcases hends t (hin t (by simp)) _ ht with heq | hle
      · -- an earlier one has already cut there
        have hge := first_stop_le hm hin
        have hle := (apply_stops_starts (s :: back) (apply_stops (front' ++ t :: back') text)).length_le
        rw [← apply_stops_append, heq] at hle
        have hpre := apply_stops_starts ((front' ++ t :: back') ++ s :: back) text
        rw [List.prefix_iff_eq_take.1 hpre, Nat.le_antisymm hle hge]
      · exact apply_stops_of_whole hm hin hbegins hle

/-- The shortest of the stop strings that begin first. -/
theorem shortest_first {stops : List Bytes} {text : Bytes} {m : Nat} (hm : first_stop stops text = some m) :
    ∃ s ∈ stops, Begins text s m ∧ ∀ t ∈ stops, Begins text t m → s.length ≤ t.length := by
  classical
  obtain ⟨⟨s, hs, hbegins⟩, -⟩ := first_stop_eq_some hm
  have hex : ∃ k, ∃ t ∈ stops, Begins text t m ∧ t.length = k := ⟨_, s, hs, hbegins, rfl⟩
  obtain ⟨t, ht, hbt, hlen⟩ := Nat.find_spec hex
  refine ⟨t, ht, hbt, fun u hu hbu => ?_⟩
  rw [hlen]
  exact Nat.find_min' hex ⟨u, hu, hbu, rfl⟩

/-- A stop string tried first that begins inside all those that begin before it
leaves none of them whole. -/
theorem apply_stops_late {stops : List Bytes} {text t : Bytes} {m p : Nat} (hm : first_stop stops text = some m)
    (ht : Begins text t p) (hp : m < p) (hinside : ∀ s ∈ stops, Begins text s m → p < m + s.length)
    (rest : List Bytes) (hrest : ∀ s ∈ rest, s ∈ stops) : m < (apply_stops (t :: rest) text).length := by
  have hfits := ht.fits
  have hlt := ht.lt
  have hfirst : apply_stops [t] text = text.take p := cut_at_begins (List.prefix_refl text) ht hfits
  induction rest using List.reverseRecOn with
  | nil =>
    rw [hfirst, List.length_take]
    omega
  | append_singleton rest s ih =>
    have hs : s ∈ stops := hrest s (by simp)
    have hgt := ih fun u hu => hrest u (by simp [hu])
    have hshort : (apply_stops (t :: rest) text).length ≤ p := by
      have := (apply_stops_starts rest (apply_stops [t] text)).length_le
      rw [← apply_stops_append, hfirst, List.length_take] at this
      exact this.trans (Nat.min_le_left _ _)
    rw [← List.cons_append, apply_stops_concat]
    rcases cut_at_cases (apply_stops_starts (t :: rest) text) s with ⟨q, hq, hlen, hcut⟩ | ⟨-, hcut⟩
    · have hge := (first_stop_eq_some hm).2 s hs q hq
      have hne : q ≠ m := by
        rintro rfl
        have := hinside s hs hq
        omega
      have := hq.lt
      rw [hcut, List.length_take]
      omega
    · rwa [hcut]

/-- The text is cut at its first stop string, for the list as it is, exactly
when some stop string that begins there cuts; and the order of the list plays
no part exactly when one of them ends before any other stop string begins. -/
theorem apply_stops_first_iff (stops : List Bytes) (text : Bytes) :
    (apply_stops stops text = before_stop stops text ↔ CutsFirst stops text) ∧
      (apply_stops stops text = before_stop stops text ∧
          (∀ l, l.Perm stops → apply_stops l text = apply_stops stops text) ↔
        EndsFirst stops text) := by
  refine ⟨apply_stops_iff stops text, fun ⟨hfirst, hall⟩ m hm => ?_, fun h => ?_⟩
  · obtain ⟨s, hs, hbegins, hshortest⟩ := shortest_first hm
    refine ⟨s, hs, hbegins, fun t ht p hp => ?_⟩
    have hge := (first_stop_eq_some hm).2 t ht p hp
    by_contra hnot
    have hout := not_or.1 hnot
    have hinside : ∀ u ∈ stops, Begins text u m → p < m + u.length := by
      intro u hu hbu
      have := hshortest u hu hbu
      omega
    -- with `t` in front, all that begin at `m` are cut short
    have hlate := apply_stops_late hm hp (by omega) hinside (stops.erase t) fun u hu => List.mem_of_mem_erase hu
    rw [hall _ (List.perm_cons_erase ht).symm, hfirst, before_stop, hm, List.length_take] at hlate
    omega
  · have hfirst := apply_stops_of_endsFirst h (List.Perm.refl stops)
    exact ⟨hfirst, fun l hl => (apply_stops_of_endsFirst h hl).trans hfirst.symm⟩

/-- The text `abc` with the stop strings `bc` and `abc`: the first letter stays. -/
theorem template_artifact_left :
    ¬ ∀ (stops : List Bytes) (text : Bytes), apply_stops stops text = before_stop stops text ∧
      ∀ l, l.Perm stops → apply_stops l text = apply_stops stops text := by
  intro h
  have := (h [bytes "bc", bytes "abc"] (bytes "abc")).1
  exact absurd this (by decide +kernel)

end Hostely.Inference
