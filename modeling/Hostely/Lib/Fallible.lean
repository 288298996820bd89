import Mathlib.Logic.Basic
/-!
# Computations that may fail

What the result of a bind and of a loop (`foldlM`) in `Except` or `Option` says
about its parts.
-/

namespace Hostely.Lib

variable {ε α β : Type}

/-- A bind that succeeds takes two successes. -/
theorem bind_eq_ok {x : Except ε α} {k : α → Except ε β} {b : β} (h : x >>= k = .ok b) :
    ∃ a, x = .ok a ∧ k a = .ok b := by
  cases x with
  | error e => cases h
  | ok a => exact ⟨a, rfl, h⟩

/-- A bind fails in its first or in its second part. -/
theorem bind_eq_error {x : Except ε α} {k : α → Except ε β} {e : ε} (h : x >>= k = .error e) :
    x = .error e ∨ ∃ a, x = .ok a ∧ k a = .error e := by
  cases x with
  | error e' => exact .inl (congrArg Except.error (Except.error.inj h))
  | ok a => exact .inr ⟨a, rfl, h⟩

variable {f : β → α → Except ε β} {l : List α}

/-- A loop that ends has done the round of every element. -/
theorem foldlM_ok_round {b b' : β} (h : l.foldlM f b = .ok b') {a : α} (ha : a ∈ l) : ∃ c c', f c a = .ok c' := by
  induction l generalizing b with
  | nil => cases ha
  | cons x l ih =>
    rw [List.foldlM_cons] at h
    obtain ⟨c, hc, hl⟩ := bind_eq_ok h
    rcases List.mem_cons.1 ha with rfl | ha
    · exact ⟨b, c, hc⟩
    · exact ih hl ha

variable (I : β → Prop)

/-- What every round keeps holds when the loop ends. -/
theorem foldlM_inv {b b' : β} (h0 : I b) (hs : ∀ b, ∀ a ∈ l, ∀ b', I b → f b a = .ok b' → I b')
    (h : l.foldlM f b = .ok b') : I b' := by
  induction l generalizing b with
  | nil =>
    obtain rfl := Except.ok.inj h
    exact h0
  | cons a l ih =>
    rw [List.foldlM_cons] at h
    obtain ⟨c, hc, hl⟩ := bind_eq_ok h
    exact ih (hs b a List.mem_cons_self c h0 hc) (fun b x hx => hs b x (List.mem_cons_of_mem _ hx)) hl

/-- An error that no round ends with is not the loop's either. -/
theorem foldlM_ne_error {e : ε} {b : β} (h0 : I b) (hs : ∀ b, ∀ a ∈ l, ∀ b', I b → f b a = .ok b' → I b')
    (he : ∀ b, ∀ a ∈ l, I b → f b a ≠ .error e) : l.foldlM f b ≠ .error e := by
  induction l generalizing b with
  | nil => exact fun h => by cases h
  | cons a l ih =>
    intro h
    rw [List.foldlM_cons] at h
    rcases bind_eq_error h with h | ⟨c, hc, hl⟩
    · exact he b a List.mem_cons_self h0 h
    · exact ih (hs b a List.mem_cons_self c h0 hc) (fun b x hx => hs b x (List.mem_cons_of_mem _ hx))
        (fun b x hx => he b x (List.mem_cons_of_mem _ hx)) hl

omit I in
/-- What the round of an element brings about, and every later round keeps, holds of each at the end. -/
theorem foldlM_rounds (Q : α → β → Prop) (hround : ∀ b, ∀ a ∈ l, ∀ b', f b a = .ok b' → Q a b')
    (hkeep : ∀ b x b' a, f b x = .ok b' → Q a b → Q a b') {b b' : β} (h : l.foldlM f b = .ok b') : ∀ a ∈ l, Q a b' := by
  induction l generalizing b with
  | nil => exact fun _ ha => absurd ha List.not_mem_nil
  | cons x l ih =>
    rw [List.foldlM_cons] at h
    obtain ⟨c, hc, hl⟩ := bind_eq_ok h
    refine List.forall_mem_cons.2 ⟨?_, ih (fun b a ha => hround b a (List.mem_cons_of_mem _ ha)) hl⟩
    exact foldlM_inv (Q x) (hround b x List.mem_cons_self c hc) (fun b a _ b' hb hstep => hkeep b a b' x hstep hb) hl

omit f in
/-- The same for a loop that cannot fail. -/
theorem foldl_inv {g : β → α → β} {b : β} (h0 : I b) (hs : ∀ b, ∀ a ∈ l, I b → I (g b a)) : I (l.foldl g b) := by
  induction l generalizing b with
  | nil => exact h0
  | cons a l ih => exact ih (hs b a List.mem_cons_self h0) fun b x hx => hs b x (List.mem_cons_of_mem _ hx)

/-- The same for a loop in `Option`. -/
theorem foldlM_some_inv {g : β → α → Option β} {b b' : β} (h0 : I b)
    (hs : ∀ b, ∀ a ∈ l, ∀ b', I b → g b a = some b' → I b') (h : l.foldlM g b = some b') : I b' := by
  induction l generalizing b with
  | nil =>
    obtain rfl := Option.some.inj h
    exact h0
  | cons a l ih =>
    rw [List.foldlM_cons] at h
    obtain ⟨c, hc, hl⟩ := Option.bind_eq_some_iff.1 h
    exact ih (hs b a List.mem_cons_self c h0 hc) (fun b x hx => hs b x (List.mem_cons_of_mem _ hx)) hl

/-- What each round passes on from its argument, the list of results has. -/
theorem mapM_names {γ : Type} {f : α → Except ε β} {g : β → γ} {k : α → γ} (hf : ∀ a b, f a = .ok b → g b = k a)
    {l : List α} {l' : List β} (h : l.mapM f = .ok l') : l'.map g = l.map k := by
  induction l generalizing l' with
  | nil =>
    obtain rfl := Except.ok.inj h
    rfl
  | cons a l ih =>
    rw [List.mapM_cons] at h
    obtain ⟨b, hb, h⟩ := bind_eq_ok h
    obtain ⟨l'', hl, h⟩ := bind_eq_ok h
    obtain rfl := Except.ok.inj h
    rw [List.map_cons, List.map_cons, hf a b hb, ih hl]

theorem mapM_ok_each {f : α → Except ε β} {l : List α} {bs : List β} (h : l.mapM f = .ok bs) {a : α} (ha : a ∈ l) :
    ∃ b, f a = .ok b := by
  induction l generalizing bs with
  | nil => cases ha
  | cons x l ih =>
    rw [List.mapM_cons] at h
    obtain ⟨b, hb, h⟩ := bind_eq_ok h
    obtain ⟨bs', hbs, -⟩ := bind_eq_ok h
    rcases List.mem_cons.1 ha with rfl | ha
    · exact ⟨b, hb⟩
    · exact ih hbs ha

/-- Each result of a list of computations is the result of one of them. -/
theorem mem_of_mapM {f : α → Option β} {l : List α} {l' : List β} (h : l.mapM f = some l') {b : β} (hb : b ∈ l') :
    ∃ a ∈ l, f a = some b := by
  induction l generalizing l' with
  | nil =>
    obtain rfl := Option.some.inj h
    cases hb
  | cons a l ih =>
    rw [List.mapM_cons] at h
    obtain ⟨c, hc, h⟩ := Option.bind_eq_some_iff.1 h
    obtain ⟨l'', hl, h⟩ := Option.bind_eq_some_iff.1 h
    obtain rfl := Option.some.inj h
    rcases List.mem_cons.1 hb with rfl | hb
    · exact ⟨a, List.mem_cons_self, hc⟩
    · obtain ⟨x, hx, hfx⟩ := ih hl hb
      exact ⟨x, List.mem_cons_of_mem _ hx, hfx⟩

/-- Both fail, with the same error, or both succeed. -/
def Together (x : Except ε α) (y : Except ε β) : Prop :=
  (∃ e, x = .error e ∧ y = .error e) ∨ ∃ a b, x = .ok a ∧ y = .ok b

theorem Together.refl (x : Except ε α) : Together x x := by
  cases x with
  | error e => exact .inl ⟨e, rfl, rfl⟩
  | ok a => exact .inr ⟨a, a, rfl, rfl⟩

/-- A last step that cannot fail. -/
theorem Together.map {x y : Except ε α} (h : Together x y) (f : α → β) :
    Together (x >>= fun a => .ok (f a)) (y >>= fun a => .ok (f a)) := by
  rcases h with ⟨e, rfl, rfl⟩ | ⟨a, b, rfl, rfl⟩
  · exact .inl ⟨e, rfl, rfl⟩
  · exact .inr ⟨f a, f b, rfl, rfl⟩

theorem Together.mapM {f : α → Except ε β} {g : α → Except ε β} {l : List α} (h : ∀ a ∈ l, Together (f a) (g a)) :
    Together (l.mapM f) (l.mapM g) := by
  induction l with
  | nil => exact .inr ⟨[], [], rfl, rfl⟩
  | cons a l ih =>
    rw [List.mapM_cons, List.mapM_cons]
    rcases h a List.mem_cons_self with ⟨e, hf, hg⟩ | ⟨b, c, hf, hg⟩
    · exact .inl ⟨e, by rw [hf]; rfl, by rw [hg]; rfl⟩
    · rw [hf, hg]
      rcases ih fun x hx => h x (List.mem_cons_of_mem _ hx) with ⟨e, hf', hg'⟩ | ⟨bs, cs, hf', hg'⟩
      · exact .inl ⟨e, by rw [hf']; rfl, by rw [hg']; rfl⟩
      · exact .inr ⟨b :: bs, c :: cs, by rw [hf']; rfl, by rw [hg']; rfl⟩

/-- A list of computations with the same results is a list of the same computations. -/
theorem mapM_eq_iff {f g : α → Except ε β} {l : List α} {bs : List β} (h : l.mapM f = .ok bs) :
    l.mapM g = .ok bs ↔ ∀ a ∈ l, g a = f a := by
  induction l generalizing bs with
  | nil => simpa using h
  | cons a l ih =>
    rw [List.mapM_cons] at h
    obtain ⟨b, hb, h⟩ := bind_eq_ok h
    obtain ⟨bs', hbs, h⟩ := bind_eq_ok h
    obtain rfl := Except.ok.inj h
    rw [List.forall_mem_cons, ← ih hbs, hb, List.mapM_cons]
    constructor
    · intro hg
      obtain ⟨b', hb', hg⟩ := bind_eq_ok hg
      obtain ⟨bs'', hbs', hg⟩ := bind_eq_ok hg
      obtain ⟨rfl, rfl⟩ := List.cons.inj (Except.ok.inj hg)
      exact ⟨hb', hbs'⟩
    · rintro ⟨hga, hgl⟩
      rw [hga, hgl]
      rfl

end Hostely.Lib
