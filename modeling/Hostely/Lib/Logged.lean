import Mathlib.Logic.Basic
/-!
# Computations that call outside

A computation is given the calls made so far, each with what came back, and ends in a
value or stops early; either way it tells the calls it made. What the outside answers
may depend on all calls before. `Gives m R` says how every run of `m` ends and which
calls it makes, whatever is answered.
-/

namespace Hostely.Lib

universe u

/-- `E` is a call and its answer, `X` a way to stop. -/
def Logged (E X α : Type u) := List E → Except X α × List E

namespace Logged

variable {E X α β : Type u}

instance : Monad (Logged E X) where
  pure a _ := (.ok a, [])
  bind m k h := match m h with
    | (.ok a, calls) => ((k a (h ++ calls)).1, calls ++ (k a (h ++ calls)).2)
    | (.error x, calls) => (.error x, calls)

/-- No call, and this end. -/
def lift (r : Except X α) : Logged E X α := fun _ => (r, [])

/-- One call, and what is made of it. -/
def call (ask : List E → E) (read : E → Except X α) : Logged E X α := fun h => (read (ask h), [ask h])

/-- Tries until there is a value, so many times at most. -/
def tries (m : Logged E X (Option α)) : Nat → Logged E X (Option α)
  | 0 => pure none
  | n + 1 => do
    match ← m with
    | some a => pure (some a)
    | none => tries m n

/-- What is to be done for each of a list. -/
def each (f : β → Logged E X PUnit) : List β → Logged E X PUnit
  | [] => pure ⟨⟩
  | b :: bs => do
    f b
    each f bs

/-! ## Rules -/

/-- Every run ends and calls as `R` says. -/
def Gives (m : Logged E X α) (R : Except X α → List E → Prop) : Prop := ∀ h, R (m h).1 (m h).2

variable {m : Logged E X α} {k : α → Logged E X β} {R R' : Except X α → List E → Prop} {S : Except X β → List E → Prop}

theorem Gives.mono (h : Gives m R) (hR : ∀ r calls, R r calls → R' r calls) : Gives m R' := fun hist => hR _ _ (h hist)

theorem Gives.and (h : Gives m R) (h' : Gives m R') : Gives m fun r calls => R r calls ∧ R' r calls :=
  fun hist => ⟨h hist, h' hist⟩

theorem gives_pure {a : α} (h : R (.ok a) []) : Gives (pure a : Logged E X α) R := fun _ => h

theorem gives_lift {r : Except X α} (h : R r []) : Gives (lift r : Logged E X α) R := fun _ => h

theorem gives_call {ask : List E → E} {read : E → Except X α} (h : ∀ hist, R (read (ask hist)) [ask hist]) :
    Gives (call ask read) R := h

theorem bind_ok {h calls : List E} {a : α} (hm : m h = (.ok a, calls)) :
    (m >>= k) h = ((k a (h ++ calls)).1, calls ++ (k a (h ++ calls)).2) := by
  show (match m h with
    | (.ok a, calls) => ((k a (h ++ calls)).1, calls ++ (k a (h ++ calls)).2)
    | (.error x, calls) => (.error x, calls)) = _
  rw [hm]

theorem bind_error {h calls : List E} {x : X} (hm : m h = (.error x, calls)) : (m >>= k) h = (.error x, calls) := by
  show (match m h with
    | (.ok a, calls) => ((k a (h ++ calls)).1, calls ++ (k a (h ++ calls)).2)
    | (.error x, calls) => (.error x, calls)) = _
  rw [hm]

/-- What goes on after a value adds its calls. -/
theorem Gives.bind (hm : Gives m R) (hk : ∀ a calls, R (.ok a) calls → Gives (k a) fun r more => S r (calls ++ more))
    (hx : ∀ x calls, R (.error x) calls → S (.error x) calls) : Gives (m >>= k) S := by
  intro h
  have hR := hm h
  cases hrun : m h with
  | mk r calls =>
    rw [hrun] at hR
    cases r with
    | ok a =>
      rw [bind_ok hrun]
      exact hk a calls hR (h ++ calls)
    | error x =>
      rw [bind_error hrun]
      exact hx x calls hR

/-- A call at the beginning. -/
theorem gives_call_bind {ask : List E → E} {read : E → Except X α}
    (hk : ∀ hist a, read (ask hist) = .ok a → Gives (k a) fun r more => S r (ask hist :: more))
    (hx : ∀ hist x, read (ask hist) = .error x → S (.error x) [ask hist]) : Gives (call ask read >>= k) S := by
  refine Gives.bind (R := fun r calls => ∃ hist, r = read (ask hist) ∧ calls = [ask hist]) (gives_call fun hist => ⟨hist, rfl, rfl⟩)
    ?_ ?_
  · rintro a calls ⟨hist, hread, rfl⟩
    exact hk hist a hread.symm
  · rintro x calls ⟨hist, hread, rfl⟩
    exact hx hist x hread.symm

theorem gives_lift_bind {r : Except X α} (hk : ∀ a, r = .ok a → Gives (k a) S) (hx : ∀ x, r = .error x → S (.error x) []) :
    Gives (lift r >>= k) S := by
  refine Gives.bind (R := fun r' calls => r' = r ∧ calls = []) (gives_lift ⟨rfl, rfl⟩) ?_ ?_
  · rintro a calls ⟨hr, rfl⟩
    exact hk a hr.symm
  · rintro x calls ⟨hr, rfl⟩
    exact hx x hr.symm

/-- Calls without a value, and then one with a value or the end, or none. -/
def Tried (ask : List E → E) (read : E → Except X (Option α)) (r : Except X (Option α)) (calls : List E) : Prop :=
  ∃ before, (∀ e ∈ before, (∃ hist, e = ask hist) ∧ read e = .ok none) ∧
    ((r = .ok none ∧ calls = before) ∨ ∃ hist, calls = before ++ [ask hist] ∧ read (ask hist) = r ∧ r ≠ .ok none)

theorem gives_tries (ask : List E → E) (read : E → Except X (Option α)) (n : Nat) :
    Gives (tries (call ask read) n) (Tried ask read) := by
  induction n with
  | zero => exact gives_pure ⟨[], nofun, .inl ⟨rfl, rfl⟩⟩
  | succ n ih =>
    refine gives_call_bind (fun hist a hread => ?_) fun hist x hread => ?_
    · cases a with
      | none =>
        refine ih.mono fun r calls => ?_
        rintro ⟨before, hbefore, hend⟩
        refine ⟨ask hist :: before, List.forall_mem_cons.2 ⟨⟨⟨hist, rfl⟩, hread⟩, hbefore⟩, ?_⟩
        rcases hend with ⟨hr, rfl⟩ | ⟨hist', rfl, hend⟩
        · exact .inl ⟨hr, rfl⟩
        · exact .inr ⟨hist', rfl, hend⟩
      | some a => exact gives_pure ⟨[], nofun, .inr ⟨hist, rfl, hread, nofun⟩⟩
    · exact ⟨[], nofun, .inr ⟨hist, rfl, hread, nofun⟩⟩

/-- One for each of a list, up to the first that stops. -/
inductive Done (R : β → Except X PUnit → List E → Prop) : List β → Except X PUnit → List E → Prop
  | nil : Done R [] (.ok ⟨⟩) []
  | cons {b : β} {bs : List β} {calls more : List E} {r : Except X PUnit} :
    R b (.ok ⟨⟩) calls → Done R bs r more → Done R (b :: bs) r (calls ++ more)
  | stop {b : β} {bs : List β} {calls : List E} {x : X} : R b (.error x) calls → Done R (b :: bs) (.error x) calls

theorem gives_each {f : β → Logged E X PUnit} {R : β → Except X PUnit → List E → Prop} (hf : ∀ b, Gives (f b) (R b)) (bs : List β) :
    Gives (each f bs) (Done R bs) := by
  induction bs with
  | nil => exact gives_pure .nil
  | cons b bs ih =>
    exact (hf b).bind (fun _ calls hcalls => ih.mono fun r more hmore => .cons hcalls hmore) fun x calls hcalls => .stop hcalls

/-! ## Calls of one kind -/

/-- Every call that is made is of the kind. -/
def Calls (P : E → Prop) (m : Logged E X α) : Prop := Gives m fun _ calls => ∀ e ∈ calls, P e

variable {P : E → Prop}

theorem calls_pure (a : α) : Calls P (pure a : Logged E X α) := gives_pure nofun

theorem calls_lift (r : Except X α) : Calls P (lift r : Logged E X α) := gives_lift nofun

theorem calls_call {ask : List E → E} {read : E → Except X α} (h : ∀ hist, P (ask hist)) : Calls P (call ask read) :=
  gives_call fun hist => List.forall_mem_singleton.2 (h hist)

theorem Calls.bind (hm : Calls P m) (hk : ∀ a, Calls P (k a)) : Calls P (m >>= k) := by
  refine Gives.bind hm (fun a calls hcalls => (hk a).mono fun r more hmore => ?_) fun _ _ h => h
  exact fun e he => (List.mem_append.1 he).elim (hcalls e) (hmore e)

theorem Calls.tries {m : Logged E X (Option α)} (hm : Calls P m) (n : Nat) : Calls P (tries m n) := by
  induction n with
  | zero => exact calls_pure none
  | succ n ih =>
    refine Calls.bind hm fun a => ?_
    cases a with
    | none => exact ih
    | some a => exact calls_pure (some a)

theorem calls_each {f : β → Logged E X PUnit} (hf : ∀ b, Calls P (f b)) (bs : List β) : Calls P (each f bs) := by
  induction bs with
  | nil => exact calls_pure _
  | cons b bs ih => exact (hf b).bind fun _ => ih

/-! ## Calls to blame -/

/-- A run ends in this way exactly if one of its calls is bad. -/
def Blames (bad : E → Prop) (stops : Except X α → Prop) (m : Logged E X α) : Prop :=
  Gives m fun r calls => stops r ↔ ∃ e ∈ calls, bad e

section
variable {bad : E → Prop} {stops : Except X α → Prop} {stops' : Except X β → Prop}

theorem blames_pure {a : α} (h : ¬ stops (.ok a)) : Blames bad stops (pure a) := gives_pure (iff_of_false h (by simp))

theorem blames_lift {r : Except X α} (h : ¬ stops r) : Blames bad stops (lift r) := gives_lift (iff_of_false h (by simp))

theorem blames_call {ask : List E → E} {read : E → Except X α} (h : ∀ hist, stops (read (ask hist)) ↔ bad (ask hist)) :
    Blames bad stops (call ask read) := gives_call fun hist => by simp [h]

/-- No call before a value is bad, and a call that ends the first part ends both. -/
theorem Blames.bind (hm : Blames bad stops m) (hok : ∀ a, ¬ stops (.ok a)) (hx : ∀ x, stops (.error x) ↔ stops' (.error x))
    (hk : ∀ a, Blames bad stops' (k a)) : Blames bad stops' (m >>= k) := by
  refine Gives.bind hm (fun a calls hcalls => (hk a).mono fun r more hmore => ?_) fun x calls hcalls => (hx x).symm.trans hcalls
  have hgood : ¬ ∃ e ∈ calls, bad e := fun h => hok a (hcalls.2 h)
  rw [hmore]
  constructor
  · rintro ⟨e, he, hbad⟩
    exact ⟨e, List.mem_append_right _ he, hbad⟩
  · rintro ⟨e, he, hbad⟩
    exact ⟨e, (List.mem_append.1 he).resolve_left fun h => hgood ⟨e, h, hbad⟩, hbad⟩

theorem Blames.tries {m : Logged E X (Option α)} {stops : Except X (Option α) → Prop} (hm : Blames bad stops m)
    (hok : ∀ a, ¬ stops (.ok a)) (n : Nat) : Blames bad stops (tries m n) := by
  induction n with
  | zero => exact blames_pure (hok none)
  | succ n ih =>
    refine hm.bind hok (fun _ => Iff.rfl) fun a => ?_
    cases a with
    | none => exact ih
    | some a => exact blames_pure (hok (some a))

theorem blames_each {f : β → Logged E X PUnit} {stops : Except X PUnit → Prop} (hf : ∀ b, Blames bad stops (f b))
    (hok : ¬ stops (.ok ⟨⟩)) (bs : List β) : Blames bad stops (each f bs) := by
  induction bs with
  | nil => exact blames_pure hok
  | cons b bs ih => exact (hf b).bind (fun _ => hok) (fun _ => Iff.rfl) fun _ => ih

end

/-! ## Runs with a value -/

/-- Every run that has a value has made calls as `S` says. -/
def Yields (m : Logged E X α) (S : α → List E → Prop) : Prop := Gives m fun r calls => ∀ a, r = .ok a → S a calls

section
variable {S : α → List E → Prop} {T : β → List E → Prop}

theorem yields_pure {a : α} (h : S a []) : Yields (pure a : Logged E X α) S :=
  gives_pure fun a' ha => by rwa [← Except.ok.inj ha]

theorem yields_lift {r : Except X α} (h : ∀ a, r = .ok a → S a []) : Yields (lift r : Logged E X α) S := gives_lift h

theorem yields_call {ask : List E → E} {read : E → Except X α} (h : ∀ hist a, read (ask hist) = .ok a → S a [ask hist]) :
    Yields (call ask read) S := gives_call h

theorem Yields.mono {S' : α → List E → Prop} (h : Yields m S) (hS : ∀ a calls, S a calls → S' a calls) : Yields m S' :=
  Gives.mono h fun _ _ hr a ha => hS a _ (hr a ha)

theorem Yields.bind (hm : Yields m S) (hk : ∀ a calls, S a calls → Yields (k a) fun b more => T b (calls ++ more)) :
    Yields (m >>= k) T := Gives.bind hm (fun a calls h => hk a calls (h a rfl)) fun _ _ _ => nofun

theorem yields_tries (ask : List E → E) (read : E → Except X (Option α)) (n : Nat) :
    Yields (tries (call ask read) n) fun found calls =>
      ∀ a, found = some a → ∃ hist, ask hist ∈ calls ∧ read (ask hist) = .ok (some a) := by
  refine Gives.mono (gives_tries ask read n) ?_
  rintro r calls ⟨before, -, ⟨rfl, rfl⟩ | ⟨hist, rfl, hread, -⟩⟩ found hr a rfl
  · cases hr
  · exact ⟨hist, by simp, hread.trans hr⟩

theorem yields_each {f : β → Logged E X PUnit} {R : β → List E → Prop} (hf : ∀ b, Yields (f b) fun _ => R b)
    (hmore : ∀ b before calls after, R b calls → R b (before ++ calls ++ after)) (bs : List β) :
    Yields (each f bs) fun _ calls => ∀ b ∈ bs, R b calls := by
  induction bs with
  | nil => exact yields_pure nofun
  | cons b bs ih =>
    refine (hf b).bind fun _ calls hcalls => ih.mono fun _ more hrest => List.forall_mem_cons.2 ⟨?_, fun b' hb' => ?_⟩
    · exact hmore b [] calls more hcalls
    · simpa using hmore b' calls more [] (hrest b' hb')

end

/-! ## What follows a call -/

/-- Every call with those after it. -/
def Followed (Q : E → List E → Prop) (log : List E) : Prop := ∀ before e after, log = before ++ e :: after → Q e after

variable {Q : E → List E → Prop} {e : E} {log more : List E}

theorem followed_nil : Followed Q [] := fun before e after h => absurd h (by simp)

theorem followed_cons : Followed Q (e :: log) ↔ Q e log ∧ Followed Q log := by
  constructor
  · refine fun h => ⟨h [] e log rfl, fun before e' after hlog => h (e :: before) e' after ?_⟩
    rw [hlog, List.cons_append]
  · rintro ⟨he, h⟩ before e' after hlog
    cases before with
    | nil =>
      obtain ⟨rfl, rfl⟩ := List.cons.inj hlog
      exact he
    | cons b before =>
      obtain ⟨rfl, rfl⟩ := List.cons.inj hlog
      exact h before e' after rfl

theorem followed_append : Followed Q (log ++ more) ↔ Followed (fun e after => Q e (after ++ more)) log ∧ Followed Q more := by
  induction log with
  | nil => exact ⟨fun h => ⟨followed_nil, h⟩, And.right⟩
  | cons e log ih => rw [List.cons_append, followed_cons, followed_cons, ih, and_assoc]

theorem followed_of_forall (h : ∀ e ∈ log, ∀ after, Q e after) : Followed Q log := by
  rintro before e after rfl
  exact h e (List.mem_append_right _ List.mem_cons_self) after

end Logged

end Hostely.Lib
