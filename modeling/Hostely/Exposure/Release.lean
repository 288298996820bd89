import Hostely.Exposure.Issue
/-!
# The challenge records

A record is removed when its authorization has become valid, and only then: every
error return between `set_txt` and the end of the round leaves it.
-/

open Hostely.Lib

namespace Hostely.Exposure.Issue

section
variable {Key : Type}

/-- Every record that is set is removed later. -/
def Released (log : List (Event Key)) : Prop :=
  Logged.Followed (fun e after =>
    ∀ zone name value, e = .set_txt zone name value true → ∃ ok, .remove_txt zone name value ok ∈ after) log

variable (C : Crypto Key)

/-- The trigger is accepted. -/
def Triggered (e : Event Key) : Prop := ∃ res, e.response C = some res ∧ 200 ≤ res.status ∧ res.status < 300

/-- The trigger is accepted and the authorization becomes valid. -/
def Settles (after : List (Event Key)) : Prop :=
  ∃ trigger polls last rest, after = trigger :: polls ++ last :: rest ∧ Triggered C trigger ∧ (∀ e ∈ polls, Waits C e) ∧
    Says C (bytes "valid") last

/-- So it goes with every record that is set. -/
def Settled (log : List (Event Key)) : Prop :=
  Logged.Followed (fun e after => (∃ zone name value, e = .set_txt zone name value true) → Settles C after) log

end

def Event.IsPost {Key : Type} : Event Key → Prop
  | .post _ _ _ _ _ _ => True
  | _ => False

section
variable {Key : Type} {C : Crypto Key} {e : Event Key} {log : List (Event Key)}

/-! ## Reading -/

theorem read_trigger_ok {res : AcmeResponse} {a : Unit} : read_trigger res = .ok a ↔ 200 ≤ res.status ∧ res.status < 300 := by
  unfold read_trigger
  split
  · rename_i h
    simp only [Bool.or_eq_true, decide_eq_true_eq] at h
    exact iff_of_false nofun (by omega)
  · rename_i h
    simp only [Bool.or_eq_true, decide_eq_true_eq] at h
    exact iff_of_true rfl (by omega)

theorem triggered_of_read {a : Unit} (h : read_post C read_trigger e = .ok a) : Triggered C e := by
  obtain ⟨res, hres, hread⟩ := read_post_ok.1 h
  exact ⟨res, hres, read_trigger_ok.1 hread⟩

/-! ## Rounds -/

/-- The event sets no record. -/
def Event.Quiet (e : Event Key) : Prop := ∀ zone name value, e ≠ .set_txt zone name value true

theorem Event.IsPost.quiet (h : e.IsPost) : e.Quiet := by
  rintro zone name value rfl
  exact h

variable (C) in
/-- How a round of the loop ends. -/
inductive Round : Except Exit Unit → List (Event Key) → Prop
  | quiet {r : Except Exit Unit} {calls : List (Event Key)} : (∀ e ∈ calls, e.Quiet) → Round r calls
  | settled {first trigger last : Event Key} {zone name value : Bytes} {polls : List (Event Key)} {ok : Bool} :
    first.IsPost → trigger.IsPost → Triggered C trigger → (∀ e ∈ polls, e.IsPost ∧ Waits C e) → last.IsPost →
      Says C (bytes "valid") last →
      Round (.ok ()) (first :: .set_txt zone name value true :: trigger :: polls ++ [last, .remove_txt zone name value ok])
  | left {first : Event Key} {zone name value : Bytes} {rest : List (Event Key)} {x : Exit} :
    first.IsPost → (∀ e ∈ rest, e.IsPost) → ¬ Settles C rest → Round (.error x) (first :: .set_txt zone name value true :: rest)

variable {w : World Key} {ctx : AcmeCtx Key} {authz_url domain : Bytes}

/-- How the polls end. -/
theorem gives_polls (n : Nat) : Logged.Gives (Logged.tries (post C w .poll ctx authz_url .null (read_poll domain)) n) fun r calls =>
    (∀ e ∈ calls, e.IsPost) ∧
      ((r = .ok (some ()) ∧ ∃ polls last, calls = polls ++ [last] ∧ (∀ e ∈ polls, Waits C e) ∧ Says C (bytes "valid") last) ∨
        (r ≠ .ok (some ()) ∧ ∀ e ∈ calls, ¬ Says C (bytes "valid") e)) := by
  refine (Logged.gives_tries _ _ n).mono fun r calls => ?_
  rintro ⟨before, hbefore, hend⟩
  have hwaits (e : Event Key) (he : e ∈ before) : Waits C e := poll_waits.1 (hbefore e he).2
  have hposts (e : Event Key) (he : e ∈ before) : e.IsPost := by
    obtain ⟨⟨hist, rfl⟩, -⟩ := hbefore e he
    exact trivial
  rcases hend with ⟨rfl, rfl⟩ | ⟨hist, rfl, rfl, hne⟩
  · exact ⟨hposts, .inr ⟨nofun, fun e he => (hwaits e he).not_valid⟩⟩
  · refine ⟨fun e he => ?_, ?_⟩
    · rcases List.mem_append.1 he with he | he
      · exact hposts e he
      · rw [List.mem_singleton.1 he]
        exact trivial
    · by_cases hvalid : Says C (bytes "valid") (.post .poll ctx (w.exchange hist).1 (w.exchange hist).2 authz_url .null)
      · exact .inl ⟨poll_valid.2 hvalid, before, _, rfl, hwaits, hvalid⟩
      · refine .inr ⟨fun h => hvalid (poll_valid.1 h), fun e he => ?_⟩
        rcases List.mem_append.1 he with he | he
        · exact (hwaits e he).not_valid
        · rwa [List.mem_singleton.1 he]

/-- Nothing settles without a valid poll. -/
theorem not_settles {trigger : Event Key} {calls : List (Event Key)} (h : ∀ e ∈ calls, ¬ Says C (bytes "valid") e) :
    ¬ Settles C (trigger :: calls) := by
  rintro ⟨trigger', polls, last, rest, hcalls, -, -, hlast⟩
  obtain ⟨-, rfl⟩ := List.cons.inj hcalls
  exact h last (List.mem_append_right _ List.mem_cons_self) hlast

theorem gives_answer (p : Pending) (zone name txt : Bytes) {first : Event Key} (hfirst : first.IsPost) :
    Logged.Gives (answer C w ctx authz_url p zone name txt) fun r calls => Round C r (first :: calls) := by
  refine Logged.gives_call_bind (fun hist a hset => ?_) fun hist x hset => ?_
  · have hok : w.set_txt hist zone name txt = true := by
      by_contra hne
      rw [Bool.not_eq_true] at hne
      rw [hne] at hset
      cases hset
    rw [hok]
    -- the record is there from here on
    refine Logged.gives_call_bind (fun hist' a' htrigger => ?_) fun hist' x htrigger => ?_
    · refine (gives_polls 30).bind (fun a polled hpolled => ?_) fun x polled hpolled => ?_
      · obtain ⟨hposts, ⟨ha, polls, last, rfl, hwaits, hlast⟩ | ⟨ha, hnone⟩⟩ := hpolled
        · obtain rfl := Except.ok.inj ha
          refine Logged.gives_call fun hist'' => ?_
          have hlast_post : last.IsPost := hposts last (List.mem_append_right _ List.mem_cons_self)
          have hround := @Round.settled Key C first (.post .trigger ctx (w.exchange hist').1 (w.exchange hist').2 p.challenge_url .null)
            last zone name txt polls (w.remove_txt hist'' zone name txt) hfirst trivial (triggered_of_read htrigger)
            (fun e he => ⟨hposts e (List.mem_append_left _ he), hwaits e he⟩) hlast_post hlast
          simpa using hround
        · cases a with
          | some u => exact absurd rfl ha
          | none =>
            refine Logged.gives_lift ?_
            rw [List.append_nil]
            exact .left hfirst (List.forall_mem_cons.2 ⟨trivial, hposts⟩) (not_settles hnone)
      · obtain ⟨hposts, ⟨hx, -⟩ | ⟨-, hnone⟩⟩ := hpolled
        · cases hx
        · exact .left hfirst (List.forall_mem_cons.2 ⟨trivial, hposts⟩) (not_settles hnone)
    · exact .left hfirst (List.forall_mem_cons.2 ⟨trivial, nofun⟩) (not_settles nofun)
  · refine .quiet (List.forall_mem_cons.2 ⟨hfirst.quiet, List.forall_mem_singleton.2 ?_⟩)
    rintro zone' name' value' hevent
    obtain ⟨-, -, -, hok⟩ := Event.set_txt.inj hevent
    rw [hok] at hset
    cases hset

theorem gives_settle (p : Pending) {first : Event Key} (hfirst : first.IsPost) :
    Logged.Gives (settle C w ctx authz_url p) fun r calls => Round C r (first :: calls) :=
  Logged.gives_lift_bind (fun _ _ => gives_answer p _ _ _ hfirst) fun _ _ => .quiet (List.forall_mem_singleton.2 hfirst.quiet)

theorem gives_authorize : Logged.Gives (authorize C w ctx authz_url) (Round C) := by
  refine Logged.gives_call_bind (fun hist a hread => ?_) fun hist x hread => ?_
  · cases a with
    | none => exact Logged.gives_pure (.quiet (List.forall_mem_singleton.2 (Event.IsPost.quiet trivial)))
    | some p => exact gives_settle p trivial
  · exact .quiet (List.forall_mem_singleton.2 (Event.IsPost.quiet trivial))

/-! ## The log -/

variable {calls more : List (Event Key)}

theorem quiet_append (h : ∀ e ∈ calls, e.Quiet) :
    (Released (calls ++ more) ↔ Released more) ∧ (Settled C (calls ++ more) ↔ Settled C more) := by
  constructor
  · refine Logged.followed_append.trans (and_iff_right (Logged.followed_of_forall fun e he after => ?_))
    exact fun zone name value hset => absurd hset (h e he zone name value)
  · refine Logged.followed_append.trans (and_iff_right (Logged.followed_of_forall fun e he after => ?_))
    rintro ⟨zone, name, value, hset⟩
    exact absurd hset (h e he zone name value)

/-- What sets no record changes nothing about the rest. -/
theorem agree_append (h : ∀ e ∈ calls, e.Quiet) (hmore : Released more ↔ Settled C more) :
    Released (calls ++ more) ↔ Settled C (calls ++ more) := by
  obtain ⟨hreleased, hsettled⟩ := @quiet_append Key C calls more h
  exact hreleased.trans (hmore.trans hsettled.symm)

theorem agree_cons (h : e.Quiet) (hmore : Released more ↔ Settled C more) : Released (e :: more) ↔ Settled C (e :: more) :=
  agree_append (List.forall_mem_singleton.2 h) hmore

theorem agree_nil : Released ([] : List (Event Key)) ↔ Settled C [] := iff_of_true Logged.followed_nil Logged.followed_nil

theorem agree_quiet (h : ∀ e ∈ calls, e.Quiet) : Released calls ↔ Settled C calls := by
  have hcalls := agree_append h (@agree_nil Key C)
  rwa [List.append_nil] at hcalls

/-- A record that is removed after its authorization is valid is none of the rest's
concern. -/
theorem settled_append {trigger last : Event Key} {zone name value : Bytes} {polls : List (Event Key)} {ok : Bool}
    (htrigger : trigger.IsPost) (htriggered : Triggered C trigger) (hpolls : ∀ e ∈ polls, e.IsPost ∧ Waits C e)
    (hlast : last.IsPost) (hvalid : Says C (bytes "valid") last) :
    (Released (.set_txt zone name value true :: trigger :: polls ++ [last, .remove_txt zone name value ok] ++ more) ↔
        Released more) ∧
      (Settled C (.set_txt zone name value true :: trigger :: polls ++ [last, .remove_txt zone name value ok] ++ more) ↔
        Settled C more) := by
  have hrest : ∀ e ∈ trigger :: polls ++ [last, .remove_txt zone name value ok], e.Quiet := by
    intro e he
    simp only [List.cons_append, List.mem_cons, List.mem_append, List.not_mem_nil, or_false] at he
    rcases he with rfl | he | rfl | rfl
    · exact htrigger.quiet
    · exact (hpolls e he).1.quiet
    · exact hlast.quiet
    · nofun
  obtain ⟨hreleased, hsettled⟩ := @quiet_append Key C _ more hrest
  constructor
  · refine Logged.followed_cons.trans ((and_iff_right ?_).trans hreleased)
    intro zone' name' value' hset
    obtain ⟨rfl, rfl, rfl, -⟩ := Event.set_txt.inj hset
    exact ⟨ok, by simp⟩
  · refine Logged.followed_cons.trans ((and_iff_right fun _ => ?_).trans hsettled)
    exact ⟨trigger, polls, last, .remove_txt zone name value ok :: more, by simp, htriggered, fun e he => (hpolls e he).2, hvalid⟩

/-- A record that is left stays. -/
theorem left_unreleased {zone name value : Bytes} {rest : List (Event Key)} (hrest : ∀ e ∈ rest, e.IsPost)
    (hsettles : ¬ Settles C rest) :
    ¬ Released (.set_txt zone name value true :: rest) ∧ ¬ Settled C (.set_txt zone name value true :: rest) := by
  constructor
  · intro h
    obtain ⟨ok, hremove⟩ := (Logged.followed_cons.1 h).1 zone name value rfl
    exact hrest _ hremove
  · exact fun h => hsettles ((Logged.followed_cons.1 h).1 ⟨zone, name, value, rfl⟩)

theorem rounds_iff {urls : List Bytes} {r : Except Exit Unit} (h : Logged.Done (fun _ => Round C) urls r calls)
    (hmore : ∀ e ∈ more, e.IsPost) (hx : ∀ x, r = .error x → more = []) :
    Released (calls ++ more) ↔ Settled C (calls ++ more) := by
  induction h with
  | nil => exact agree_quiet fun e he => (hmore e he).quiet
  | cons hround hrest ih =>
    specialize ih hx
    rw [List.append_assoc]
    cases hround with
    | quiet hquiet => exact agree_append hquiet ih
    | settled hfirst htrigger htriggered hpolls hlast hvalid =>
      obtain ⟨hreleased, hsettled⟩ := settled_append htrigger htriggered hpolls hlast hvalid
      exact agree_cons hfirst.quiet (hreleased.trans (ih.trans hsettled.symm))
  | stop hround =>
    rw [hx _ rfl, List.append_nil]
    cases hround with
    | quiet hquiet => exact agree_quiet hquiet
    | left hfirst hrest hsettles =>
      obtain ⟨hreleased, hsettled⟩ := left_unreleased hrest hsettles
      exact agree_cons hfirst.quiet (iff_of_false hreleased hsettled)

/-- The calls after the loop. -/
theorem posts_finish (domains : List Bytes) (order : Order) : Logged.Calls Event.IsPost (finish C w ctx domains order) := by
  have hpost {α : Type} (step : Step) (url : Bytes) (payload : Json) (read : AcmeResponse → Except Exit α) :
      Logged.Calls Event.IsPost (post C w step ctx url payload read) := Logged.calls_call fun _ => trivial
  refine (Logged.calls_lift _).bind fun cert_key => (hpost _ _ _ _).bind fun _ => ((hpost _ _ _ _).tries 60).bind fun polled => ?_
  match polled with
  | none | some [] => exact Logged.calls_lift _
  | some (c :: cert_url) => exact (hpost _ _ _ _).bind fun _ => Logged.calls_pure _

theorem gives_place (key : Key) (dir : Directory) (domains : List Bytes) :
    Logged.Gives (place C w key dir domains) fun _ calls => Released calls ↔ Settled C calls := by
  have hposts {calls : List (Event Key)} (h : ∀ e ∈ calls, e.IsPost) : Released calls ↔ Settled C calls :=
    agree_quiet fun e he => (h e he).quiet
  have hstart {calls : List (Event Key)} (h : Released calls ↔ Settled C calls) (a b : Event Key) (ha : a.IsPost) (hb : b.IsPost) :
      Released (a :: b :: calls) ↔ Settled C (a :: b :: calls) := agree_cons ha.quiet (agree_cons hb.quiet h)
  refine Logged.gives_call_bind (fun hist kid hkid => ?_) fun _ _ _ => hposts (List.forall_mem_singleton.2 trivial)
  refine Logged.gives_call_bind (fun hist' order horder => ?_) fun _ _ _ =>
    hposts (List.forall_mem_cons.2 ⟨trivial, List.forall_mem_singleton.2 trivial⟩)
  refine (Logged.gives_each (fun _ => gives_authorize) order.authorizations).bind (fun a calls hrounds => ?_) fun x calls hrounds => ?_
  · refine (posts_finish domains order).mono fun r more hmore => hstart ?_ _ _ trivial trivial
    exact rounds_iff hrounds hmore nofun
  · have hended := rounds_iff hrounds (List.forall_mem_nil _) fun _ _ => rfl
    rw [List.append_nil] at hended
    exact hstart hended _ _ trivial trivial

end

/-- Every record that is set is removed before the return exactly if after each of them
the trigger is accepted and the authorization becomes valid in one of the polls. -/
theorem released_iff {Key : Type} (C : Crypto Key) (w : World Key) (staging : Bool) (primary : Bytes) (sans : List Bytes) :
    Released (acme_issue_cert C w staging primary sans).2 ↔ Settled C (acme_issue_cert C w staging primary sans).2 := by
  exact gives_issue (R := fun _ calls => Released calls ↔ Settled C calls) (fun _ _ => agree_nil)
    (fun key dir => gives_place key dir (primary :: sans)) []

/-! ## A trigger that fails -/

/-- The server does not take the challenge. -/
def refused_trigger : List (Except Bytes AcmeAnswer) := [.ok ⟨500, bytes "oops", none, none⟩]

def Event.sets {Key : Type} : Event Key → Bool
  | .set_txt _ _ _ ok => ok
  | _ => false

def Event.removes {Key : Type} : Event Key → Bool
  | .remove_txt _ _ _ _ => true
  | _ => false

/-- An error is returned, and the record is left. -/
theorem refused_trigger_leaves_record :
    (toyRun refused_trigger).1 = some (⟨false, [], []⟩, bytes "challenge trigger failed: HTTP 500 oops") ∧
    ¬ ∀ (Key : Type) (C : Crypto Key) (w : World Key) staging primary sans, Released (acme_issue_cert C w staging primary sans).2 := by
  obtain ⟨hfailed, hset, hkept⟩ :
      (toyRun refused_trigger).1 = some (⟨false, [], []⟩, bytes "challenge trigger failed: HTTP 500 oops") ∧
        (toyRun refused_trigger).2.any Event.sets = true ∧ (toyRun refused_trigger).2.any Event.removes = false := by decide +kernel
  refine ⟨hfailed, fun h => ?_⟩
  have hreleased : Released (toyRun refused_trigger).2 := h _ _ _ _ _ _
  obtain ⟨e, he, hsets⟩ := List.any_eq_true.1 hset
  obtain ⟨before, after, hlog⟩ := List.append_of_mem he
  cases e with
  | set_txt zone name value ok =>
    obtain rfl : ok = true := hsets
    obtain ⟨ok, hremove⟩ := hreleased before _ after hlog zone name value rfl
    have hmem : Event.remove_txt zone name value ok ∈ (toyRun refused_trigger).2 := by
      rw [hlog]
      exact List.mem_append_right _ (List.mem_cons_of_mem _ hremove)
    exact absurd (List.any_eq_false.1 hkept _ hmem) (by simp [Event.removes])
  | post _ _ _ _ _ _ | remove_txt _ _ _ _ => cases hsets

end Hostely.Exposure.Issue
