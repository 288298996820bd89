import Hostely.Exposure.Issue
import Mathlib.Data.List.Basic
/-!
# Validated domains

An order is finalized after each of its authorizations was seen valid, and a
certificate that is returned is the one of the order, seen valid after that.
-/

open Hostely.Lib

namespace Hostely.Exposure.Issue

/-! ## The log -/

def Event.step {Key : Type} : Event Key → Option Step
  | .post step _ _ _ _ _ => some step
  | _ => none

def Event.url {Key : Type} : Event Key → Option Bytes
  | .post _ _ _ _ url _ => some url
  | _ => none

section
variable {Key : Type} (C : Crypto Key)

/-- The order is named by a reply to newOrder. -/
def Placed (log : List (Event Key)) (order : Order) : Prop :=
  ∃ e ∈ log, e.step = some .order ∧ ∃ res, e.response C = some res ∧ res.location = order.order_url ∧
    at_string res.body (bytes "finalize") = some order.finalize_url ∧ authorizations res.body = some order.authorizations

/-- A reply to a post to the URL has the status valid. -/
def Validated (url : Bytes) (log : List (Event Key)) : Prop := ∃ e ∈ log, e.url = some url ∧ Says C (bytes "valid") e

/-- The order is finalized, is valid later, and the certificate it names is then
downloaded. -/
def Certified (order : Order) (cert_pem : Bytes) (log : List (Event Key)) : Prop :=
  ∃ finalize poll certificate, [finalize, poll, certificate].Sublist log ∧
    (finalize.step = some .finalize ∧ finalize.url = some order.finalize_url) ∧
    ∃ cert_url, (poll.url = some order.order_url ∧ Says C (bytes "valid") poll ∧
        ∃ res, poll.response C = some res ∧ res.body.value_string (bytes "certificate") [] = some cert_url) ∧
      certificate.url = some cert_url ∧ ∃ res, certificate.response C = some res ∧ res.status = 200 ∧ res.raw = cert_pem

end

section
variable {Key : Type} {C : Crypto Key} {w : World Key} {ctx : AcmeCtx Key} {authz_url : Bytes}

/-! ## Reading -/

theorem read_order_ok {provider : Bool} {res : AcmeResponse} {order : Order} (h : read_order provider res = .ok order) :
    res.location = order.order_url ∧ at_string res.body (bytes "finalize") = some order.finalize_url ∧
      authorizations res.body = some order.authorizations := by
  unfold read_order at h
  split at h
  · cases h
  · split at h
    · cases h
    · rename_i finalize_url hfinalize
      split at h
      · cases h
      · obtain ⟨urls, hurls, horder⟩ := bind_eq_ok h
        obtain rfl := Except.ok.inj horder
        exact ⟨rfl, hfinalize, orThrow_ok hurls⟩

theorem read_authz_valid {authz : AcmeResponse} (h : read_authz authz = .ok none) : status_of authz = some (bytes "valid") := by
  unfold read_authz at h
  split at h
  · cases h
  · obtain ⟨st, hst, h⟩ := bind_eq_ok h
    split at h
    · rename_i hvalid
      rw [orThrow_ok hst, hvalid]
    · obtain ⟨⟨token, challenge_url⟩, -, h⟩ := bind_eq_ok h
      dsimp only at h
      split at h <;> cases h

theorem read_order_poll_valid {res : AcmeResponse} {cert_url : Bytes} (h : read_order_poll res = .ok (some cert_url)) :
    status_of res = some (bytes "valid") ∧ res.body.value_string (bytes "certificate") [] = some cert_url := by
  unfold read_order_poll at h
  obtain ⟨st, hst, h⟩ := bind_eq_ok h
  split at h
  · rename_i hvalid
    obtain ⟨url, hurl, h⟩ := bind_eq_ok h
    obtain rfl := Option.some.inj (Except.ok.inj h)
    exact ⟨by rw [orThrow_ok hst, hvalid], orThrow_ok hurl⟩
  · split at h <;> cases h

/-! ## An authorization -/

theorem Validated.more {url : Bytes} {calls : List (Event Key)} (h : Validated C url calls) (before after : List (Event Key)) :
    Validated C url (before ++ calls ++ after) := by
  obtain ⟨e, he, hvalid⟩ := h
  exact ⟨e, by simp [he], hvalid⟩

theorem yields_polls (domain : Bytes) (n : Nat) :
    Logged.Yields (Logged.tries (post C w .poll ctx authz_url .null (read_poll domain)) n)
      fun found calls => found = some () → Validated C authz_url calls := by
  refine (Logged.yields_tries _ _ n).mono fun found calls h hfound => ?_
  obtain ⟨hist, he, hread⟩ := h () hfound
  exact ⟨_, he, rfl, poll_valid.1 hread⟩

theorem yields_answer (p : Pending) (zone name txt : Bytes) :
    Logged.Yields (answer C w ctx authz_url p zone name txt) fun _ => Validated C authz_url := by
  have hany {α : Type} (m : Logged (Event Key) Exit α) : Logged.Yields m fun _ _ => True := fun _ _ _ => trivial
  refine (hany _).bind fun _ set _ => (hany _).bind fun _ triggered _ => ?_
  refine (yields_polls p.domain 30).bind fun found polled hpolled => ?_
  cases found with
  | none => exact Logged.yields_lift nofun
  | some u =>
    refine (hany _).mono fun _ removed _ => ?_
    simpa [List.append_assoc] using (hpolled rfl).more (set ++ triggered) removed

theorem yields_authorize : Logged.Yields (authorize C w ctx authz_url) fun _ => Validated C authz_url := by
  refine (Logged.yields_call (S := fun found calls => found = none → Validated C authz_url calls) ?_).bind fun found calls hcalls => ?_
  · rintro hist found hread rfl
    obtain ⟨res, hres, hread⟩ := read_post_ok.1 hread
    exact ⟨_, List.mem_singleton_self _, rfl, res, hres, read_authz_valid hread⟩
  · cases found with
    | none => exact Logged.yields_pure (by simpa using hcalls rfl)
    | some p =>
      have hsettle : Logged.Yields (settle C w ctx authz_url p) fun _ => Validated C authz_url :=
        (Logged.yields_lift (S := fun _ calls => calls = []) fun _ _ => rfl).bind fun _ _ h => by
          subst h
          exact yields_answer p _ _ _
      refine hsettle.mono fun _ more hmore => ?_
      simpa using hmore.more calls []

/-! ## The order -/

variable {order : Order} {domains : List Bytes}

/-- The call places no order and finalizes none. -/
def Event.Aside (e : Event Key) : Prop := e.step ≠ some .order ∧ e.step ≠ some .finalize

theorem aside_post {α : Type} {step : Step} {url : Bytes} {payload : Json} {read : AcmeResponse → Except Exit α}
    (hstep : step ≠ .order ∧ step ≠ .finalize) : Logged.Calls Event.Aside (post C w step ctx url payload read) :=
  Logged.calls_call fun _ => ⟨fun h => hstep.1 (Option.some.inj h), fun h => hstep.2 (Option.some.inj h)⟩

theorem aside_authorize : Logged.Calls Event.Aside (authorize C w ctx authz_url) := by
  refine (aside_post (by decide)).bind fun found => ?_
  cases found with
  | none => exact Logged.calls_pure _
  | some p =>
    refine (Logged.calls_lift _).bind fun thumbprint => (Logged.calls_call fun _ => ⟨nofun, nofun⟩).bind fun _ => ?_
    refine (aside_post (by decide)).bind fun _ => ((aside_post (by decide)).tries 30).bind fun polled => ?_
    cases polled with
    | none => exact Logged.calls_lift _
    | some u => exact Logged.calls_call fun _ => ⟨nofun, nofun⟩

/-- The order is finalized at most once, and first. -/
theorem gives_finish : Logged.Gives (finish C w ctx domains order) fun _ calls => calls = [] ∨ ∃ finalize later,
    calls = finalize :: later ∧ (finalize.step = some .finalize ∧ finalize.url = some order.finalize_url) ∧ ∀ e ∈ later, e.Aside := by
  refine Logged.gives_lift_bind (fun key _ => ?_) fun _ _ => .inl rfl
  refine Logged.gives_call_bind (fun hist _ _ => ?_) fun hist _ _ => .inr ⟨_, [], rfl, ⟨rfl, rfl⟩, nofun⟩
  refine Logged.Gives.mono (R := fun _ later => ∀ e ∈ later, e.Aside) ?_ fun _ later hlater =>
    .inr ⟨_, later, rfl, ⟨rfl, rfl⟩, hlater⟩
  refine ((aside_post (by decide)).tries 60).bind fun polled => ?_
  match polled with
  | none | some [] => exact Logged.calls_lift _
  | some (c :: cert_url) => exact (aside_post (by decide)).bind fun _ => Logged.calls_pure _

theorem yields_finish : Logged.Yields (finish C w ctx domains order) fun pems => Certified C order pems.1 := by
  have hfinalize (payload : Json) : Logged.Yields (post C w .finalize ctx order.finalize_url payload read_finalize) fun _ calls =>
      ∃ e, calls = [e] ∧ e.step = some .finalize ∧ e.url = some order.finalize_url :=
    Logged.yields_call fun _ _ _ => ⟨_, rfl, rfl, rfl⟩
  have hcertificate (cert_url : Bytes) :
      Logged.Yields (post C w .certificate ctx cert_url .null read_certificate) fun cert_pem calls =>
      ∃ e, calls = [e] ∧ e.url = some cert_url ∧ ∃ res, e.response C = some res ∧ res.status = 200 ∧ res.raw = cert_pem := by
    refine Logged.yields_call fun hist cert_pem hread => ?_
    obtain ⟨res, hres, hread⟩ := read_post_ok.1 hread
    exact ⟨_, rfl, rfl, res, hres, read_certificate_ok.1 hread⟩
  refine (Logged.yields_lift (S := fun _ calls => calls = []) fun _ _ => rfl).bind fun key before hbefore => ?_
  subst hbefore
  refine (hfinalize _).bind fun _ finalized ⟨finalize, hcalls, hfinalize⟩ => ?_
  subst hcalls
  refine (Logged.yields_tries _ _ 60).bind fun found polled hpolled => ?_
  match found with
  | none | some [] => exact Logged.yields_lift nofun
  | some (c :: cert_url) =>
    obtain ⟨hist, hpoll, hread⟩ := hpolled _ rfl
    obtain ⟨res, hres, hread⟩ := read_post_ok.1 hread
    obtain ⟨hvalid, hcert_url⟩ := read_order_poll_valid hread
    refine (hcertificate _).bind fun cert_pem downloaded ⟨certificate, hcalls, hcertificate⟩ => Logged.yields_pure ?_
    subst hcalls
    refine ⟨finalize, _, certificate, ?_, hfinalize, c :: cert_url, ⟨rfl, ⟨res, hres, hvalid⟩, res, hres, hcert_url⟩, hcertificate⟩
    exact (List.Sublist.append (List.singleton_sublist.2 hpoll) (List.Sublist.refl [certificate])).cons_cons finalize

/-! ## The run -/

variable {before later log : List (Event Key)} {finalize : Event Key}

variable (C) in
/-- Before the order is finalized, it was placed and its authorizations were validated. -/
def Guarded (log : List (Event Key)) : Prop :=
  ∀ before e after, log = before ++ e :: after → e.step = some .finalize →
    ∃ order, Placed C before order ∧ e.url = some order.finalize_url ∧ ∀ url ∈ order.authorizations, Validated C url before

def OneOrder (log : List (Event Key)) : Prop := ∀ e ∈ log, e.step = some .order → ∀ e' ∈ log, e'.step = some .order → e = e'

theorem guarded_of_none (h : ∀ e ∈ log, e.step ≠ some .finalize) : Guarded C log := by
  rintro before e after rfl hstep
  exact absurd hstep (h e (by simp))

theorem guarded_of_validated (hbefore : ∀ e ∈ before, e.step ≠ some .finalize) (hlater : ∀ e ∈ later, e.step ≠ some .finalize)
    (hplaced : Placed C before order) (hurl : finalize.url = some order.finalize_url)
    (hvalid : ∀ url ∈ order.authorizations, Validated C url before) : Guarded C (before ++ finalize :: later) := by
  intro before' e after hlog hstep
  have hnew : e ∉ before := fun he => hbefore e he hstep
  have hold : e ∉ later := fun he => hlater e he hstep
  obtain ⟨rfl, rfl, rfl⟩ := (List.append_cons_inj_of_notMem hnew hold).1 hlog
  exact ⟨order, hplaced, hurl, hvalid⟩

theorem Placed.unique {o o' : Order} (hone : OneOrder log) (h : Placed C log o) (h' : Placed C log o') : o = o' := by
  obtain ⟨e, he, hstep, res, hres, hurl, hfinalize, hauthz⟩ := h
  obtain ⟨e', he', hstep', res', hres', hurl', hfinalize', hauthz'⟩ := h'
  obtain rfl := hone e he hstep e' he' hstep'
  obtain rfl := Option.some.inj (hres.symm.trans hres')
  have hurls := hurl.symm.trans hurl'
  have hfinalizes := Option.some.inj (hfinalize.symm.trans hfinalize')
  have hauthzs := Option.some.inj (hauthz.symm.trans hauthz')
  cases o
  cases o'
  simp_all

theorem Placed.mono (h : Placed C before order) (hsub : before ⊆ log) : Placed C log order := by
  obtain ⟨e, he, hplaced⟩ := h
  exact ⟨e, hsub he, hplaced⟩

theorem oneOrder_of_aside {account placed : Event Key} (haccount : account.Aside) (hlater : ∀ e ∈ later, e.step ≠ some .order) :
    OneOrder (account :: placed :: later) := by
  have hplaced (e : Event Key) (he : e ∈ account :: placed :: later) (hstep : e.step = some .order) : e = placed := by
    rcases List.mem_cons.1 he with rfl | he
    · exact absurd hstep haccount.1
    · rcases List.mem_cons.1 he with rfl | he
      · rfl
      · exact absurd hstep (hlater e he)
  exact fun e he hstep e' he' hstep' => (hplaced e he hstep).trans (hplaced e' he' hstep').symm

/-- The loop, when it comes to an end. -/
theorem gives_rounds (urls : List Bytes) : Logged.Gives (Logged.each (authorize C w ctx) urls) fun r rounds =>
    (∀ e ∈ rounds, e.Aside) ∧ ∀ u, r = .ok u → ∀ url ∈ urls, Validated C url rounds :=
  (Logged.calls_each (fun _ => aside_authorize) urls).and
    (Logged.yields_each (fun _ => yields_authorize) (fun _ before _ after h => h.more before after) urls)

/-- What the log of a run is like. -/
def Sound (C : Crypto Key) (r : Except Exit (Bytes × Bytes)) (log : List (Event Key)) : Prop :=
  (Guarded C log ∧ OneOrder log) ∧ ∀ pems, r = .ok pems → ∃ order, Placed C log order ∧ Certified C order pems.1 log

theorem Certified.more {cert_pem : Bytes} (h : Certified C order cert_pem later) (before : List (Event Key)) :
    Certified C order cert_pem (before ++ later) := by
  obtain ⟨finalize, poll, certificate, hsub, hrest⟩ := h
  exact ⟨finalize, poll, certificate, hsub.trans (List.sublist_append_right before later), hrest⟩

/-- From the order on. -/
theorem sound_ordered {account placed : Event Key} (haccount : account.Aside) (hstep : placed.step = some .order)
    (hplaced : Placed C [account, placed] order) :
    Logged.Gives (do Logged.each (authorize C w ctx) order.authorizations; finish C w ctx domains order)
      fun r more => Sound C r (account :: placed :: more) := by
  have hquiet {rounds : List (Event Key)} (haside : ∀ e ∈ rounds, e.Aside) :
      ∀ e ∈ account :: placed :: rounds, e.step ≠ some .finalize := by
    refine List.forall_mem_cons.2 ⟨haccount.2, List.forall_mem_cons.2 ⟨?_, fun e he => (haside e he).2⟩⟩
    rw [hstep]
    nofun
  refine (gives_rounds order.authorizations).bind (fun _ rounds ⟨haside, hvalid⟩ => ?_) fun x rounds ⟨haside, _⟩ => ?_
  · refine (gives_finish.and yields_finish).mono fun r more ⟨hshape, hcert⟩ => ?_
    have hsub : [account, placed] ⊆ account :: placed :: (rounds ++ more) := by simp
    have hcertified (pems : Bytes × Bytes) (hpems : r = .ok pems) :
        ∃ order, Placed C (account :: placed :: (rounds ++ more)) order ∧
          Certified C order pems.1 (account :: placed :: (rounds ++ more)) :=
      ⟨order, hplaced.mono hsub, (hcert pems hpems).more (account :: placed :: rounds)⟩
    rcases hshape with rfl | ⟨finalize, later, rfl, ⟨hfinalize, hurl⟩, hlater⟩
    · rw [List.append_nil] at hcertified ⊢
      exact ⟨⟨guarded_of_none (hquiet haside), oneOrder_of_aside haccount fun e he => (haside e he).1⟩, hcertified⟩
    · refine ⟨⟨?_, oneOrder_of_aside haccount fun e he => ?_⟩, hcertified⟩
      · have hbefore : [account, placed] ⊆ account :: placed :: rounds := by simp
        refine guarded_of_validated (hquiet haside) (fun e he => (hlater e he).2) (hplaced.mono hbefore) hurl fun url hurl => ?_
        simpa using (hvalid ⟨⟩ rfl url hurl).more [account, placed] []
      · rcases List.mem_append.1 he with he | he
        · exact (haside e he).1
        · rcases List.mem_cons.1 he with rfl | he
          · rw [hfinalize]
            nofun
          · exact (hlater e he).1
  · exact ⟨⟨guarded_of_none (hquiet haside), oneOrder_of_aside haccount fun e he => (haside e he).1⟩, nofun⟩

theorem sound_place (key : Key) (dir : Directory) : Logged.Gives (place C w key dir domains) (Sound C) := by
  refine Logged.gives_call_bind (fun hist kid _ => ?_) fun hist _ _ => ?_
  · refine Logged.gives_call_bind (fun hist' order hread => ?_) fun hist' _ _ => ?_
    · obtain ⟨res, hres, hread⟩ := read_post_ok.1 hread
      refine sound_ordered ⟨nofun, nofun⟩ rfl ⟨_, ?_, rfl, res, hres, read_order_ok hread⟩
      exact List.mem_cons_of_mem _ (List.mem_singleton_self _)
    · refine ⟨⟨guarded_of_none ?_, oneOrder_of_aside ⟨nofun, nofun⟩ nofun⟩, nofun⟩
      simp [Event.step]
  · refine ⟨⟨guarded_of_none ?_, ?_⟩, nofun⟩
    · simp [Event.step]
    · simp [OneOrder]

end

/-! ## Issuing -/

/-- A post to the finalize URL, which no other resource has, comes after the
authorizations of the order were seen valid. -/
def ValidatedFirst {Key : Type} (C : Crypto Key) (log : List (Event Key)) : Prop :=
  ∀ order, Placed C log order → (∀ e ∈ log, e.url = some order.finalize_url → e.step = some .finalize) →
    ∀ before e after, log = before ++ e :: after → e.url = some order.finalize_url →
      ∀ url ∈ order.authorizations, Validated C url before

theorem Sound.validatedFirst {Key : Type} {C : Crypto Key} {r : Except Exit (Bytes × Bytes)} {log : List (Event Key)}
    (h : Sound C r log) : ValidatedFirst C log := by
  obtain ⟨⟨hguarded, hone⟩, -⟩ := h
  rintro order hplaced hother before e after rfl hurl
  obtain ⟨order', hplaced', -, hvalid⟩ := hguarded before e after rfl (hother e (by simp) hurl)
  have horder : order' = order := (hplaced'.mono (List.subset_append_left before _)).unique hone hplaced
  rwa [← horder]

theorem returned_ok {r : Except Exit (Bytes × Bytes)} {res : AcmeResult} {error_out : Bytes}
    (h : returned r = some (res, error_out)) (hok : res.ok = true) : r = .ok (res.cert_pem, res.key_pem) := by
  match r with
  | .ok (cert_pem, key_pem) =>
    obtain ⟨rfl, -⟩ := Prod.mk.inj (Option.some.inj h)
    rfl
  | .error (.failed message) =>
    obtain ⟨rfl, -⟩ := Prod.mk.inj (Option.some.inj h)
    cases hok
  | .error .thrown => cases h

/-- An order is finalized only after every authorization of it was seen valid, and a
certificate that is returned is the one of an order that was seen valid after it was
finalized. -/
theorem finalized_validated {Key : Type} (C : Crypto Key) (w : World Key) (staging : Bool) (primary : Bytes) (sans : List Bytes) :
    Guarded C (acme_issue_cert C w staging primary sans).2 ∧ ValidatedFirst C (acme_issue_cert C w staging primary sans).2 ∧
      ∀ res error_out, (acme_issue_cert C w staging primary sans).1 = some (res, error_out) → res.ok = true →
        ∃ order, Placed C (acme_issue_cert C w staging primary sans).2 order ∧
          Certified C order res.cert_pem (acme_issue_cert C w staging primary sans).2 := by
  have hsound : Sound C (issue C w staging primary sans []).1 (issue C w staging primary sans []).2 := by
    refine gives_issue (fun message _ => ?_) (fun key dir => sound_place key dir) []
    exact ⟨⟨guarded_of_none nofun, nofun⟩, nofun⟩
  exact ⟨hsound.1.1, hsound.validatedFirst, fun res error_out hres hok => hsound.2 _ (returned_ok hres hok)⟩

/-! ## A certificate -/

/-- Everything is valid at the first poll. The event after the poll of the authorization
is that the record is removed. -/
def granted : List (Except Bytes AcmeAnswer) := [
  .ok ⟨200, [], none, none⟩,
  .ok ⟨200, [], some (toy_status (bytes "valid")), none⟩,
  .error [],
  .ok ⟨200, [], none, none⟩,
  .ok ⟨200, [], some (toy_status (bytes "valid")), none⟩,
  .ok ⟨200, bytes "pem", none, none⟩]

theorem toy_certified : (toyRun granted).1 = some (⟨true, bytes "pem", bytes "key"⟩, []) ∧
    ∃ order, Placed toyCrypto (toyRun granted).2 order ∧ Certified toyCrypto order (bytes "pem") (toyRun granted).2 := by
  have hgranted : (toyRun granted).1 = some (⟨true, bytes "pem", bytes "key"⟩, []) := by decide +kernel
  exact ⟨hgranted, (finalized_validated toyCrypto (toyWorld granted) false (bytes "a.io") []).2.2 _ _ hgranted rfl⟩

end Hostely.Exposure.Issue
