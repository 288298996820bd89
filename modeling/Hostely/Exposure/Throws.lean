import Hostely.Exposure.Issue
/-!
# Failures of an issuance

Every failure that is looked for is returned with a message. An answer of another
shape than the one that is read, a transport error in the middle of polling or a URL
without a path ends in an exception.
-/

open Hostely.Lib

namespace Hostely.Exposure

/-! ## Posting -/

theorem tbl_ascii (n : Nat) : tbl.getD n 0 ≤ 0x7F := by
  have hall : ∀ c ∈ tbl, c ≤ 0x7F := by decide +kernel
  rw [List.getD_eq_getElem?_getD]
  cases hc : tbl[n]? with
  | none => decide
  | some c => exact hall c (List.mem_of_getElem? hc)

theorem b64url_round_ascii (a : UInt8) (b c : Option UInt8) : ∀ d ∈ b64url_round a b c, d ≤ 0x7F := by
  have hpad (b : Bool) (n : Nat) : (if b then tbl.getD n 0 else 45) ≤ 0x7F := by
    cases b with
    | false => exact (by decide : (45 : UInt8) ≤ 0x7F)
    | true => exact tbl_ascii n
  simp only [b64url_round, List.forall_mem_cons]
  exact ⟨tbl_ascii _, tbl_ascii _, hpad _ _, hpad _ _, List.forall_mem_nil _⟩

theorem b64url_ascii (d : Bytes) : ∀ c ∈ b64url d, c ≤ 0x7F := by
  fun_induction b64url d with
  | case1 => exact List.forall_mem_nil _
  | case2 a => exact b64url_round_ascii a none none
  | case3 a b => exact b64url_round_ascii a (some b) none
  | case4 a b c rest ih => exact fun x hx => (List.mem_append.1 hx).elim (b64url_round_ascii a (some b) (some c) x) (ih x)

theorem b64url_dump (d : Bytes) : (Json.str (b64url d)).dump.isSome = true := by
  rw [Json.dump_str]
  exact validUtf8_ascii (b64url_ascii d)

theorem Jws.json_dump {flat : Jws} (h : ∃ a b c, flat = ⟨b64url a, b64url b, b64url c⟩) : flat.json.dump.isSome = true := by
  obtain ⟨a, b, c, rfl⟩ := h
  refine (Json.dump_obj _).2 ?_
  simp only [List.forall_mem_cons]
  exact ⟨⟨validUtf8_bytes _, b64url_dump b⟩, ⟨validUtf8_bytes _, b64url_dump a⟩, ⟨validUtf8_bytes _, b64url_dump c⟩, nofun⟩

section
variable {Key : Type} {C : Crypto Key}

theorem jwk_dump (key : Key) : (jwk C key).dump.isSome = true := by
  refine (Json.dump_obj _).2 ?_
  simp only [List.forall_mem_cons]
  exact ⟨⟨validUtf8_bytes _, Json.dump_literal _⟩, ⟨validUtf8_bytes _, Json.dump_literal _⟩, ⟨validUtf8_bytes _, b64url_dump _⟩, ⟨validUtf8_bytes _, b64url_dump _⟩, nofun⟩

theorem thumbprint_isSome (key : Key) : (thumbprint_b64url C key).isSome = true := by
  unfold thumbprint_b64url
  rw [Option.isSome_map]
  exact jwk_dump key

/-- The key of an account without a URL can always be written. -/
theorem jws_header_dump {ctx : AcmeCtx Key} {url nonce : Bytes} :
    (jws_header C ctx url nonce).dump.isSome = true ↔
      validUtf8 ctx.kid = true ∧ validUtf8 nonce = true ∧ validUtf8 url = true := by
  unfold jws_header
  rw [Json.dump_obj]
  simp only [List.forall_mem_cons, Json.dump_str]
  split
  · simp [Json.dump_str]
  · rename_i hkid
    rw [not_ne_iff.1 hkid]
    simp [jwk_dump]

theorem payload_str_isSome {payload : Json} : (payload_str payload).isSome = payload.dump.isSome := by
  cases payload <;> rfl

theorem unsigned_jws_isSome {ctx : AcmeCtx Key} {url nonce : Bytes} {payload : Json} :
    (unsigned_jws C ctx url nonce payload).isSome = true ↔
      (validUtf8 ctx.kid = true ∧ validUtf8 nonce = true ∧ validUtf8 url = true) ∧ payload.dump.isSome = true := by
  rw [← @jws_header_dump Key C, ← @payload_str_isSome payload]
  unfold unsigned_jws
  cases (jws_header C ctx url nonce).dump <;> cases payload_str payload <;> simp

theorem signed_dump {ctx : AcmeCtx Key} {url nonce : Bytes} {payload : Json} {unsigned flat : Jws}
    (hunsigned : unsigned_jws C ctx url nonce payload = some unsigned) (hflat : sign_jws C ctx.key unsigned = some flat) :
    flat.json.dump.isSome = true := by
  obtain ⟨header, -, hunsigned⟩ := Option.bind_eq_some_iff.1 hunsigned
  obtain ⟨text, -, hunsigned⟩ := Option.bind_eq_some_iff.1 hunsigned
  obtain rfl := Option.some.inj hunsigned
  obtain ⟨⟨r, s⟩, -, hflat⟩ := Option.bind_eq_some_iff.1 hflat
  obtain rfl := Option.some.inj hflat
  exact Jws.json_dump ⟨header, text, raw_signature r s, rfl⟩

variable (C) in
/-- Whether a post comes back, with an answer or an error: the URLs have a path, and the
header and the payload are UTF-8. Without a nonce or a signature it is given up before. -/
def Sendable (x : Exchange) (ctx : AcmeCtx Key) (url : Bytes) (payload : Json) : Prop :=
  ∃ host path, split_url ctx.new_nonce = some (host, path) ∧
    let nonce := fresh_nonce (x.get host path)
    nonce = [] ∨
      ((validUtf8 ctx.kid = true ∧ validUtf8 nonce = true ∧ validUtf8 url = true) ∧ payload.dump.isSome = true) ∧
        ((split_url url).isSome = true ∨
          ∀ unsigned, unsigned_jws C ctx url nonce payload = some unsigned → sign_jws C ctx.key unsigned = none)

theorem post_jws_isSome {x : Exchange} {url : Bytes} {flat : Jws} (h : flat.json.dump.isSome = true) :
    (post_jws x url flat).response.isSome = (split_url url).isSome := by
  obtain ⟨body, hbody⟩ := Option.isSome_iff_exists.1 h
  unfold post_jws
  rw [hbody]
  cases split_url url <;> rfl

theorem jws_post_isSome {x : Exchange} {ctx : AcmeCtx Key} {url : Bytes} {payload : Json} :
    (jws_post C x ctx url payload).response.isSome = true ↔ Sendable C x ctx url payload := by
  unfold jws_post Sendable
  cases hsplit : split_url ctx.new_nonce with
  | none => simp
  | some parts =>
    obtain ⟨host, path⟩ := parts
    simp only [Option.some_inj, Prod.mk.injEq, ← unsigned_jws_isSome (C := C)]
    generalize hnonce : fresh_nonce (x.get host path) = nonce
    trans (nonce = [] ∨ (unsigned_jws C ctx url nonce payload).isSome = true ∧
        ((split_url url).isSome = true ∨
          ∀ unsigned, unsigned_jws C ctx url nonce payload = some unsigned → sign_jws C ctx.key unsigned = none))
    · split
      · rename_i hempty
        exact iff_of_true rfl (.inl hempty)
      · rename_i hfresh
        rw [or_iff_right hfresh]
        cases hunsigned : unsigned_jws C ctx url nonce payload with
        | none => simp
        | some unsigned =>
          cases hsigned : sign_jws C ctx.key unsigned with
          | none => simp [hsigned]
          | some flat => simp [hsigned, post_jws_isSome (signed_dump hunsigned hsigned)]
    · constructor
      · exact fun h => ⟨host, path, ⟨rfl, rfl⟩, by rwa [hnonce]⟩
      · rintro ⟨host', path', ⟨rfl, rfl⟩, h⟩
        rwa [hnonce] at h

end

namespace Issue

/-! ## Endings -/

/-- An exception, or an error without a message. -/
def Silent {α : Type} (r : Except Exit α) : Prop := r = .error .thrown ∨ r = .error (.failed [])

section
variable {α β : Type}

@[simp] theorem not_silent_ok (a : α) : ¬ Silent (.ok a : Except Exit α) := by simp [Silent]

@[simp] theorem not_silent_pure (a : α) : ¬ Silent (pure a : Except Exit α) := not_silent_ok a

theorem not_silent_fail {message : Bytes} (h : message ≠ []) : ¬ Silent (fail message : Except Exit α) := by
  simp [Silent, fail, h]

theorem not_silent_unless {p : Prop} [Decidable p] {message : Bytes} {r : Except Exit α} (hmessage : message ≠ [])
    (h : ¬ Silent r) : ¬ Silent (if p then fail message else r) := by
  split
  · exact not_silent_fail hmessage
  · exact h

theorem silent_orThrow {o : Option α} {k : α → Except Exit β} :
    Silent (orThrow o >>= k) ↔ ∀ a, o = some a → Silent (k a) := by
  cases o with
  | none => exact iff_of_true (.inl rfl) nofun
  | some a => simp [orThrow, bind, Except.bind]

theorem silent_orThrow_map {o : Option α} {f : α → β} : Silent (f <$> orThrow o) ↔ o = none := by
  cases o with
  | none => exact iff_of_true (.inl rfl) rfl
  | some a => exact iff_of_false (not_silent_ok _) nofun

theorem silent_error {x : Exit} : Silent (.error x : Except Exit α) ↔ Silent (.error x : Except Exit β) := by simp [Silent]

end

/-! ## Answers -/

section
variable {Key : Type} (C : Crypto Key) (w : World Key)

/-- A list of strings, and a challenge whose fields are read. -/
def Strings (v : Json) : Prop := ∃ items, v = .arr items ∧ ∀ i ∈ items, i.is_string = true

def Text (j : Json) (key : String) : Prop := j.Field (·.is_string = true) (bytes key)

def Challenge (ch : Json) : Prop :=
  Text ch "type" ∧ (ch.value_string (bytes "type") [] = some (bytes "dns-01") → Text ch "token" ∧ Text ch "url")

/-- An answer is refused by its status, or has the shape that is read. -/
def Readable : Step → AcmeResponse → Prop
  | .order, order => order.status = 201 → order.location ≠ [] → (at_string order.body (bytes "finalize")).isSome = true →
    w.provider = true → order.body.Field Strings (bytes "authorizations")
  | .authz, authz => authz.status = 200 → Text authz.body "status" ∧
    (status_of authz ≠ some (bytes "valid") → authz.body.Field (fun v => ∀ ch ∈ v.elements, Challenge ch) (bytes "challenges"))
  | .poll, poll => Text poll.body "status"
  | .order_poll, poll => Text poll.body "status" ∧ (status_of poll = some (bytes "valid") → Text poll.body "certificate")
  | .certificate, cert_res => cert_res.status = 200 → cert_res.raw ≠ [] ∧ ∀ key, w.cert_key = some key → key.pem ≠ []
  | _, _ => True

/-- The post comes back, also when it is made again after a bad nonce. -/
def Event.Returns : Event Key → Prop
  | .post .account ctx x _ url payload => Sendable C x ctx url payload
  | .post _ ctx x x' url payload => Sendable C x ctx url payload ∧
    ∀ res, (jws_post C x ctx url payload).response = some res → bad_nonce res = true → Sendable C x' ctx url payload
  | _ => True

def Event.Fine : Event Key → Prop
  | .post step ctx x x' url payload => (Event.post step ctx x x' url payload).Returns C ∧
    ∀ res, (Event.post step ctx x x' url payload).response C = some res → Readable w step res
  | _ => True

end

section
variable {Key : Type} {C : Crypto Key} {w : World Key}

theorem acme_post_isSome {x x' : Exchange} {ctx : AcmeCtx Key} {url : Bytes} {payload : Json} :
    (acme_post C x x' ctx url payload).response.isSome = true ↔ Sendable C x ctx url payload ∧
      ∀ res, (jws_post C x ctx url payload).response = some res → bad_nonce res = true → Sendable C x' ctx url payload := by
  rw [← jws_post_isSome, ← jws_post_isSome]
  unfold acme_post
  dsimp only
  cases hfirst : (jws_post C x ctx url payload).response with
  | none => simp [hfirst]
  | some res => cases hbad : bad_nonce res <;> simp [hfirst, hbad]

theorem returns_iff {step : Step} {ctx : AcmeCtx Key} {x x' : Exchange} {url : Bytes} {payload : Json} :
    (Event.post step ctx x x' url payload).Returns C ↔ ((Event.post step ctx x x' url payload).response C).isSome = true := by
  cases step with
  | account => exact jws_post_isSome.symm
  | _ => exact acme_post_isSome.symm

theorem status_isSome {res : AcmeResponse} : (status_of res).isSome = true ↔ Text res.body "status" := Json.value_string_isSome

/-! ## Reading -/

theorem authorizations_isSome {body : Json} :
    (authorizations body).isSome = true ↔ body.Field Strings (bytes "authorizations") := by
  have hstrings (v : Json) : (strings v).isSome = true ↔ Strings v := by
    cases v with
    | arr items => simp [strings, Strings, Json.mapM_isSome, Json.string_isSome]
    | _ => exact iff_of_false Bool.false_ne_true nofun
  rw [Json.field_iff ((hstrings (.arr [])).1 rfl)]
  unfold authorizations
  cases body.value (bytes "authorizations") (.arr []) with
  | none => simp
  | some v => simp [hstrings]

theorem challenge_isSome {body : Json} :
    (challenge body).isSome = true ↔ body.Field (fun v => ∀ ch ∈ v.elements, Challenge ch) (bytes "challenges") := by
  have hread (found : Bytes × Bytes) (ch : Json) : (read_challenge found ch).isSome = true ↔ Challenge ch := by
    unfold read_challenge Challenge Text
    simp only [← @Json.value_string_isSome _ _ []]
    cases ch.value_string (bytes "type") [] with
    | none => simp
    | some type =>
      by_cases htype : type = bytes "dns-01"
      · cases ch.value_string (bytes "token") [] <;> cases ch.value_string (bytes "url") [] <;> simp [htype]
      · simp [htype]
  rw [@Json.field_iff _ body (.arr []) _ (by simp [Json.elements])]
  unfold challenge
  cases body.value (bytes "challenges") (.arr []) with
  | none => simp
  | some v => simp [Json.foldlM_isSome hread]

theorem silent_account (acc : AcmeResponse) : Silent (read_account acc) ↔ ¬ Readable w .account acc := by
  unfold read_account
  refine iff_of_false ?_ (not_not.2 trivial)
  refine not_silent_unless (by simp [bytes_eq_nil]) (not_silent_unless (by simp [bytes_eq_nil]) (not_silent_ok _))

theorem silent_trigger (resp : AcmeResponse) : Silent (read_trigger resp) ↔ ¬ Readable w .trigger resp := by
  unfold read_trigger
  exact iff_of_false (not_silent_unless (by simp [bytes_eq_nil]) (not_silent_ok _)) (not_not.2 trivial)

theorem silent_finalize (fin : AcmeResponse) : Silent (read_finalize fin) ↔ ¬ Readable w .finalize fin := by
  unfold read_finalize
  exact iff_of_false (not_silent_unless (by simp [bytes_eq_nil]) (not_silent_ok _)) (not_not.2 trivial)

theorem silent_order (order : AcmeResponse) : Silent (read_order w.provider order) ↔ ¬ Readable w .order order := by
  simp only [read_order, Readable]
  split
  · rename_i hrefused
    refine iff_of_false (not_silent_fail (by simp [bytes_eq_nil])) (not_not.2 fun hstatus hlocation => ?_)
    simp [hstatus, hlocation] at hrefused
  · rename_i hcreated
    simp only [Bool.or_eq_true, decide_eq_true_eq, not_or, not_not] at hcreated
    cases at_string order.body (bytes "finalize") with
    | none => exact iff_of_false (not_silent_fail (by simp [bytes_eq_nil])) (by simp)
    | some finalize_url =>
      cases w.provider with
      | false => exact iff_of_false (not_silent_fail (by simp [bytes_eq_nil])) (by simp)
      | true => cases hauthz : authorizations order.body <;> simp [← authorizations_isSome, silent_orThrow_map, hcreated, hauthz]

theorem silent_authz (authz : AcmeResponse) : Silent (read_authz authz) ↔ ¬ Readable w .authz authz := by
  simp only [read_authz, Readable]
  split
  · rename_i hrefused
    exact iff_of_false (not_silent_fail (by simp [bytes_eq_nil])) (not_not.2 fun hstatus => absurd hstatus hrefused)
  · rename_i hfetched
    rw [← status_isSome, ← challenge_isSome, not_not.1 hfetched]
    cases hst : status_of authz with
    | none => exact iff_of_true (.inl rfl) (by simp)
    | some st =>
      rw [silent_orThrow]
      by_cases hvalid : st = bytes "valid"
      · simp [hvalid]
      · cases hchallenge : challenge authz.body with
        | none => simp [hvalid, silent_orThrow]
        | some found =>
          simp only [Option.some_inj, forall_eq', hvalid, if_false, silent_orThrow]
          exact iff_of_false (not_silent_unless (by simp [bytes_eq_nil]) (not_silent_ok _)) (by simp)

theorem silent_poll (domain : Bytes) (poll : AcmeResponse) : Silent (read_poll domain poll) ↔ ¬ Readable w .poll poll := by
  simp only [Readable]
  rw [← status_isSome]
  cases hst : status_of poll with
  | none =>
    rw [read_poll_unread domain hst]
    exact iff_of_true (.inl rfl) (by simp)
  | some st =>
    rw [read_poll_status domain hst]
    refine iff_of_false ?_ (by simp)
    split
    · exact not_silent_ok _
    · exact not_silent_unless (by simp [bytes_eq_nil]) (not_silent_ok _)

theorem silent_order_poll (poll : AcmeResponse) : Silent (read_order_poll poll) ↔ ¬ Readable w .order_poll poll := by
  have hcert : Text poll.body "certificate" ↔ (poll.body.value_string (bytes "certificate") []).isSome = true :=
    Json.value_string_isSome.symm
  simp only [read_order_poll, Readable]
  rw [← status_isSome, hcert]
  cases hst : status_of poll with
  | none => exact iff_of_true (.inl rfl) (by simp)
  | some st =>
    rw [silent_orThrow]
    by_cases hvalid : st = bytes "valid"
    · cases poll.body.value_string (bytes "certificate") [] <;> simp [hvalid, silent_orThrow_map]
    · simp only [Option.some_inj, forall_eq', hvalid, if_false]
      exact iff_of_false (not_silent_unless (by simp [bytes_eq_nil]) (not_silent_ok _)) (by simp)

theorem silent_certificate (cert_res : AcmeResponse) : ¬ Silent (read_certificate cert_res) := by
  unfold read_certificate
  exact not_silent_unless (by simp [bytes_eq_nil]) (not_silent_ok _)

/-! ## The parts -/

variable {ctx : AcmeCtx Key} {url : Bytes} {payload : Json}

/-- A post ends silently if it does not come back or if reading it does. -/
theorem blames_post {α : Type} {step : Step} {read : AcmeResponse → Except Exit α}
    (h : ∀ res, Silent (read res) ↔ ¬ Readable w step res) :
    Logged.Blames (fun e => ¬ e.Fine C w) Silent (post C w step ctx url payload read) := by
  refine Logged.blames_call fun hist => ?_
  unfold read_post
  rw [silent_orThrow, Event.Fine, returns_iff]
  cases Event.response C _ with
  | none => exact iff_of_true nofun (by simp)
  | some res => simp [h]

theorem blames_set_txt (zone name value : Bytes) : Logged.Blames (fun e => ¬ e.Fine C w) Silent (set_txt w zone name value) := by
  refine Logged.blames_call fun hist => iff_of_false ?_ (not_not.2 trivial)
  split
  · exact not_silent_ok _
  · exact not_silent_fail (by simp [bytes_eq_nil])

theorem blames_remove_txt (zone name value : Bytes) :
    Logged.Blames (fun e => ¬ e.Fine C w) Silent (remove_txt w zone name value) :=
  Logged.blames_call fun _ => iff_of_false (not_silent_ok _) (not_not.2 trivial)

theorem blames_answer (p : Pending) (zone name txt : Bytes) :
    Logged.Blames (fun e => ¬ e.Fine C w) Silent (answer C w ctx url p zone name txt) := by
  refine (blames_set_txt zone name txt).bind not_silent_ok (fun _ => silent_error) fun _ => ?_
  refine (blames_post silent_trigger).bind not_silent_ok (fun _ => silent_error) fun _ => ?_
  refine ((blames_post (silent_poll p.domain)).tries not_silent_ok 30).bind not_silent_ok (fun _ => silent_error) fun polled => ?_
  cases polled with
  | some u => exact blames_remove_txt zone name txt
  | none => exact Logged.blames_lift (not_silent_fail (by simp [bytes_eq_nil]))

theorem blames_settle (p : Pending) : Logged.Blames (fun e => ¬ e.Fine C w) Silent (settle C w ctx url p) := by
  obtain ⟨thumbprint, hthumbprint⟩ := Option.isSome_iff_exists.1 (@thumbprint_isSome Key C ctx.key)
  unfold settle
  rw [hthumbprint]
  exact (Logged.blames_lift (not_silent_ok thumbprint)).bind not_silent_ok (fun _ => silent_error) fun _ => blames_answer p _ _ _

theorem blames_authorize : Logged.Blames (fun e => ¬ e.Fine C w) Silent (authorize C w ctx url) := by
  refine (blames_post silent_authz).bind not_silent_ok (fun _ => silent_error) fun pending => ?_
  cases pending with
  | none => exact Logged.blames_pure (not_silent_pure _)
  | some p => exact blames_settle p

/-! ## The whole -/

/-- No certificate, and no error that says why. -/
def Unreported (r : Except Exit (Bytes × Bytes)) : Prop :=
  Silent r ∨ ∃ cert_pem key_pem, r = .ok (cert_pem, key_pem) ∧ (cert_pem = [] ∨ key_pem = [])

theorem unreported_error {α : Type} {x : Exit} : Silent (.error x : Except Exit α) ↔ Unreported (.error x) := by
  simp [Unreported, Silent]

theorem not_unreported_fail {message : Bytes} (h : message ≠ []) : ¬ Unreported (fail message) :=
  fun hr => @not_silent_fail Unit message h (unreported_error.2 hr)

/-- The last post. -/
theorem blames_certificate {key : CertKey} (hkey : w.cert_key = some key) :
    Logged.Blames (fun e => ¬ e.Fine C w) Unreported
      (post C w .certificate ctx url payload read_certificate >>= fun cert_pem => pure (cert_pem, key.pem)) := by
  refine Logged.gives_call_bind (fun hist cert_pem hread => Logged.gives_pure ?_) fun hist x hread => ?_
  · obtain ⟨res, hres, hcert⟩ := read_post_ok.1 hread
    obtain ⟨hstatus, rfl⟩ := read_certificate_ok.1 hcert
    simp only [List.mem_singleton, exists_eq_left, Event.Fine, returns_iff, hres, Readable, hkey]
    simp [Unreported, Silent, hstatus]
    tauto
  · simp only [List.mem_singleton, exists_eq_left, Event.Fine, returns_iff]
    rw [← @unreported_error Bytes, ← hread]
    unfold read_post at hread ⊢
    cases hres : Event.response C _ with
    | none => exact iff_of_true (.inl rfl) (by simp)
    | some res =>
      rw [hres] at hread
      have hrefused : res.status ≠ 200 := by
        intro hstatus
        have hok := (read_certificate_ok.2 ⟨hstatus, rfl⟩).symm.trans hread
        cases hok
      refine iff_of_false (silent_certificate res) (by simp [Readable, hrefused])

theorem blames_finish (domains : List Bytes) (order : Order) :
    Logged.Blames (fun e => ¬ e.Fine C w) Unreported (finish C w ctx domains order) := by
  unfold finish
  refine Logged.gives_lift_bind (fun key hkey => ?_) fun x hx => ?_
  · have hcert_key : w.cert_key = some key := by
      cases hw : w.cert_key with
      | none => simp [hw, fail] at hkey
      | some key' =>
        rw [hw] at hkey
        rw [Except.ok.inj hkey]
    have hpolls : Logged.Blames (fun e => ¬ e.Fine C w) Silent
        (Logged.tries (post C w .order_poll ctx order.order_url .null read_order_poll) 60) :=
      (blames_post silent_order_poll).tries not_silent_ok 60
    refine (blames_post silent_finalize).bind not_silent_ok (fun _ => unreported_error) fun _ => ?_
    refine hpolls.bind not_silent_ok (fun _ => unreported_error) fun polled => ?_
    match polled with
    | none | some [] => exact Logged.blames_lift (not_unreported_fail (by simp [bytes_eq_nil]))
    | some (c :: cert_url) => exact blames_certificate hcert_key
  · refine iff_of_false ?_ (by simp)
    cases hw : w.cert_key with
    | none =>
      rw [hw] at hx
      obtain rfl := Except.error.inj hx
      exact not_unreported_fail (by simp [bytes_eq_nil])
    | some key => simp [hw] at hx

theorem blames_place (key : Key) (dir : Directory) (domains : List Bytes) :
    Logged.Blames (fun e => ¬ e.Fine C w) Unreported (place C w key dir domains) := by
  refine (blames_post silent_account).bind not_silent_ok (fun _ => unreported_error) fun kid => ?_
  refine (blames_post silent_order).bind not_silent_ok (fun _ => unreported_error) fun order => ?_
  refine (Logged.blames_each (fun _ => blames_authorize) (not_silent_ok _) order.authorizations).bind (fun _ => not_silent_ok _)
    (fun _ => unreported_error) fun _ => ?_
  exact blames_finish domains order

end

/-! ## What is returned -/

/-- A result comes back: a certificate with its key, or an error with its message. -/
def Reports (r : Option (AcmeResult × Bytes)) : Prop :=
  ∃ res error_out, r = some (res, error_out) ∧
    (res.ok = true ∧ res.cert_pem ≠ [] ∧ res.key_pem ≠ [] ∨ res.ok = false ∧ error_out ≠ [])

theorem reports_returned (r : Except Exit (Bytes × Bytes)) : Reports (returned r) ↔ ¬ Unreported r := by
  cases r with
  | ok pems =>
    obtain ⟨cert_pem, key_pem⟩ := pems
    simp [Reports, returned, Unreported, Silent]
  | error x =>
    rw [← @unreported_error Unit]
    cases x <;> simp [Reports, returned, Silent]

/-- An issuance returns a certificate or an error that is set exactly if every post of
the run can be sent and every answer is refused or has the shape that is read. -/
theorem reports_iff {Key : Type} (C : Crypto Key) (w : World Key) (staging : Bool) (primary : Bytes) (sans : List Bytes) :
    Reports (acme_issue_cert C w staging primary sans).1 ↔ ∀ e ∈ (acme_issue_cert C w staging primary sans).2, e.Fine C w := by
  have hblames : Logged.Blames (fun e => ¬ e.Fine C w) Unreported (issue C w staging primary sans) := by
    refine gives_issue (fun message hmessage => ?_) fun key dir => blames_place key dir (primary :: sans)
    exact iff_of_false (not_unreported_fail hmessage) (by simp)
  refine (reports_returned _).trans ((not_congr (hblames [])).trans ?_)
  simp [acme_issue_cert]

/-! ## A connection that is lost -/

/-- The challenge is taken, and the first poll times out. -/
def lost_poll : List (Except Bytes AcmeAnswer) := [.ok ⟨200, [], none, none⟩, .error (bytes "timeout")]

/-- An exception leaves the issuance. -/
theorem lost_poll_throws : (toyRun lost_poll).1 = none ∧
    ¬ ∀ (Key : Type) (C : Crypto Key) (w : World Key) staging primary sans, Reports (acme_issue_cert C w staging primary sans).1 := by
  have hthrown : (toyRun lost_poll).1 = none := by decide +kernel
  refine ⟨hthrown, fun h => ?_⟩
  obtain ⟨res, error_out, hreturned, -⟩ := h _ toyCrypto (toyWorld lost_poll) false (bytes "a.io") []
  exact nomatch hthrown.symm.trans hreturned

end Issue

end Hostely.Exposure
