import Hostely.Exposure.Acme
import Hostely.Exposure.Dns
import Hostely.Exposure.Router
import Hostely.Lib.Fallible
import Hostely.Lib.Logged
/-!
# acme_issue_cert

The whole of an issuance: account, order, a challenge for each authorization, the
request for the certificate, and the certificate. What it asks the server and the DNS
provider is a log of events, each with what came back, and what they answer may depend
on all events before. It ends in a certificate, in an error, or in an exception.
-/

open Hostely.Lib

namespace Hostely.Exposure.Issue

/-! ## Events -/

/-- What a post is for. -/
inductive Step where
  | account
  | order
  | authz
  | trigger
  | poll
  | finalize
  | order_poll
  | certificate
deriving DecidableEq, Repr

/-- A post with the exchanges of it and of a retry, or a call of the DNS provider with
what it returned. -/
inductive Event (Key : Type) where
  | post (step : Step) (ctx : AcmeCtx Key) (x x' : Exchange) (url : Bytes) (payload : Json)
  | set_txt (zone name value : Bytes) (ok : Bool)
  | remove_txt (zone name value : Bytes) (ok : Bool)

inductive Exit where
  /-- A return with `error_out` set. -/
  | failed (error_out : Bytes)
  /-- An exception. -/
  | thrown
deriving DecidableEq, Repr

/-- The key of the certificate: the DER request it signs for some domains, and its PEM. -/
structure CertKey where
  csr : List Bytes → Bytes
  pem : Bytes

/-- What an issuance meets. -/
structure World (Key : Type) where
  /-- `HOSTELY_ACME_DIR_URL` -/
  env : Option Bytes
  account_key : Option Key
  directory : Bytes → Dns.HttpResult
  /-- Whether there is a DNS provider. -/
  provider : Bool
  exchange : List (Event Key) → Exchange × Exchange
  set_txt : List (Event Key) → Bytes → Bytes → Bytes → Bool
  remove_txt : List (Event Key) → Bytes → Bytes → Bytes → Bool
  cert_key : Option CertKey

def fail {α : Type} (message : Bytes) : Except Exit α := .error (.failed message)

/-- `none` is an exception. -/
def orThrow {α : Type} : Option α → Except Exit α
  | some a => .ok a
  | none => .error .thrown

section
variable {Key : Type} (C : Crypto Key)

def Event.response : Event Key → Option AcmeResponse
  -- the account is posted without a retry
  | .post .account ctx x _ url payload => (jws_post C x ctx url payload).response
  | .post _ ctx x x' url payload => (acme_post C x x' ctx url payload).response
  | _ => none

def read_post {α : Type} (read : AcmeResponse → Except Exit α) (e : Event Key) : Except Exit α := do
  read (← orThrow (e.response C))

/-- A post and what is read of the response. -/
def post {α : Type} (w : World Key) (step : Step) (ctx : AcmeCtx Key) (url : Bytes) (payload : Json)
    (read : AcmeResponse → Except Exit α) : Logged (Event Key) Exit α :=
  Logged.call (fun h => .post step ctx (w.exchange h).1 (w.exchange h).2 url payload) (read_post C read)

end

/-! ## The directory -/

structure Directory where
  new_nonce : Bytes
  new_account : Bytes
  new_order : Bytes
deriving DecidableEq, Repr

def directory_url (env : Option Bytes) (staging : Bool) : Bytes :=
  match env with
  | some url => if url ≠ [] then url else dflt
  | none => dflt
where
  dflt := if staging then bytes "https://acme-staging-v02.api.letsencrypt.org/directory"
    else bytes "https://acme-v02.api.letsencrypt.org/directory"

/-- `j.at(key)` as a string. -/
def at_string (j : Json) (key : Bytes) : Option Bytes := (j.get? key).bind Json.string

/-- Nothing for a payload that is not as it should be. -/
def get_directory (res : Dns.HttpResult) : Option Directory :=
  if !res.ok then none
  else do
    let j ← res.json
    return ⟨← at_string j (bytes "newNonce"), ← at_string j (bytes "newAccount"), ← at_string j (bytes "newOrder")⟩

/-! ## What is read of the responses -/

def read_account (acc : AcmeResponse) : Except Exit Bytes :=
  if acc.status ≠ 200 && acc.status ≠ 201 then
    fail (bytes "account registration failed: HTTP " ++ to_string acc.status ++ bytes " " ++ acc.raw.take 400)
  else if acc.location = [] then fail (bytes "account created but no Location/KID returned")
  else .ok acc.location

structure Order where
  order_url : Bytes
  finalize_url : Bytes
  authorizations : List Bytes
deriving DecidableEq, Repr

/-- `get<std::vector<std::string>>()` -/
def strings : Json → Option (List Bytes)
  | .arr items => items.mapM Json.string
  | _ => none

def authorizations (body : Json) : Option (List Bytes) := (body.value (bytes "authorizations") (.arr [])).bind strings

def read_order (provider : Bool) (order : AcmeResponse) : Except Exit Order :=
  if order.status ≠ 201 || order.location = [] then
    fail (bytes "newOrder failed: HTTP " ++ to_string order.status ++ bytes " " ++ order.raw.take 400)
  else match at_string order.body (bytes "finalize") with
    | none => fail (bytes "newOrder response missing finalize URL")
    | some finalize_url =>
      if !provider then fail (bytes "no DNS provider configured (set HOSTELY_CF_API_TOKEN)")
      else do return ⟨order.location, finalize_url, ← orThrow (authorizations order.body)⟩

/-- An authorization that is not valid yet. -/
structure Pending where
  domain : Bytes
  token : Bytes
  challenge_url : Bytes
deriving DecidableEq, Repr

/-- Token and URL of the last challenge of the type; `none` when reading throws. -/
def read_challenge (found : Bytes × Bytes) (ch : Json) : Option (Bytes × Bytes) := do
  if (← ch.value_string (bytes "type") []) = bytes "dns-01" then
    return (← ch.value_string (bytes "token") [], ← ch.value_string (bytes "url") [])
  else return found

def challenge (body : Json) : Option (Bytes × Bytes) := do
  (← body.value (bytes "challenges") (.arr [])).elements.foldlM read_challenge ([], [])

def status_of (res : AcmeResponse) : Option Bytes := res.body.value_string (bytes "status") []

/-- Nothing when the authorization is valid. -/
def read_authz (authz : AcmeResponse) : Except Exit (Option Pending) :=
  if authz.status ≠ 200 then fail (bytes "authorization fetch failed: HTTP " ++ to_string authz.status)
  else do
    let domain := ((authz.body.get? (bytes "identifier")).bind fun identifier => at_string identifier (bytes "value")).getD []
    if (← orThrow (status_of authz)) = bytes "valid" then return none
    else
      let (token, challenge_url) ← orThrow (challenge authz.body)
      if token = [] then fail (bytes "no dns-01 challenge offered for " ++ domain)
      else return some ⟨domain, token, challenge_url⟩

def read_trigger (resp : AcmeResponse) : Except Exit Unit :=
  if resp.status < 200 || 300 ≤ resp.status then
    fail (bytes "challenge trigger failed: HTTP " ++ to_string resp.status ++ bytes " " ++ resp.raw.take 400)
  else .ok ()

/-- Nothing while the status is another. -/
def read_poll (domain : Bytes) (poll : AcmeResponse) : Except Exit (Option Unit) := do
  let st ← orThrow (status_of poll)
  if st = bytes "valid" then return some ()
  else if st = bytes "invalid" then fail (bytes "authorization invalid for " ++ domain ++ bytes ": " ++ poll.raw.take 500)
  else return none

def read_finalize (fin : AcmeResponse) : Except Exit Unit :=
  if fin.status < 200 || 300 ≤ fin.status then
    fail (bytes "finalize failed: HTTP " ++ to_string fin.status ++ bytes " " ++ fin.raw.take 400)
  else .ok ()

def read_order_poll (poll : AcmeResponse) : Except Exit (Option Bytes) := do
  let st ← orThrow (status_of poll)
  if st = bytes "valid" then return some (← orThrow (poll.body.value_string (bytes "certificate") []))
  else if st = bytes "invalid" then fail (bytes "order invalid: " ++ poll.raw.take 500)
  else return none

def read_certificate (cert_res : AcmeResponse) : Except Exit Bytes :=
  if cert_res.status ≠ 200 then fail (bytes "certificate download failed: HTTP " ++ to_string cert_res.status)
  else .ok cert_res.raw

/-! ## The payloads -/

def acc_payload : Json := .obj [(bytes "termsOfServiceAgreed", .bool true)]

def order_payload (domains : List Bytes) : Json :=
  .obj [(bytes "identifiers", .arr (domains.map fun d => .obj [(bytes "type", .str (bytes "dns")), (bytes "value", .str d)]))]

def csr_payload (der : Bytes) : Json := .obj [(bytes "csr", .str (b64url der))]

/-! ## An authorization -/

section
variable {Key : Type} (C : Crypto Key) (w : World Key) (ctx : AcmeCtx Key)

/-- The zone is that of the last two labels, as in `router_watch`. -/
def challenge_zone (domain : Bytes) : Bytes := watch_zone domain []

def challenge_name (domain : Bytes) : Bytes :=
  let name := bytes "_acme-challenge." ++ domain
  if name = bytes "_acme-challenge." ++ challenge_zone domain then bytes "_acme-challenge" else name

def set_txt (zone name value : Bytes) : Logged (Event Key) Exit Unit :=
  Logged.call (fun h => .set_txt zone name value (w.set_txt h zone name value)) fun
    | .set_txt _ _ _ true => .ok ()
    | _ => fail (bytes "DNS set failed for " ++ name)

/-- What it returns makes no difference. -/
def remove_txt (zone name value : Bytes) : Logged (Event Key) Exit Unit :=
  Logged.call (fun h => .remove_txt zone name value (w.remove_txt h zone name value)) fun _ => .ok ()

/-- From the record to the valid authorization. Whether it is seen in between only
decides what is printed. -/
def answer (authz_url : Bytes) (p : Pending) (zone name txt : Bytes) : Logged (Event Key) Exit Unit := do
  set_txt w zone name txt
  post C w .trigger ctx p.challenge_url .null read_trigger
  match ← Logged.tries (post C w .poll ctx authz_url .null (read_poll p.domain)) 30 with
  | some () => remove_txt w zone name txt
  | none => Logged.lift (fail (bytes "authorization timeout for " ++ p.domain))

def settle (authz_url : Bytes) (p : Pending) : Logged (Event Key) Exit Unit := do
  let thumbprint ← Logged.lift (orThrow (thumbprint_b64url C ctx.key))
  let txt := sha256_b64url C (p.token ++ bytes "." ++ thumbprint)
  answer C w ctx authz_url p (challenge_zone p.domain) (challenge_name p.domain) txt

/-- One round of the loop. -/
def authorize (authz_url : Bytes) : Logged (Event Key) Exit Unit := do
  match ← post C w .authz ctx authz_url .null read_authz with
  | none => pure ()
  | some p => settle C w ctx authz_url p

/-! ## The issuance -/

/-- The order is finalized and the certificate fetched, when the authorizations are
valid. -/
def finish (domains : List Bytes) (order : Order) : Logged (Event Key) Exit (Bytes × Bytes) := do
  let cert_key ← Logged.lift (match w.cert_key with
    | some key => .ok key
    | none => fail (bytes "cannot generate cert key"))
  post C w .finalize ctx order.finalize_url (csr_payload (cert_key.csr domains)) read_finalize
  match ← Logged.tries (post C w .order_poll ctx order.order_url .null read_order_poll) 60 with
  | some (c :: cert_url) =>
    let cert_pem ← post C w .certificate ctx (c :: cert_url) .null read_certificate
    pure (cert_pem, cert_key.pem)
  | _ => Logged.lift (fail (bytes "order never became valid"))

/-- What is done with a session. -/
def place (key : Key) (dir : Directory) (domains : List Bytes) : Logged (Event Key) Exit (Bytes × Bytes) := do
  let kid ← post C w .account ⟨dir.new_nonce, key, []⟩ dir.new_account acc_payload read_account
  let ctx : AcmeCtx Key := ⟨dir.new_nonce, key, kid⟩
  let order ← post C w .order ctx dir.new_order (order_payload domains) (read_order w.provider)
  Logged.each (authorize C w ctx) order.authorizations
  finish C w ctx domains order

/-- The domains are not none: the first is the one the certificate is named after. -/
def issue (staging : Bool) (primary : Bytes) (sans : List Bytes) : Logged (Event Key) Exit (Bytes × Bytes) :=
  match w.account_key with
  | none => Logged.lift (fail (bytes "cannot load/create ACME account key"))
  | some key =>
    match get_directory (w.directory (directory_url w.env staging)) with
    | none => Logged.lift (fail (bytes "cannot fetch ACME directory"))
    | some dir => place C w key dir (primary :: sans)

structure AcmeResult where
  ok : Bool
  cert_pem : Bytes
  key_pem : Bytes
deriving DecidableEq, Repr

/-- The result and `error_out`. -/
def returned : Except Exit (Bytes × Bytes) → Option (AcmeResult × Bytes)
  | .ok (cert_pem, key_pem) => some (⟨cert_pem ≠ [] && key_pem ≠ [], cert_pem, key_pem⟩, [])
  | .error (.failed message) => some (⟨false, [], []⟩, message)
  | .error .thrown => none

/-- What is returned, nothing when an exception leaves it, and the events of the run. -/
def acme_issue_cert (staging : Bool) (primary : Bytes) (sans : List Bytes) : Option (AcmeResult × Bytes) × List (Event Key) :=
  (returned (issue C w staging primary sans []).1, (issue C w staging primary sans []).2)

end

/-! ## What was read -/

section
variable {Key : Type} (C : Crypto Key)

/-- A status was read. -/
def Says (st : Bytes) (e : Event Key) : Prop := ∃ res, e.response C = some res ∧ status_of res = some st

/-- Another poll comes. -/
def Waits (e : Event Key) : Prop := ∃ st, Says C st e ∧ st ≠ bytes "valid" ∧ st ≠ bytes "invalid"

variable {C} {e : Event Key}

theorem orThrow_ok {α : Type} {o : Option α} {a : α} (h : orThrow o = .ok a) : o = some a := by
  cases o with
  | none => cases h
  | some b => rw [Except.ok.inj h]

theorem read_post_ok {α : Type} {read : AcmeResponse → Except Exit α} {a : α} :
    read_post C read e = .ok a ↔ ∃ res, e.response C = some res ∧ read res = .ok a := by
  unfold read_post
  cases e.response C with
  | none => exact iff_of_false nofun nofun
  | some res => simp [orThrow, bind, Except.bind]

theorem read_certificate_ok {res : AcmeResponse} {cert_pem : Bytes} :
    read_certificate res = .ok cert_pem ↔ res.status = 200 ∧ res.raw = cert_pem := by
  unfold read_certificate
  split
  · rename_i hstatus
    exact iff_of_false nofun fun h => hstatus h.1
  · rename_i hstatus
    simp [not_not.1 hstatus]

/-- A poll ends with the status. -/
theorem read_poll_status (domain : Bytes) {res : AcmeResponse} {st : Bytes} (hst : status_of res = some st) :
    read_poll domain res = if st = bytes "valid" then .ok (some ()) else if st = bytes "invalid" then
      fail (bytes "authorization invalid for " ++ domain ++ bytes ": " ++ res.raw.take 500) else .ok none := by
  unfold read_poll
  rw [hst]
  rfl

theorem read_poll_unread (domain : Bytes) {res : AcmeResponse} (hst : status_of res = none) :
    read_poll domain res = .error .thrown := by
  unfold read_poll
  rw [hst]
  rfl

theorem read_poll_valid {domain : Bytes} {res : AcmeResponse} :
    read_poll domain res = .ok (some ()) ↔ status_of res = some (bytes "valid") := by
  cases hst : status_of res with
  | none =>
    rw [read_poll_unread domain hst]
    exact iff_of_false nofun nofun
  | some st =>
    rw [read_poll_status domain hst, Option.some_inj]
    split
    · rename_i hvalid
      exact iff_of_true rfl hvalid
    · rename_i hvalid
      refine iff_of_false ?_ hvalid
      split <;> nofun

theorem read_poll_waits {domain : Bytes} {res : AcmeResponse} :
    read_poll domain res = .ok none ↔ ∃ st, status_of res = some st ∧ st ≠ bytes "valid" ∧ st ≠ bytes "invalid" := by
  cases hst : status_of res with
  | none =>
    rw [read_poll_unread domain hst]
    exact iff_of_false nofun nofun
  | some st =>
    rw [read_poll_status domain hst]
    simp only [Option.some_inj, exists_eq_left']
    split
    · rename_i hvalid
      exact iff_of_false nofun fun h => h.1 hvalid
    · rename_i hvalid
      split
      · rename_i hinvalid
        exact iff_of_false nofun fun h => h.2 hinvalid
      · rename_i hinvalid
        exact iff_of_true rfl ⟨hvalid, hinvalid⟩

/-- The same of an event. -/
theorem poll_valid {domain : Bytes} : read_post C (read_poll domain) e = .ok (some ()) ↔ Says C (bytes "valid") e := by
  simp only [read_post_ok, read_poll_valid, Says]

theorem poll_waits {domain : Bytes} : read_post C (read_poll domain) e = .ok none ↔ Waits C e := by
  simp only [read_post_ok, read_poll_waits, Waits, Says]
  exact ⟨fun ⟨res, hres, st, hst, h⟩ => ⟨st, ⟨res, hres, hst⟩, h⟩, fun ⟨st, ⟨res, hres, hst⟩, h⟩ => ⟨res, hres, st, hst, h⟩⟩

theorem Waits.not_valid (h : Waits C e) : ¬ Says C (bytes "valid") e := by
  obtain ⟨st, ⟨res, hres, hst⟩, hne, -⟩ := h
  rintro ⟨res', hres', hvalid⟩
  obtain rfl := Option.some.inj (hres.symm.trans hres')
  exact hne (Option.some.inj (hst.symm.trans hvalid))

/-- Without a key or a directory the issuance fails before its first call. -/
theorem gives_issue {w : World Key} {staging : Bool} {primary : Bytes} {sans : List Bytes}
    {R : Except Exit (Bytes × Bytes) → List (Event Key) → Prop} (hfail : ∀ message, message ≠ [] → R (fail message) [])
    (hplace : ∀ key dir, Logged.Gives (place C w key dir (primary :: sans)) R) :
    Logged.Gives (issue C w staging primary sans) R := by
  unfold issue
  cases w.account_key with
  | none => exact Logged.gives_lift (hfail _ (by simp [bytes_eq_nil]))
  | some key =>
    cases get_directory (w.directory (directory_url w.env staging)) with
    | none => exact Logged.gives_lift (hfail _ (by simp [bytes_eq_nil]))
    | some dir => exact hplace key dir

end

/-! ## A server -/

def toy_directory : Dns.HttpResult := ⟨200, some (.obj [
  (bytes "newAccount", .str (bytes "https://ca/new-acct")),
  (bytes "newNonce", .str (bytes "https://ca/nonce")),
  (bytes "newOrder", .str (bytes "https://ca/new-order"))])⟩

def toy_order : Json := .obj [
  (bytes "authorizations", .arr [.str (bytes "https://ca/authz/1")]),
  (bytes "finalize", .str (bytes "https://ca/finalize/1"))]

def toy_authz : Json := .obj [
  (bytes "challenges", .arr [.obj [
    (bytes "token", .str (bytes "t")), (bytes "type", .str (bytes "dns-01")), (bytes "url", .str (bytes "https://ca/chall/1"))]]),
  (bytes "identifier", .obj [(bytes "value", .str (bytes "a.io"))]),
  (bytes "status", .str (bytes "pending"))]

def toy_status (st : Bytes) : Json := .obj [(bytes "certificate", .str (bytes "https://ca/cert/1")), (bytes "status", .str st)]

/-- An order with one authorization. The answers from the challenge on are given, and
the event before it is that the record is set. -/
def toy_answers (later : List (Except Bytes AcmeAnswer)) : List (Except Bytes AcmeAnswer) := [
  .ok ⟨201, [], none, some (bytes "https://ca/acct/1")⟩,
  .ok ⟨201, [], some toy_order, some (bytes "https://ca/order/1")⟩,
  .ok ⟨200, [], some toy_authz, none⟩,
  .error []] ++ later

def toyWorld (later : List (Except Bytes AcmeAnswer)) : World Unit where
  env := none
  account_key := some ()
  directory _ := toy_directory
  provider := true
  exchange h :=
    let x : Exchange := ⟨fun _ _ => some (200, some (bytes "n1")),
      fun _ _ _ => (toy_answers later).getD h.length (.error (bytes "timeout"))⟩
    (x, x)
  set_txt _ _ _ _ := true
  remove_txt _ _ _ _ := true
  cert_key := some ⟨fun _ => bytes "der", bytes "key"⟩

/-- A run for the domain `a.io`. -/
def toyRun (later : List (Except Bytes AcmeAnswer)) : Option (AcmeResult × Bytes) × List (Event Unit) :=
  acme_issue_cert toyCrypto (toyWorld later) false (bytes "a.io") []

end Hostely.Exposure.Issue
