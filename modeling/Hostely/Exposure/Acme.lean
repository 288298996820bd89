import Hostely.Lib.Base64url
import Hostely.Lib.Json
import Hostely.Lib.Substring
/-!
# The ACME client's signatures

`b64url` as the client writes it, and `jws_post` up to the object it sends. The
loop fills a last group that is not full with `-`, which is a character of the
alphabet and not padding.
-/

open Hostely.Lib

namespace Hostely.Exposure

/-! ## b64url -/

def tbl : Bytes := bytes "ABCDEFGHIJKLMNOPQRSTUVWXYZabcdefghijklmnopqrstuvwxyz0123456789-_"

theorem alphabet_eq : tbl = Base64url.alphabet := rfl

/-- One round of the loop, on the bytes from `i` on. -/
def b64url_round (a : UInt8) (b c : Option UInt8) : Bytes :=
  let n := a.toNat <<< 16
  let n := match b with
    | some b => n ||| b.toNat <<< 8
    | none => n
  let n := match c with
    | some c => n ||| c.toNat
    | none => n
  -- 45 is the character `-`, which is also that of 62
  [tbl.getD (n >>> 18 &&& 63) 0, tbl.getD (n >>> 12 &&& 63) 0,
    if b.isSome then tbl.getD (n >>> 6 &&& 63) 0 else 45,
    if c.isSome then tbl.getD (n &&& 63) 0 else 45]

def b64url : Bytes → Bytes
  | [] => []
  | [a] => b64url_round a none none
  | [a, b] => b64url_round a (some b) none
  | a :: b :: c :: rest => b64url_round a (some b) (some c) ++ b64url rest

/-- `b64url_str`, on the bytes of a string. -/
def b64url_str (s : Bytes) : Bytes := b64url s

theorem b64url_length (d : Bytes) : (b64url d).length = 4 * ((d.length + 2) / 3) := by
  fun_induction b64url d with
  | case1 => rfl
  | case2 a => simp [b64url_round]
  | case3 a b => simp [b64url_round]
  | case4 a b c rest ih =>
    rw [List.length_append, ih]
    simp only [b64url_round, List.length_cons, List.length_nil]
    omega

/-- The bytes side by side. -/
theorem or_bytes (a b c : UInt8) :
    a.toNat <<< 16 ||| b.toNat <<< 8 ||| c.toNat = a.toNat * 65536 + b.toNat * 256 + c.toNat := by
  have hb : b.toNat <<< 8 < 2 ^ 16 := by
    have := b.toNat_lt
    rw [Nat.shiftLeft_eq]
    omega
  have hjoin : a.toNat <<< 16 + b.toNat <<< 8 = (a.toNat * 256 + b.toNat) <<< 8 := by
    simp only [Nat.shiftLeft_eq]
    omega
  rw [← Nat.shiftLeft_add_eq_or_of_lt hb, hjoin, ← Nat.shiftLeft_add_eq_or_of_lt c.toNat_lt, Nat.shiftLeft_eq]
  omega

/-- Six bits of a number. -/
theorem six_bits (n : Nat) : n &&& 63 = n % 64 := Nat.and_two_pow_sub_one_eq_mod n 6

/-- A full group is coded right. -/
theorem b64url_round_full (a b c : UInt8) : b64url_round a (some b) (some c) =
    [Base64url.first a, Base64url.second a b, Base64url.third b c, Base64url.fourth c] := by
  have ha := a.toNat_lt
  have hb := b.toNat_lt
  have hc := c.toNat_lt
  have hfirst : (a.toNat * 65536 + b.toNat * 256 + c.toNat) / 2 ^ 18 % 64 = a.toNat / 4 := by omega
  have hsecond : (a.toNat * 65536 + b.toNat * 256 + c.toNat) / 2 ^ 12 % 64 = a.toNat % 4 * 16 + b.toNat / 16 := by omega
  have hthird : (a.toNat * 65536 + b.toNat * 256 + c.toNat) / 2 ^ 6 % 64 = b.toNat % 16 * 4 + c.toNat / 64 := by omega
  have hfourth : (a.toNat * 65536 + b.toNat * 256 + c.toNat) % 64 = c.toNat % 64 := by omega
  simp only [b64url_round, or_bytes, six_bits, Nat.shiftRight_eq_div_pow, hfirst, hsecond, hthird, hfourth,
    Option.isSome_some, if_true, alphabet_eq]
  rfl

/-- On full groups the loop is base64url. -/
theorem b64url_eq_encode {d : Bytes} (h : 3 ∣ d.length) : b64url d = Base64url.encode d := by
  fun_induction b64url d with
  | case1 => rfl
  | case2 a => simp at h
  | case3 a b => simp at h
  | case4 a b c rest ih =>
    have hrest : 3 ∣ rest.length := by
      simp only [List.length_cons] at h
      omega
    rw [b64url_round_full, ih hrest]
    rfl

/-- `b64url` is base64url without padding, and can be decoded, exactly on whole
groups of three bytes. -/
theorem b64url_unpadded_iff (d : Bytes) :
    (b64url d = Base64url.encode d ↔ 3 ∣ d.length) ∧ (Base64url.decode (b64url d) = some d ↔ 3 ∣ d.length) := by
  constructor
  · refine ⟨fun h => ?_, b64url_eq_encode⟩
    -- the lengths differ when the last group is not full
    have hlength := congrArg List.length h
    rw [b64url_length, Base64url.encode_length] at hlength
    omega
  · refine ⟨fun h => ?_, fun h => by rw [b64url_eq_encode h, Base64url.decode_encode]⟩
    have hlength := Base64url.decode_length h
    rw [b64url_length] at hlength
    omega

/-- One byte, and a digest. -/
theorem b64url_pads : (¬ ∀ d : Bytes, b64url d = Base64url.encode d) ∧
    (¬ ∀ d : Bytes, Base64url.decode (b64url d) = some d) ∧ ¬ Function.Injective b64url ∧
    ¬ ∀ d : Bytes, d.length = 32 → (b64url d).length = 43 := by
  refine ⟨fun h => ?_, fun h => ?_, fun h => ?_, fun h => ?_⟩
  · exact absurd (h [0]) (by decide)
  · exact absurd (h [0]) (by decide +kernel)
  · exact absurd (h (show b64url [0] = b64url [0, 15, 190] by decide)) (by decide)
  · exact absurd (h (List.replicate 32 0) (by simp)) (by decide)

/-! ## Signing -/

/-- What the client takes from OpenSSL, and the verifier at the other end. -/
structure Crypto (Key : Type) where
  SHA256 : Bytes → Bytes
  sha256_length : ∀ s, (SHA256 s).length = 32
  /-- The public point of a key, uncompressed. -/
  point : Key → Bytes
  /-- `EVP_DigestSign` with `EVP_sha256`, and the r and s that `d2i_ECDSA_SIG`
  reads from its result. -/
  digest_sign : Key → Bytes → Option (Nat × Nat)
  /-- ES256 of a string and the octets of a signature. -/
  verify : Key → Bytes → Bytes → Bool
  /-- The octets are those of r and s, 32 each. -/
  verify_length : ∀ key m sig, verify key m sig = true → sig.length = 64

def sha256_b64url {Key : Type} (C : Crypto Key) (s : Bytes) : Bytes := b64url (C.SHA256 s)

/-- `BN_bn2binpad` to 32 bytes. -/
def bn2binpad (n : Nat) : Bytes := (List.range 32).map fun i => UInt8.ofNat (n >>> (8 * (31 - i)))

def raw_signature (r s : Nat) : Bytes := bn2binpad r ++ bn2binpad s

theorem raw_signature_length (r s : Nat) : (raw_signature r s).length = 64 := by simp [raw_signature, bn2binpad]

structure AcmeCtx (Key : Type) where
  new_nonce : Bytes
  key : Key
  /-- The account URL once registered. -/
  kid : Bytes

/-- The object of a post. -/
structure Jws where
  protected_ : Bytes
  payload : Bytes
  signature : Bytes
deriving DecidableEq, Repr

def Jws.json (flat : Jws) : Json := .obj [
  (bytes "payload", .str flat.payload),
  (bytes "protected", .str flat.protected_),
  (bytes "signature", .str flat.signature)]

def Jws.signing_input (flat : Jws) : Bytes := flat.protected_ ++ bytes "." ++ flat.payload

section
variable {Key : Type} (C : Crypto Key)

def jwk (key : Key) : Json := .obj [
  (bytes "crv", .str (bytes "P-256")),
  (bytes "kty", .str (bytes "EC")),
  (bytes "x", .str (b64url (((C.point key).drop 1).take 32))),
  (bytes "y", .str (b64url (((C.point key).drop 33).take 32)))]

/-- `none` when `dump` throws. -/
def thumbprint_b64url (key : Key) : Option Bytes := (jwk C key).dump.map (sha256_b64url C)

def jws_header (ctx : AcmeCtx Key) (url nonce : Bytes) : Json := .obj [
  (bytes "alg", .str (bytes "ES256")),
  if ctx.kid ≠ [] then (bytes "kid", .str ctx.kid) else (bytes "jwk", jwk C ctx.key),
  (bytes "nonce", .str nonce),
  (bytes "url", .str url)]

/-- A payload that is null is a POST-as-GET. -/
def payload_str : Json → Option Bytes
  | .null => some []
  | payload => payload.dump

def unsigned_jws (ctx : AcmeCtx Key) (url nonce : Bytes) (payload : Json) : Option Jws := do
  let header ← (jws_header C ctx url nonce).dump
  let payload ← payload_str payload
  return ⟨b64url_str header, b64url_str payload, []⟩

/-- Signs the digest of the signing input; `none` when signing fails. -/
def sign_jws (key : Key) (flat : Jws) : Option Jws := do
  -- `digest_sign` hashes what it is given once more
  let (r, s) ← C.digest_sign key (C.SHA256 flat.signing_input)
  return { flat with signature := b64url (raw_signature r s) }

/-! ## Posting -/

/-- Host and path; `none` when `substr` throws. -/
def split_url (url : Bytes) : Option (Bytes × Bytes) :=
  let rest := url.drop 8
  if url.length < 8 ∨ 47 ∉ rest then none else some (rest.takeWhile (· ≠ 47), rest.dropWhile (· ≠ 47))

structure AcmeAnswer where
  status : Int
  body : Bytes
  /-- What parsing the body gives. -/
  json : Option Json
  location : Option Bytes

/-- The other end, during one `jws_post`. -/
structure Exchange where
  /-- Status and `Replay-Nonce`. -/
  get : Bytes → Bytes → Option (Int × Option Bytes)
  post : Bytes → Bytes → Bytes → Except Bytes AcmeAnswer

structure AcmeResponse where
  status : Int
  body : Json
  raw : Bytes
  location : Bytes

/-- The objects posted, and the response; `none` when an exception escapes. -/
structure Posted where
  sent : List Jws
  response : Option AcmeResponse

def AcmeResponse.failed (raw : Bytes) : AcmeResponse := ⟨-1, .null, raw, []⟩

def fresh_nonce : Option (Int × Option Bytes) → Bytes
  | some (200, some nonce) => nonce
  | _ => []

def read_answer : Except Bytes AcmeAnswer → AcmeResponse
  | .error message => .failed message
  | .ok r => ⟨r.status, r.json.getD .null, r.body, r.location.getD []⟩

def post_jws (x : Exchange) (url : Bytes) (flat : Jws) : Posted :=
  match split_url url, flat.json.dump with
  | some (host, path), some body => ⟨[flat], some (read_answer (x.post host path body))⟩
  | _, _ => ⟨[], none⟩

def jws_post (x : Exchange) (ctx : AcmeCtx Key) (url : Bytes) (payload : Json) : Posted :=
  match split_url ctx.new_nonce with
  | none => ⟨[], none⟩
  | some (host, path) =>
    let nonce := fresh_nonce (x.get host path)
    if nonce = [] then ⟨[], some (.failed (bytes "cannot obtain ACME nonce"))⟩
    else
      match unsigned_jws C ctx url nonce payload with
      | none => ⟨[], none⟩
      | some flat =>
        match sign_jws C ctx.key flat with
        | none => ⟨[], some (.failed (bytes "signing failed"))⟩
        | some flat => post_jws x url flat

/-- The error is of the type that a retry may help. -/
def bad_nonce (res : AcmeResponse) : Bool :=
  (res.status = 400 ∨ res.status = 403) &&
    ((res.body.value_string (bytes "type") []).any fun type => (findSub? (bytes "badNonce") type).isSome)

/-- The second exchange is the retry's. -/
def acme_post (x x' : Exchange) (ctx : AcmeCtx Key) (url : Bytes) (payload : Json) : Posted :=
  let first := jws_post C x ctx url payload
  match first.response with
  | none => first
  | some res =>
    if bad_nonce res then
      let retry := jws_post C x' ctx url payload
      ⟨first.sent ++ retry.sent, retry.response⟩
    else first

/-! ## Verifying -/

/-- A signature of a digest verifies for the string that was signed, and for no
other. -/
def Crypto.Ideal (key : Key) : Prop :=
  ∀ d r s, d.length = 32 → C.digest_sign key d = some (r, s) → ∀ m, C.verify key m (raw_signature r s) = true ↔ m = d

/-- The signature field, decoded, verifies over the two other fields. -/
def Crypto.verifies (key : Key) (flat : Jws) : Bool :=
  (Base64url.decode flat.signature).any fun sig => C.verify key flat.signing_input sig

variable {C}

/-- What is posted was signed as it is posted. -/
theorem jws_post_sent {x : Exchange} {ctx : AcmeCtx Key} {url : Bytes} {payload : Json} {flat : Jws}
    (h : flat ∈ (jws_post C x ctx url payload).sent) :
    ∃ nonce unsigned, unsigned_jws C ctx url nonce payload = some unsigned ∧ sign_jws C ctx.key unsigned = some flat := by
  unfold jws_post at h
  split at h
  · cases h
  · dsimp only at h
    split at h
    · cases h
    · split at h
      · cases h
      · rename_i unsigned hunsigned
        split at h
        · cases h
        · rename_i signed hsigned
          refine ⟨_, unsigned, hunsigned, ?_⟩
          unfold post_jws at h
          split at h
          · rwa [List.mem_singleton.1 h]
          · cases h

theorem acme_post_sent {x x' : Exchange} {ctx : AcmeCtx Key} {url : Bytes} {payload : Json} {flat : Jws}
    (h : flat ∈ (acme_post C x x' ctx url payload).sent) :
    ∃ nonce unsigned, unsigned_jws C ctx url nonce payload = some unsigned ∧ sign_jws C ctx.key unsigned = some flat := by
  unfold acme_post at h
  dsimp only at h
  split at h
  · exact jws_post_sent h
  · split at h
    · exact (List.mem_append.1 h).elim jws_post_sent jws_post_sent
    · exact jws_post_sent h

/-- Two fields of whole groups and a dot. -/
theorem signing_input_length {ctx : AcmeCtx Key} {url nonce : Bytes} {payload : Json} {unsigned : Jws}
    (h : unsigned_jws C ctx url nonce payload = some unsigned) : unsigned.signing_input.length % 4 = 1 := by
  obtain ⟨header, -, h⟩ := Option.bind_eq_some_iff.1 h
  obtain ⟨text, -, h⟩ := Option.bind_eq_some_iff.1 h
  obtain rfl := Option.some.inj h
  simp only [Jws.signing_input, b64url_str, List.length_append, b64url_length, show (bytes ".").length = 1 from rfl]
  omega

theorem sign_jws_some {key : Key} {unsigned flat : Jws} (h : sign_jws C key unsigned = some flat) :
    ∃ r s, C.digest_sign key (C.SHA256 unsigned.signing_input) = some (r, s) ∧
      flat = { unsigned with signature := b64url (raw_signature r s) } := by
  obtain ⟨⟨r, s⟩, hsign, h⟩ := Option.bind_eq_some_iff.1 h
  exact ⟨r, s, hsign, (Option.some.inj h).symm⟩

/-- The padding makes 66 octets of the 64 that were signed. -/
theorem padded_signature_fails (key : Key) {flat : Jws} {r s : Nat} (h : flat.signature = b64url (raw_signature r s)) :
    C.verifies key flat = false := by
  unfold Crypto.verifies
  rw [h]
  cases hd : Base64url.decode (b64url (raw_signature r s)) with
  | none => rfl
  | some sig =>
    rw [Option.any_some, Bool.eq_false_iff]
    intro hv
    have hoctets := C.verify_length _ _ _ hv
    rw [Base64url.decode_length hd, b64url_length, raw_signature_length] at hoctets
    omega

/-- No object posted verifies: its signature field decodes to two octets too many,
and the 64 that were encoded sign the digest of the signing input and not the
input. -/
theorem no_jws_verifies {ctx : AcmeCtx Key} (hideal : C.Ideal ctx.key) (x x' : Exchange) (url : Bytes) (payload : Json) :
    ∀ flat ∈ (jws_post C x ctx url payload).sent ++ (acme_post C x x' ctx url payload).sent,
      C.verifies ctx.key flat = false ∧
      ∃ r s, flat.signature = b64url (raw_signature r s) ∧
        C.verify ctx.key flat.signing_input (raw_signature r s) = false := by
  intro flat hflat
  obtain ⟨nonce, unsigned, hunsigned, hsign⟩ := (List.mem_append.1 hflat).elim jws_post_sent acme_post_sent
  obtain ⟨r, s, hrs, rfl⟩ := sign_jws_some hsign
  refine ⟨padded_signature_fails _ rfl, r, s, rfl, ?_⟩
  rw [Bool.eq_false_iff]
  intro hv
  -- the signing input would be a digest, but its length is one more than a multiple of four
  have hdigest : unsigned.signing_input = C.SHA256 unsigned.signing_input :=
    (hideal _ r s (C.sha256_length _) hrs _).1 hv
  have hlength := signing_input_length hunsigned
  rw [hdigest, C.sha256_length] at hlength
  omega

end

/-! ## A post -/

/-- The digest of the signing input of `toyPost`. -/
def toyDigest : Bytes :=
  [214, 158, 148, 34, 188, 231, 142, 28, 110, 102, 130, 2, 143, 97, 153, 154, 173, 15, 54, 7, 151, 208,
   209, 217, 250, 204, 127, 16, 116, 100, 188, 89]

/-- A signer that has signed one digest. -/
def toyCrypto : Crypto Unit where
  SHA256 _ := toyDigest
  sha256_length _ := rfl
  point _ := 4 :: List.replicate 64 7
  digest_sign _ d := if d = toyDigest then some (1, 1) else none
  verify _ m sig := m = toyDigest && sig = raw_signature 1 1
  verify_length := by
    intro key m sig h
    simp only [Bool.and_eq_true, decide_eq_true_eq] at h
    rw [h.2, raw_signature_length]

def toyCtx : AcmeCtx Unit := ⟨bytes "https://ca/nonce", (), bytes "https://ca/acct/1"⟩

def toyExchange : Exchange where
  get _ _ := some (200, some (bytes "n1"))
  post _ _ _ := .ok ⟨201, [], none, none⟩

theorem toyCrypto_ideal : toyCrypto.Ideal () := by
  intro d r s _ hsign m
  simp only [toyCrypto] at hsign ⊢
  split at hsign
  · obtain ⟨rfl, rfl⟩ := Prod.mk.inj (Option.some.inj hsign)
    simp [‹d = toyDigest›]
  · cases hsign

/-- A POST-as-GET by a registered account. -/
def toyPost : Posted := jws_post toyCrypto toyExchange toyCtx (bytes "https://ca/order") .null

theorem no_jws_verifies_toy :
    toyPost.sent.length = 1 ∧ ∀ flat ∈ toyPost.sent, toyCrypto.verifies () flat = false := by
  refine ⟨by decide +kernel, fun flat h => ?_⟩
  have hposts : flat ∈ toyPost.sent ++ (acme_post toyCrypto toyExchange toyExchange toyCtx (bytes "https://ca/order") .null).sent :=
    List.mem_append_left _ h
  exact (no_jws_verifies toyCrypto_ideal toyExchange toyExchange (bytes "https://ca/order") .null flat hposts).1

theorem toyPost_fails : toyPost.sent.length = 1 ∧ ¬ ∀ flat ∈ toyPost.sent, toyCrypto.verifies () flat = true := by
  decide +kernel

end Hostely.Exposure
