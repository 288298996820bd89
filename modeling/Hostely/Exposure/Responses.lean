import Hostely.Exposure.Agreement
import Hostely.Lib.HttpMessage
/-!
# The responses of the proxy

What both listeners send back. The fields of an upstream's answer are copied through a
filter in `proxy_upstream`, and the listeners write their own Content-Length behind
them. Which fields the HTTP library accepts, the texts of its statuses and what
an upstream answers are parameters.
-/

open Hostely.Lib

namespace Hostely.Exposure

/-- `httplib::Response`; the fields are in the order of the multimap, which is kept when
they are added one by one. -/
structure Response where
  status : Int
  headers : Headers
  body : Bytes
deriving DecidableEq, Repr

/-- How a field is written. -/
def header_line (f : Bytes × Bytes) : Bytes := f.1 ++ bytes ": " ++ f.2

section
variable (accepts : Bytes → Bytes → Bool) (status_message : Int → Bytes) (upstream : UpstreamCall → Option Response)

namespace Response

/-- A field that the library does not accept is dropped. -/
def set_header (res : Response) (f : Bytes × Bytes) : Response :=
  if accepts f.1 f.2 then { res with headers := res.headers ++ [f] } else res

def set_content (res : Response) (text type : Bytes) : Response :=
  set_header accepts ⟨res.status, res.headers.filter fun f => f.1.map tolower ≠ bytes "content-type", text⟩
    (bytes "Content-Type", type)

end Response

/-- The fields of an answer that are not passed back. -/
def hop_fields : List Bytes := [bytes "transfer-encoding", bytes "connection"]

/-- `proxy_upstream` behind the call: `none` when the upstream does not answer. -/
def upstream_response : Option Response → Response
  | none => Response.set_content accepts ⟨502, [], []⟩ (bytes "hostely proxy: upstream unreachable") (bytes "text/plain")
  | some r =>
    { r.headers.foldl (fun (res : Response) f => if hop_fields.contains (f.1.map tolower) then res else res.set_header accepts f)
        ⟨r.status, [], []⟩ with body := r.body }

/-- What a listener has to send; nothing after an exception. -/
def response : Outcome → Option Response
  | .closed => none
  | .thrown => none
  -- the 405 is the one answer of the proxy's own without a text
  | .responded status text =>
    some (if text = [] then ⟨status, [], []⟩ else Response.set_content accepts ⟨status, [], []⟩ text (bytes "text/plain"))
  | .upstream call => some (upstream_response accepts (upstream call))

/-- The head and the body as both listeners put them together. -/
def out_bytes (res : Response) : Bytes :=
  bytes "HTTP/1.1 " ++ to_string res.status ++ bytes " " ++ status_message res.status ++ crlf ++
    res.headers.flatMap (fun f => f.1 ++ bytes ": " ++ f.2 ++ crlf) ++
    bytes "Content-Length: " ++ to_string res.body.length ++ crlf ++ bytes "Connection: close" ++ crlf ++ crlf ++ res.body

/-- `SSL_write` over a connection that stays up; a length that is not positive is an error. -/
def SSL_write (out : Bytes) (num : Int32) : Bytes := if num ≤ 0 then [] else out.take num.toInt.toNat

variable (get_header_value : Headers → Bytes → Bytes) (routes : RouteTable) (nets : ContainerNets)

/-- What `serve_plain` sends. -/
def plain_sent (stream : Bytes) : Option Bytes :=
  (response accepts upstream (serve_plain get_header_value routes nets stream)).map (out_bytes status_message)

/-- What `serve_tls` sends; the length goes through an `int`. -/
def tls_sent (chunks : List Bytes) : Option Bytes :=
  (response accepts upstream (serve_tls get_header_value routes nets chunks)).map fun res =>
    SSL_write (out_bytes status_message res) (Int32.ofNat (out_bytes status_message res).length)

/-- No field that is taken over from an upstream reads as a Content-Length. -/
def Unmeasured (outcome : Outcome) : Prop :=
  ∀ call, outcome = .upstream call → ∀ r ∈ upstream call, ∀ f ∈ r.headers,
    accepts f.1 f.2 = true → is_length (header_line f) = false

/-- All of the response is shorter than 2^31 bytes. -/
def FitsInt (outcome : Outcome) : Prop :=
  ∀ res ∈ response accepts upstream outcome, (out_bytes status_message res).length < 2147483648

/-! ## The bytes of a response -/

/-- A response as a message. -/
def message (res : Response) : Message where
  start := bytes "HTTP/1.1 " ++ to_string res.status ++ bytes " " ++ status_message res.status
  headers := res.headers.map header_line ++ [bytes "Content-Length: " ++ to_string res.body.length, bytes "Connection: close"]
  body := res.body

theorem message_text (res : Response) : (message status_message res).text = out_bytes status_message res := by
  simp [message, Message.text, Message.block, out_bytes, header_line, List.flatMap_map]

end

section
variable {accepts : Bytes → Bytes → Bool} {status_message : Int → Bytes} {upstream : UpstreamCall → Option Response}

theorem to_string_plain (n : Int) : Plain (to_string n) := by
  have hdigits (m : Nat) : Plain (digits 10 m) := by
    intro c hc
    have hdigit := digits_isdigit m c hc
    constructor <;> rintro rfl <;> exact absurd hdigit (by decide)
  unfold to_string
  split
  · exact List.forall_mem_cons.2 ⟨by decide, hdigits _⟩
  · exact hdigits _

/-- Every field is of one line. -/
def Response.OneLine (res : Response) : Prop := ∀ f ∈ res.headers, Plain f.1 ∧ Plain f.2

theorem message_wellFormed (hmessage : ∀ s, Plain (status_message s)) {res : Response} (h : res.OneLine) :
    (message status_message res).WellFormed := by
  have hversion : Plain (bytes "HTTP/1.1 ") := by decide +kernel
  have hspace : Plain (bytes " ") := by decide +kernel
  have hlength : Plain (bytes "Content-Length: ") := by decide +kernel
  have hcolon : Plain (bytes ": ") ∧ 58 ∈ bytes ": " := by decide +kernel
  refine ⟨((hversion.append (to_string_plain _)).append hspace).append (hmessage _), ?_⟩
  intro l hl
  rcases List.mem_append.1 hl with hl | hl
  · obtain ⟨f, hf, rfl⟩ := List.mem_map.1 hl
    obtain ⟨hname, hvalue⟩ := h f hf
    exact ⟨(hname.append hcolon.1).append hvalue, List.mem_append_left _ (List.mem_append_right _ hcolon.2)⟩
  · rcases List.mem_cons.1 hl with rfl | hl
    · exact ⟨hlength.append (to_string_plain _), List.mem_append_left _ (by decide)⟩
    · obtain rfl := List.mem_singleton.1 hl
      exact ⟨by decide +kernel, by decide +kernel⟩

/-- The length that the listeners write themselves. -/
theorem own_length (n : Nat) : is_length (bytes "Content-Length: " ++ to_string n) = true ∧
    Says (header_value (bytes "Content-Length: " ++ to_string n)) n := by
  have hdigits : to_string n = digits 10 n := by simp [to_string]
  rw [hdigits]
  obtain ⟨hname, hvalue⟩ := written_length n
  refine ⟨hname, ?_⟩
  rw [hvalue]
  exact says_digits n

theorem message_lengths (res : Response) : (message status_message res).headers.filter is_length =
    (res.headers.map header_line).filter is_length ++ [bytes "Content-Length: " ++ to_string res.body.length] := by
  have hclose : is_length (bytes "Connection: close") = false := by decide
  rw [message, List.filter_append, List.filter_cons_of_pos (own_length _).1, List.filter_cons_of_neg (by simp [hclose])]
  rfl

/-- A response is framed if none of its own fields reads as a Content-Length. -/
theorem response_framed_iff (hmessage : ∀ s, Plain (status_message s)) {res : Response} (h : res.OneLine) :
    Framed (bytes "HTTP/1.1 ") (out_bytes status_message res) ↔ ∀ f ∈ res.headers, is_length (header_line f) = false := by
  have hversion : bytes "HTTP/1.1 " <+: (message status_message res).start := by
    simp only [message, List.append_assoc]
    exact List.prefix_append _ _
  rw [← message_text, Message.framed_measured (message_wellFormed hmessage h) hversion, Message.Measured, message_lengths]
  have hnone : (res.headers.map header_line).filter is_length = [] ↔ ∀ f ∈ res.headers, is_length (header_line f) = false := by
    rw [List.filter_eq_nil_iff, List.forall_mem_map]
    simp
  rw [← hnone]
  constructor
  · rintro ⟨l, hl, -⟩
    exact (List.append_eq_singleton_iff.1 hl).elim (·.1) fun h => absurd h.2 (List.cons_ne_nil _ _)
  · intro hempty
    exact ⟨_, by rw [hempty]; rfl, (own_length _).2⟩

/-- The length as an `int`: from 2^31 on some bytes are left. -/
theorem SSL_write_cases (out : Bytes) : (out.length < 2147483648 → SSL_write out (Int32.ofNat out.length) = out) ∧
    (2147483648 ≤ out.length → ∃ rest, SSL_write out (Int32.ofNat out.length) ++ rest = out ∧ rest ≠ []) := by
  have hint : (Int32.ofNat out.length).toInt = (out.length : Int).bmod 4294967296 := Int32.toInt_ofNat'
  have hzero : (0 : Int32).toInt = 0 := rfl
  rw [Int.bmod_def] at hint
  unfold SSL_write
  constructor
  · intro hlt
    split
    · rename_i hle
      rw [Int32.le_iff_toInt_le, hzero] at hle
      have hnil : out.length = 0 := by omega
      exact (List.length_eq_zero_iff.1 hnil).symm
    · exact List.take_of_length_le (by omega)
  · intro hge
    split
    · exact ⟨out, rfl, fun hnil => absurd (congrArg List.length hnil) (by rw [List.length_nil]; omega)⟩
    · refine ⟨out.drop (Int32.ofNat out.length).toInt.toNat, List.take_append_drop _ _, ?_⟩
      exact List.ne_nil_of_length_pos (by rw [List.length_drop]; omega)

/-- What `serve_tls` gives to `SSL_write` arrives whole if its length is an `int`. -/
theorem ssl_framed_iff (hmessage : ∀ s, Plain (status_message s)) {res : Response} (h : res.OneLine) :
    Framed (bytes "HTTP/1.1 ") (SSL_write (out_bytes status_message res) (Int32.ofNat (out_bytes status_message res).length)) ↔
      Framed (bytes "HTTP/1.1 ") (out_bytes status_message res) ∧ (out_bytes status_message res).length < 2147483648 := by
  have hshort {sent rest : Bytes} (hcut : sent ++ rest = out_bytes status_message res) (hrest : rest ≠ []) :
      ¬ Framed (bytes "HTTP/1.1 ") sent := by
    refine Message.cut_not_framed (message_wellFormed hmessage h) ?_ (own_length _).2 (hcut.trans (message_text _ _).symm) hrest
    rw [message_lengths]
    exact List.mem_append_right _ List.mem_cons_self
  obtain ⟨hwhole, hcut⟩ := SSL_write_cases (out_bytes status_message res)
  by_cases hlt : (out_bytes status_message res).length < 2147483648
  · rw [hwhole hlt]
    exact (and_iff_left hlt).symm
  · obtain ⟨rest, hsent, hrest⟩ := hcut (Nat.le_of_not_lt hlt)
    exact iff_of_false (hshort hsent hrest) fun h => hlt h.2

/-! ## What the listeners send -/

/-- The fields that are copied from an answer. -/
def passed_back (accepts : Bytes → Bytes → Bool) (f : Bytes × Bytes) : Bool :=
  !hop_fields.contains (f.1.map tolower) && accepts f.1 f.2

theorem copied_headers (fields : Headers) (res : Response) :
    fields.foldl (fun (res : Response) f => if hop_fields.contains (f.1.map tolower) then res else res.set_header accepts f) res =
      { res with headers := res.headers ++ fields.filter (passed_back accepts) } := by
  induction fields generalizing res with
  | nil => simp
  | cons f fields ih =>
    rw [List.foldl_cons, ih, List.filter_cons]
    cases hhop : hop_fields.contains (f.1.map tolower) <;> cases haccepts : accepts f.1 f.2 <;>
      simp only [passed_back, Response.set_header, hhop, haccepts] <;> simp

/-- A text of the proxy's own has one field at most. -/
theorem set_content_headers (status : Int) (text : Bytes) :
    ∀ f ∈ (Response.set_content accepts ⟨status, [], []⟩ text (bytes "text/plain")).headers,
      accepts f.1 f.2 = true ∧ is_length (header_line f) = false := by
  unfold Response.set_content Response.set_header
  split
  · rename_i haccepts
    intro f hf
    obtain rfl : f = _ := List.mem_singleton.1 hf
    exact ⟨haccepts, by decide⟩
  · simp

/-- The fields that are passed over say nothing of a length. -/
theorem hop_not_length {f : Bytes × Bytes} (h : hop_fields.contains (f.1.map tolower) = true) :
    is_length (header_line f) = false := by
  have hhop : ∀ name ∈ hop_fields, 58 ∉ name ∧ name ≠ bytes "content-length" := by decide
  obtain ⟨hno, hne⟩ := hhop _ (by simpa using h)
  have hcolon : 58 ∉ f.1 := fun hm => hno (List.mem_map_of_mem hm)
  have hline : header_line f = f.1 ++ 58 :: (32 :: f.2) := by
    rw [header_line, List.append_assoc]
    rfl
  rw [is_length, hline, header_name_of hcolon]
  exact decide_eq_false hne

/-- The fields of a response. -/
theorem response_headers {outcome : Outcome} {res : Response} (h : response accepts upstream outcome = some res) :
    (∀ f ∈ res.headers, accepts f.1 f.2 = true) ∧
      ((∀ f ∈ res.headers, is_length (header_line f) = false) ↔ Unmeasured accepts upstream outcome) := by
  have hown {res : Response} (hown : ∀ f ∈ res.headers, accepts f.1 f.2 = true ∧ is_length (header_line f) = false)
      (hno : ∀ call r, outcome = .upstream call → upstream call ≠ some r) :
      (∀ f ∈ res.headers, accepts f.1 f.2 = true) ∧
        ((∀ f ∈ res.headers, is_length (header_line f) = false) ↔ Unmeasured accepts upstream outcome) :=
    ⟨fun f hf => (hown f hf).1, iff_of_true (fun f hf => (hown f hf).2) fun call hcall r hr => absurd hr (hno call r hcall)⟩
  cases outcome with
  | closed => cases h
  | thrown => cases h
  | responded status text =>
    obtain rfl := Option.some.inj h
    split
    · exact hown (by simp) (by simp)
    · exact hown (set_content_headers _ _) (by simp)
  | upstream call =>
    obtain rfl := Option.some.inj h
    cases hr : upstream call with
    | none => exact hown (set_content_headers _ _) (by rintro _ _ ⟨⟩; simp [hr])
    | some r =>
      have hheaders : (upstream_response accepts (some r)).headers = r.headers.filter (passed_back accepts) := by
        simp only [upstream_response, copied_headers, List.nil_append]
      rw [hheaders]
      constructor
      · intro f hf
        have hpassed : passed_back accepts f = true := List.of_mem_filter hf
        exact (Bool.and_eq_true_iff.1 hpassed).2
      · constructor
        · rintro hall call' ⟨⟩ r' hr' f hf haccepts
          obtain rfl := Option.some.inj (hr.symm.trans hr')
          cases hhop : hop_fields.contains (f.1.map tolower) with
          | true => exact hop_not_length hhop
          | false =>
            have hpassed : passed_back accepts f = true := by rw [passed_back, hhop, haccepts]; rfl
            exact hall f (List.mem_filter.2 ⟨hf, hpassed⟩)
        · intro hun f hf
          obtain ⟨hmem, hpassed⟩ := List.mem_filter.1 hf
          exact hun call rfl r hr f hmem (Bool.and_eq_true_iff.1 hpassed).2

/-- What either listener sends is framed exactly if no field taken over from an upstream
reads as a Content-Length and, over TLS, the length of the response is an `int`. -/
theorem framed_iff (haccepts : ∀ k v, accepts k v = true → Plain k ∧ Plain v) (hmessage : ∀ s, Plain (status_message s))
    (get_header_value : Headers → Bytes → Bytes) (routes : RouteTable) (nets : ContainerNets) (stream : Bytes)
    (chunks : List Bytes) :
    (∀ out ∈ plain_sent accepts status_message upstream get_header_value routes nets stream,
      Framed (bytes "HTTP/1.1 ") out ↔ Unmeasured accepts upstream (serve_plain get_header_value routes nets stream)) ∧
    ∀ out ∈ tls_sent accepts status_message upstream get_header_value routes nets chunks,
      Framed (bytes "HTTP/1.1 ") out ↔
        Unmeasured accepts upstream (serve_tls get_header_value routes nets chunks) ∧
          FitsInt accepts status_message upstream (serve_tls get_header_value routes nets chunks) := by
  constructor
  · intro out hout
    obtain ⟨res, hres, rfl⟩ := Option.map_eq_some_iff.1 hout
    obtain ⟨hfields, hlength⟩ := response_headers hres
    have hline : res.OneLine := fun f hf => haccepts _ _ (hfields f hf)
    rw [response_framed_iff hmessage hline, hlength]
  · intro out hout
    obtain ⟨res, hres, rfl⟩ := Option.map_eq_some_iff.1 hout
    obtain ⟨hfields, hlength⟩ := response_headers hres
    have hline : res.OneLine := fun f hf => haccepts _ _ (hfields f hf)
    rw [ssl_framed_iff hmessage hline, response_framed_iff hmessage hline, hlength]
    refine and_congr_right' ⟨fun hlt res' hres' => ?_, fun hfits => hfits res hres⟩
    obtain rfl := Option.some.inj (hres.symm.trans hres')
    exact hlt

end

/-- Fields of one line. -/
def one_line (k v : Bytes) : Bool := Plain k ∧ Plain v

/-- The texts of two statuses. -/
def toy_message (status : Int) : Bytes := if status = 200 then bytes "OK" else bytes "Internal Server Error"

theorem toy_message_plain (s : Int) : Plain (toy_message s) := by
  unfold toy_message
  split <;> decide +kernel

/-- An upstream that answers in chunks, and one that tells the length. -/
def chunked (_ : UpstreamCall) : Option Response := some ⟨200, [(bytes "Transfer-Encoding", bytes "chunked")], bytes "ok"⟩

def measured (_ : UpstreamCall) : Option Response := some ⟨200, [(bytes "Content-Length", bytes "2")], bytes "ok"⟩

/-- The answer in chunks is sent with one length. -/
theorem chunked_framed :
    plain_sent one_line toy_message chunked only_value toyRoutes toyNets (toyGet.text ++ (crlf ++ crlf)) =
        some (bytes "HTTP/1.1 200 OK\r\nContent-Length: 2\r\nConnection: close\r\n\r\nok") ∧
      Framed (bytes "HTTP/1.1 ") (bytes "HTTP/1.1 200 OK\r\nContent-Length: 2\r\nConnection: close\r\n\r\nok") := by
  have hsent : plain_sent one_line toy_message chunked only_value toyRoutes toyNets (toyGet.text ++ (crlf ++ crlf)) =
      some (bytes "HTTP/1.1 200 OK\r\nContent-Length: 2\r\nConnection: close\r\n\r\nok") := by decide +kernel
  refine ⟨hsent, ((framed_iff (fun k v h => of_decide_eq_true h) toy_message_plain only_value toyRoutes toyNets
    (toyGet.text ++ (crlf ++ crlf)) []).1 _ hsent).2 ?_⟩
  rintro call - r ⟨⟩ f hf -
  obtain rfl := List.mem_singleton.1 hf
  decide

/-- The answer that tells its length is sent with two of them. -/
theorem measured_twice :
    plain_sent one_line toy_message measured only_value toyRoutes toyNets (toyGet.text ++ (crlf ++ crlf)) =
        some (bytes "HTTP/1.1 200 OK\r\nContent-Length: 2\r\nContent-Length: 2\r\nConnection: close\r\n\r\nok") ∧
      ¬ ∀ accepts status_message upstream, (∀ k v, accepts k v = true → Plain k ∧ Plain v) → (∀ s, Plain (status_message s)) →
        ∀ get_header_value routes nets stream,
          ∀ out ∈ plain_sent accepts status_message upstream get_header_value routes nets stream,
            Framed (bytes "HTTP/1.1 ") out := by
  have hsent : plain_sent one_line toy_message measured only_value toyRoutes toyNets (toyGet.text ++ (crlf ++ crlf)) =
      some (bytes "HTTP/1.1 200 OK\r\nContent-Length: 2\r\nContent-Length: 2\r\nConnection: close\r\n\r\nok") := by
    decide +kernel
  refine ⟨hsent, fun h => ?_⟩
  have hframed := h one_line toy_message measured (fun k v h => of_decide_eq_true h) toy_message_plain only_value toyRoutes
    toyNets (toyGet.text ++ (crlf ++ crlf)) _ hsent
  obtain ⟨res, hres, hout⟩ := Option.map_eq_some_iff.1 hsent
  obtain ⟨hfields, -⟩ := response_headers hres
  rw [← hout, response_framed_iff toy_message_plain fun f hf => of_decide_eq_true (hfields f hf)] at hframed
  obtain rfl : _ = res := Option.some.inj hres
  exact absurd (hframed (bytes "Content-Length", bytes "2") (by decide +kernel)) (by decide)

end Hostely.Exposure
