import Hostely.Exposure.Reading
import Mathlib.Data.Nat.Find
/-!
# The bodies of requests

Which bodies the listeners hand on as the client sent them. `serve_plain` drops a
body of 64 MiB and more; `serve_tls` cuts one off when it has 64 MiB of it, and
takes the head itself for the body when the end of the head comes late.
-/

open Hostely.Lib

namespace Hostely.Exposure

/-! ## Heads -/

/-- A head as `serve_plain` reads it: a first line, lines that are not empty, an
empty line; carriage returns count for nothing. -/
structure PlainHead where
  first : Bytes
  later : List Bytes
  blank : Bytes
  first_line : 10 ∉ first
  later_lines : ∀ l ∈ later, 10 ∉ l ∧ visible l = true
  blank_line : ∀ c ∈ blank, c = 13

namespace PlainHead

def text (h : PlainHead) : Bytes := h.first ++ 10 :: (h.later.flatMap (· ++ [10]) ++ (h.blank ++ [10]))

def method (h : PlainHead) : Bytes := (next_word (without_cr h.first)).1

def headers (h : PlainHead) : Headers := (h.later.map without_cr).filterMap field

end PlainHead

namespace TlsHead

/-- How much of the body has been read after so many blocks. -/
def body_received (h : TlsHead) (chunks : List Bytes) (k : Nat) : Nat := (received chunks k).length - (h.text.length + 4)

/-- No block ends with 64 MiB of the body or more, and not all of it. -/
def NoGap (h : TlsHead) (n : Nat) (chunks : List Bytes) : Prop :=
  ∀ k, 64 * 1024 * 1024 ≤ h.body_received chunks k → n ≤ h.body_received chunks k

end TlsHead

namespace TlsHead

/-- The end of the head comes late: the blocks up to number `j` are the first with
more than 128 KiB, and it is not among them. -/
structure LateAt (h : TlsHead) (chunks : List Bytes) (j : Nat) : Prop where
  long : 128 * 1024 < (received chunks j).length
  no_end : (received chunks j).length < h.text.length + 4
  first : ∀ m < j, (received chunks m).length ≤ 128 * 1024

end TlsHead

/-- The method of what had come by then, all of it taken for the head. -/
def cut_method (chunks : List Bytes) (j : Nat) : Bytes := (parse_head (received chunks j)).1

def cut_headers (chunks : List Bytes) (j : Nat) : Headers := (parse_head (received chunks j)).2.2

/-- With `v` for the Content-Length, `n` bytes are taken from the fourth byte of the
request on: that many are announced and no block ends with 64 MiB of them or more,
and not all; or more are announced, and the first block that ends with 64 MiB or more
ends with `n`. -/
def TakesLate (v : Bytes) (n : Nat) (chunks : List Bytes) : Prop :=
  (v = [] ∧ n = 0) ∨ ∃ clen, stoull v = some clen ∧
    ((clen.toNat = n ∧ ∀ k, 64 * 1024 * 1024 ≤ (received chunks k).length - 3 → n ≤ (received chunks k).length - 3) ∨
      (n < clen.toNat ∧ 64 * 1024 * 1024 ≤ n ∧
        ∃ k, (received chunks k).length - 3 = n ∧ ∀ m < k, (received chunks m).length - 3 < 64 * 1024 * 1024))

/-- The value of a Content-Length of `n`: it begins with this number. -/
def Announces (v : Bytes) (n : Nat) : Prop := number v = some (false, n)

section
variable (get_header_value : Headers → Bytes → Bytes) (routes : RouteTable) (nets : ContainerNets)

/-- The request is handed on with this body, or it is answered with an error and
nothing goes upstream. -/
def Keeps (reading : Reading) (body : Bytes) : Prop :=
  ∃ req host, reading = .request req host ∧
    (req.body = body ∨ ∃ status text, serve get_header_value routes nets reading = .responded status text ∧ 400 ≤ status)

/-- There is a route to a running container, and the method is one that is passed
on. -/
def Forwards (method host : Bytes) : Prop :=
  (∃ thost port, route routes nets host = .target thost port) ∧ method ∈ bare_methods ++ body_methods

end

variable {get_header_value : Headers → Bytes → Bytes} {routes : RouteTable} {nets : ContainerNets}

theorem Announces.ne {v : Bytes} {n : Nat} (h : Announces v n) : v ≠ [] := by
  rintro rfl
  cases h

theorem proxy_upstream_isSome (get_header_value : Headers → Bytes → Bytes) (thost : Bytes) (port : Int32) {req : Request} :
    (proxy_upstream get_header_value thost port req).isSome = true ↔ req.method ∈ bare_methods ++ body_methods := by
  rw [List.mem_append]
  unfold proxy_upstream
  by_cases hbare : req.method ∈ bare_methods
  · simp [hbare]
  · by_cases hbody : req.method ∈ body_methods <;> simp [hbare, hbody]

theorem keeps_request {req : Request} {host body : Bytes} :
    Keeps get_header_value routes nets (.request req host) body ↔ req.body = body ∨ ¬ Forwards routes nets req.method host := by
  have hresponded : (∃ status text, serve get_header_value routes nets (.request req host) = .responded status text ∧
      400 ≤ status) ↔ ¬ Forwards routes nets req.method host := by
    rw [serve, respond, Forwards]
    cases hroute : route routes nets host with
    | no_route => simp
    | not_running target => simp
    | target thost port =>
      rw [← proxy_upstream_isSome get_header_value thost port]
      cases hcall : proxy_upstream get_header_value thost port req <;> simp [hcall]
  constructor
  · rintro ⟨req', host', heq, h⟩
    obtain ⟨rfl, rfl⟩ := Reading.request.inj heq
    exact h.imp_right hresponded.1
  · exact fun h => ⟨req, host, rfl, h.imp_right hresponded.2⟩

theorem not_keeps_thrown {body : Bytes} : ¬ Keeps get_header_value routes nets .thrown body := by
  rintro ⟨req, host, heq, -⟩
  cases heq

/-! ## serve_plain -/

theorem read_plain_text (h : PlainHead) (body : Bytes) :
    read_plain get_header_value (h.text ++ body) = (plain_body get_header_value h.headers body).elim .thrown fun b =>
      .request ⟨h.method, (next_word (next_word (without_cr h.first)).2).1, bytes "0.0.0.0", h.headers, b⟩
        (host_of h.headers) := by
  have happend : h.text ++ body =
      h.first ++ 10 :: (h.later.flatMap (· ++ [10]) ++ (h.blank ++ 10 :: body)) := by simp [PlainHead.text]
  rw [happend]
  exact read_plain_eq get_header_value (read_line_eq h.first_line _ _) (header_lines_eq h.later_lines h.blank_line body)

/-- The buffer is filled if so much is there. -/
theorem fread_eq {n : Nat} {stream : Bytes} (hn : n ≤ stream.length) : fread n stream = stream.take n := by
  rw [fread, Nat.sub_eq_zero_of_le hn, List.replicate_zero, List.append_nil]

/-- The request on the plain listener. -/
theorem plain_keeps_iff (h : PlainHead) {n : Nat} (hlength : Announces (get_header_value h.headers (bytes "Content-Length")) n)
    {body : Bytes} (hn : n ≤ body.length) :
    Keeps get_header_value routes nets (read_plain get_header_value (h.text ++ body)) (body.take n) ↔
      n < 64 * 1024 * 1024 ∨ n < 18446744073709551616 ∧ ¬ Forwards routes nets h.method (host_of h.headers) := by
  have hconverted := stoull_eq hlength
  rw [read_plain_text, plain_body, if_neg hlength.ne]
  cases hv : stoull (get_header_value h.headers (bytes "Content-Length")) with
  | none =>
    rw [hv] at hconverted
    split at hconverted
    · cases hconverted
    · rw [Option.map_none, Option.elim_none]
      exact iff_of_false not_keeps_thrown (by omega)
  | some clen =>
    rw [hv] at hconverted
    split at hconverted
    · rename_i hlt
      obtain rfl := Option.some.inj hconverted
      have hbody : (if 0 < clen.toNat ∧ clen.toNat < 64 * 1024 * 1024 then fread clen.toNat body else []) =
          body.take clen.toNat ↔ clen.toNat < 64 * 1024 * 1024 := by
        split
        · rename_i hsize
          exact iff_of_true (fread_eq hn) hsize.2
        · constructor
          · intro hnil
            have hlen := congrArg List.length hnil
            rw [List.length_nil, List.length_take, Nat.min_eq_left hn] at hlen
            omega
          · intro hsize
            have hzero : clen.toNat = 0 := by omega
            rw [hzero, List.take_zero]
      rw [Option.map_some, Option.elim_some, keeps_request]
      dsimp only
      rw [hbody, and_iff_right hlt]
    · cases hconverted

/-! ## serve_tls -/

/-- The gap, counted from the block that completes the head on. -/
theorem noGap_iff (h : TlsHead) {n k : Nat} {b : Bytes} {chunks : List Bytes}
    (hb : received chunks k = h.text ++ (crlf ++ crlf) ++ b) (hfirst : ∀ m < k, (received chunks m).length < h.text.length + 4) :
    h.NoGap n chunks ↔
      ∀ i, 64 * 1024 * 1024 ≤ (b ++ received (chunks.drop k) i).length → n ≤ (b ++ received (chunks.drop k) i).length := by
  have hlen (i : Nat) : h.body_received chunks (k + i) = (b ++ received (chunks.drop k) i).length := by
    rw [TlsHead.body_received, received_add, hb]
    simp only [List.length_append, crlf, List.length_cons, List.length_nil]
    omega
  constructor
  · intro hgap i
    rw [← hlen]
    exact hgap (k + i)
  · intro hgap m hm
    by_cases hmk : m < k
    · have hlt := hfirst m hmk
      rw [TlsHead.body_received] at hm
      omega
    · obtain ⟨i, rfl⟩ := Nat.exists_eq_add_of_le (Nat.le_of_not_lt hmk)
      rw [hlen] at hm ⊢
      exact hgap i hm

/-- The request on the TLS listener. -/
theorem tls_keeps_iff (h : TlsHead) {n : Nat} (hlength : Announces (get_header_value h.headers (bytes "Content-Length")) n)
    {body : Bytes} (hn : n ≤ body.length) {chunks : List Bytes} (hstream : chunks.flatten = h.text ++ (crlf ++ crlf) ++ body)
    (htime : h.InTime chunks) :
    Keeps get_header_value routes nets (read_tls get_header_value chunks) (body.take n) ↔
      n < 18446744073709551616 ∧ (h.NoGap n chunks ∨ ¬ Forwards routes nets h.method (host_of h.headers)) := by
  obtain ⟨k, b, hb, hbody, hfirst, hread⟩ := read_tls_text get_header_value h hstream htime
  have hconverted := stoull_eq hlength
  rw [hread, tls_body, if_neg hlength.ne]
  cases hv : stoull (get_header_value h.headers (bytes "Content-Length")) with
  | none =>
    rw [hv] at hconverted
    split at hconverted
    · cases hconverted
    · rw [Option.map_none, Option.elim_none]
      exact iff_of_false not_keeps_thrown fun hc => absurd hc.1 ‹_›
  | some clen =>
    rw [hv] at hconverted
    split at hconverted
    · rename_i hlt
      obtain rfl := Option.some.inj hconverted
      rw [Option.map_some, Option.elim_some, keeps_request, and_iff_right hlt]
      dsimp only
      rw [read_body_take hbody hn, ← noGap_iff h hb hfirst]
    · cases hconverted

/-! ### A head that ends late -/

theorem not_inTime_iff (h : TlsHead) {chunks : List Bytes} : ¬ h.InTime chunks ↔ ∃ j, h.LateAt chunks j := by
  simp only [TlsHead.InTime, not_forall, exists_prop]
  constructor
  · rintro ⟨k, hlong, hshort⟩
    have hex : ∃ j, 128 * 1024 < (received chunks j).length := ⟨k, hlong⟩
    have hle := received_length_mono chunks (Nat.find_min' hex hlong)
    exact ⟨Nat.find hex, Nat.find_spec hex, hle.trans_lt (Nat.lt_of_not_le hshort),
      fun m hm => Nat.le_of_not_lt (Nat.find_min hex hm)⟩
  · rintro ⟨j, hlate⟩
    exact ⟨j, hlate.long, Nat.not_le.2 hlate.no_end⟩

/-- The loop over the head breaks off at this block, without an end. -/
theorem TlsHead.LateAt.read_reqbuf_eq {h : TlsHead} {body : Bytes} {chunks : List Bytes} {j : Nat} (hlate : h.LateAt chunks j)
    (hstream : chunks.flatten = h.text ++ (crlf ++ crlf) ++ body) :
    read_reqbuf [] chunks = some (received chunks j, chunks.drop j) ∧ findSub? (crlf ++ crlf) (received chunks j) = none := by
  have hfound (k : Nat) : (findSub? (crlf ++ crlf) (received chunks k)).isSome = true ↔
      h.text.length + 4 ≤ (received chunks k).length :=
    end_found h.ends (by rw [received_append, hstream])
  have hnone : findSub? (crlf ++ crlf) (received chunks j) = none := by
    rw [← Option.not_isSome_iff_eq_none, hfound]
    exact Nat.not_le.2 hlate.no_end
  refine ⟨?_, hnone⟩
  cases hread : read_reqbuf [] chunks with
  | none =>
    refine absurd ?_ (read_reqbuf_none hread)
    rw [List.nil_append, hstream, findSub?_append h.ends body, Option.isSome_some]
  | some read =>
    obtain ⟨reqbuf, rest⟩ := read
    obtain ⟨i, rfl, rfl, henough⟩ := read_reqbuf_some hread
    rw [List.nil_append]
    have hij : i = j := by
      rcases Nat.lt_trichotomy i j with hij | rfl | hji
      · have hle := received_length_mono chunks hij.le
        rcases henough.stops with hhere | hlong
        · exact absurd ((hfound i).1 hhere) (Nat.not_le.2 (hle.trans_lt hlate.no_end))
        · exact absurd (hlate.first i hij) (Nat.not_le.2 hlong)
      · rfl
      · refine absurd (henough.short j hji ?_) (Nat.not_le.2 hlate.long)
        rintro rfl
        exact absurd hlate.long (Nat.not_lt.2 (Nat.zero_le _))
    rw [hij]

/-- The counts of the body from the fourth byte on are those from the block on where
the loop breaks off; the blocks before it are short. -/
theorem takesLate_iff {chunks : List Bytes} {j : Nat} (hlong : 3 ≤ (received chunks j).length)
    (hfirst : ∀ m < j, (received chunks m).length ≤ 128 * 1024) {v : Bytes} {n : Nat} :
    TakesLate v n chunks ↔ (v = [] ∧ n = 0) ∨ ∃ clen, stoull v = some clen ∧
      ((clen.toNat = n ∧ ∀ i, 64 * 1024 * 1024 ≤ ((received chunks j).drop 3 ++ received (chunks.drop j) i).length →
          n ≤ ((received chunks j).drop 3 ++ received (chunks.drop j) i).length) ∨
        (n < clen.toNat ∧ 64 * 1024 * 1024 ≤ n ∧
          ∃ i, ((received chunks j).drop 3 ++ received (chunks.drop j) i).length = n ∧
            ∀ m < i, ((received chunks j).drop 3 ++ received (chunks.drop j) m).length < 64 * 1024 * 1024)) := by
  have hlen (i : Nat) : ((received chunks j).drop 3 ++ received (chunks.drop j) i).length =
      (received chunks (j + i)).length - 3 := by
    rw [received_add, List.length_append, List.length_append, List.length_drop]
    omega
  simp only [hlen]
  refine or_congr_right (exists_congr fun clen => and_congr_right fun _ => or_congr (and_congr_right fun _ => ?_)
    (and_congr_right fun _ => and_congr_right fun hn => ?_))
  · constructor
    · exact fun hgap i => hgap (j + i)
    · intro hgap k hk
      by_cases hkj : k < j
      · have hshort := hfirst k hkj
        omega
      · obtain ⟨i, rfl⟩ := Nat.exists_eq_add_of_le (Nat.le_of_not_lt hkj)
        exact hgap i hk
  · constructor
    · rintro ⟨k, hk, hbefore⟩
      have hjk : j ≤ k := by
        by_contra hkj
        have hshort := hfirst k (Nat.lt_of_not_le hkj)
        omega
      obtain ⟨i, rfl⟩ := Nat.exists_eq_add_of_le hjk
      exact ⟨i, hk, fun m hm => hbefore (j + m) (Nat.add_lt_add_left hm j)⟩
    · rintro ⟨i, hi, hbefore⟩
      refine ⟨j + i, hi, fun m hm => ?_⟩
      by_cases hmj : m < j
      · have hshort := hfirst m hmj
        omega
      · obtain ⟨m, rfl⟩ := Nat.exists_eq_add_of_le (Nat.le_of_not_lt hmj)
        exact hbefore m (Nat.lt_of_add_lt_add_left hm)

theorem tls_body_beginning {headers : Headers} {b text body : Bytes} {chunks : List Bytes} (htext : b ++ chunks.flatten = text)
    (h : tls_body get_header_value headers b chunks = some body) : body <+: text := by
  unfold tls_body at h
  dsimp only at h
  split at h
  · rw [← Option.some.inj h]
    exact List.nil_prefix
  · obtain ⟨clen, -, rfl⟩ := Option.map_eq_some_iff.1 h
    exact (List.take_prefix _ _).trans (read_body_beginning htext)

/-- How many bytes there are in the body. -/
theorem tls_body_length_iff {headers : Headers} {b text body : Bytes} {n : Nat} {chunks : List Bytes}
    (htext : b ++ chunks.flatten = text) (hn : n < text.length)
    (h : tls_body get_header_value headers b chunks = some body) :
    body.length = n ↔ (get_header_value headers (bytes "Content-Length") = [] ∧ n = 0) ∨
      ∃ clen, stoull (get_header_value headers (bytes "Content-Length")) = some clen ∧
        ((clen.toNat = n ∧ ∀ i, 64 * 1024 * 1024 ≤ (b ++ received chunks i).length → n ≤ (b ++ received chunks i).length) ∨
          (n < clen.toNat ∧ 64 * 1024 * 1024 ≤ n ∧
            ∃ i, (b ++ received chunks i).length = n ∧ ∀ m < i, (b ++ received chunks m).length < 64 * 1024 * 1024)) := by
  unfold tls_body at h
  dsimp only at h
  split at h
  · rename_i hnil
    obtain rfl := Option.some.inj h
    have hthrows : stoull [] = none := by decide +kernel
    simp [hnil, hthrows, eq_comm (a := 0)]
  · rename_i hne
    obtain ⟨clen, hclen, rfl⟩ := Option.map_eq_some_iff.1 h
    rw [read_body_length_iff htext hn, hclen]
    simp only [hne, false_and, false_or, Option.some.injEq, exists_eq_left']

/-- The request on the TLS listener when the end of the head comes late: the body is
taken from the fourth byte of the request on. -/
theorem late_keeps_iff (h : TlsHead) {body : Bytes} {n : Nat} (hn : n ≤ body.length) {chunks : List Bytes}
    (hstream : chunks.flatten = h.text ++ (crlf ++ crlf) ++ body) {j : Nat} (hlate : h.LateAt chunks j) :
    Keeps get_header_value routes nets (read_tls get_header_value chunks) (body.take n) ↔
      (TakesLate (get_header_value (cut_headers chunks j) (bytes "Content-Length")) n chunks ∧
          body.take n <+: chunks.flatten.drop 3) ∨
        (Readable (get_header_value (cut_headers chunks j) (bytes "Content-Length")) ∧
          ¬ Forwards routes nets (cut_method chunks j) (host_of (cut_headers chunks j))) := by
  obtain ⟨hread, hend⟩ := hlate.read_reqbuf_eq hstream
  have hthree : 3 ≤ (received chunks j).length := by
    have hlong := hlate.long
    omega
  have htext : (received chunks j).drop 3 ++ (chunks.drop j).flatten = chunks.flatten.drop 3 := by
    rw [← received_append chunks j, List.drop_append_of_le_length hthree]
  have hroom : n < (chunks.flatten.drop 3).length := by
    rw [hstream]
    simp only [List.length_drop, List.length_append, crlf, List.length_cons, List.length_nil]
    omega
  rw [read_tls_eq get_header_value hread hend, Option.elim_none, Option.elim_none,
    show (parse_head (received chunks j)).2.2 = cut_headers chunks j from rfl]
  cases hbody : tls_body get_header_value (cut_headers chunks j) ((received chunks j).drop 3) (chunks.drop j) with
  | none =>
    have hnot := (tls_body_eq_none _ _).1 hbody
    rw [Option.elim_none]
    refine iff_of_false not_keeps_thrown ?_
    rintro (⟨⟨hnil, -⟩ | ⟨clen, hclen, -⟩, -⟩ | ⟨hreadable, -⟩)
    · exact hnot (.inl hnil)
    · exact hnot (.inr (stoull_isSome.1 (Option.isSome_of_eq_some hclen)))
    · exact hnot hreadable
  | some b =>
    have hreadable : Readable (get_header_value (cut_headers chunks j) (bytes "Content-Length")) := by
      by_contra hnot
      rw [(tls_body_eq_none _ _).2 hnot] at hbody
      cases hbody
    have hb : b <+: chunks.flatten.drop 3 := tls_body_beginning htext hbody
    -- two beginnings of one text are the same if they have the same length
    have hsame : b = body.take n ↔ b.length = n ∧ body.take n <+: chunks.flatten.drop 3 := by
      have hlen : (body.take n).length = n := List.length_take_of_le hn
      constructor
      · rintro rfl
        exact ⟨hlen, hb⟩
      · rintro ⟨hbn, hpre⟩
        exact (List.prefix_of_prefix_length_le hb hpre (by rw [hbn, hlen])).eq_of_length (by rw [hbn, hlen])
    have htakes : b.length = n ↔ TakesLate (get_header_value (cut_headers chunks j) (bytes "Content-Length")) n chunks := by
      rw [takesLate_iff hthree hlate.first]
      exact tls_body_length_iff htext hroom hbody
    rw [Option.elim_some, keeps_request, and_iff_right hreadable]
    dsimp only
    rw [hsame, htakes]
    rfl

/-- Exactly when a body is handed on as it was sent, or its request is answered with
an error. On the plain listener: it has less than 64 MiB, or the request is not
forwarded. On the TLS listener, if the head ends in time: no block leaves the body
with 64 MiB and unfinished, or the request is not forwarded. If the head ends late:
what had come by then announces, as a head, so many bytes, and the body is what
follows the third byte of the request; or this head is of a request that is not
forwarded. -/
theorem body_kept_iff (get_header_value : Headers → Bytes → Bytes) (routes : RouteTable) (nets : ContainerNets) {n : Nat}
    {body : Bytes} (hn : n ≤ body.length) :
    (∀ h : PlainHead, Announces (get_header_value h.headers (bytes "Content-Length")) n →
      (Keeps get_header_value routes nets (read_plain get_header_value (h.text ++ body)) (body.take n) ↔
        n < 64 * 1024 * 1024 ∨ n < 18446744073709551616 ∧ ¬ Forwards routes nets h.method (host_of h.headers))) ∧
    (∀ h : TlsHead, ∀ chunks, chunks.flatten = h.text ++ (crlf ++ crlf) ++ body →
      (h.InTime chunks → Announces (get_header_value h.headers (bytes "Content-Length")) n →
        (Keeps get_header_value routes nets (read_tls get_header_value chunks) (body.take n) ↔
          n < 18446744073709551616 ∧ (h.NoGap n chunks ∨ ¬ Forwards routes nets h.method (host_of h.headers)))) ∧
      (¬ h.InTime chunks → ∃ j, h.LateAt chunks j ∧
        (Keeps get_header_value routes nets (read_tls get_header_value chunks) (body.take n) ↔
          (TakesLate (get_header_value (cut_headers chunks j) (bytes "Content-Length")) n chunks ∧
              body.take n <+: chunks.flatten.drop 3) ∨
            (Readable (get_header_value (cut_headers chunks j) (bytes "Content-Length")) ∧
              ¬ Forwards routes nets (cut_method chunks j) (host_of (cut_headers chunks j)))))) := by
  refine ⟨fun h hlength => plain_keeps_iff h hlength hn, fun h chunks hstream =>
    ⟨fun htime hlength => tls_keeps_iff h hlength hn hstream htime, fun hlate => ?_⟩⟩
  obtain ⟨j, hj⟩ := (not_inTime_iff h).1 hlate
  exact ⟨j, hj, late_keeps_iff h hn hstream hj⟩

/-! ## A small and a large upload -/

theorem later_lines_of_all {later : List Bytes} (h : (later.all fun l => !l.contains 10 && visible l) = true) :
    ∀ l ∈ later, 10 ∉ l ∧ visible l = true := by
  intro l hl
  simpa using List.all_eq_true.1 h l hl

def toySmall : PlainHead where
  first := bytes "POST / HTTP/1.1\r"
  later := [bytes "Host: shop.io\r", bytes "Content-Length: 5\r"]
  blank := [13]
  first_line := by decide +kernel
  later_lines := later_lines_of_all (by decide +kernel)
  blank_line := fun _ hc => List.mem_singleton.1 hc

def toyTls : TlsHead where
  text := bytes "POST / HTTP/1.1\r\nHost: shop.io\r\nContent-Length: 5"
  ends := by decide +kernel

theorem toyTls_in_time : toyTls.InTime [toyTls.text ++ (crlf ++ crlf) ++ bytes "hel", bytes "lo"] := by
  intro k hk
  have hall : [toyTls.text ++ (crlf ++ crlf) ++ bytes "hel", bytes "lo"].flatten.length ≤ 128 * 1024 := by decide +kernel
  exact absurd hk (Nat.not_lt.2 ((received_length_le _ k).trans hall))

/-- Five bytes, in one block and in two. -/
theorem body_kept_hello :
    Keeps only_value toyRoutes toyNets (read_plain only_value (toySmall.text ++ bytes "hello")) ((bytes "hello").take 5) ∧
      Keeps only_value toyRoutes toyNets
        (read_tls only_value [toyTls.text ++ (crlf ++ crlf) ++ bytes "hel", bytes "lo"]) ((bytes "hello").take 5) := by
  have hn : 5 ≤ (bytes "hello").length := by decide +kernel
  have h := body_kept_iff only_value toyRoutes toyNets hn
  have hplain : Announces (only_value toySmall.headers (bytes "Content-Length")) 5 := by
    unfold Announces
    decide +kernel
  have htls : Announces (only_value toyTls.headers (bytes "Content-Length")) 5 := by
    unfold Announces
    decide +kernel
  refine ⟨(h.1 toySmall hplain).2 (.inl (by decide)), ?_⟩
  refine ((h.2 toyTls _ ?_).1 toyTls_in_time htls).2 ⟨by decide, .inl fun k hk => ?_⟩
  · decide +kernel
  · omega

def toyLarge : PlainHead where
  first := bytes "POST / HTTP/1.1\r"
  later := [bytes "Host: shop.io\r", bytes "Content-Length: 67108864\r"]
  blank := [13]
  first_line := by decide +kernel
  later_lines := later_lines_of_all (by decide +kernel)
  blank_line := fun _ hc => List.mem_singleton.1 hc

/-- 64 MiB on the plain listener: the container gets a POST without a body. -/
theorem large_body_dropped :
    ¬ Keeps only_value toyRoutes toyNets (read_plain only_value (toyLarge.text ++ List.replicate 67108864 120))
      ((List.replicate 67108864 120).take 67108864) := by
  have hlength : Announces (only_value toyLarge.headers (bytes "Content-Length")) 67108864 := by
    unfold Announces
    decide +kernel
  have hforwards : Forwards toyRoutes toyNets toyLarge.method (host_of toyLarge.headers) :=
    ⟨⟨bytes "192.168.64.3", 80, by decide +kernel⟩, by decide +kernel⟩
  rw [plain_keeps_iff toyLarge hlength (Nat.le_of_eq List.length_replicate.symm)]
  rintro (hsmall | ⟨-, hnot⟩)
  · exact absurd hsmall (by decide)
  · exact hnot hforwards

end Hostely.Exposure
