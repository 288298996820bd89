import Hostely.Exposure.Containers
import Hostely.Exposure.Routes
import Hostely.Lib.HttpHead
/-!
# The requests of the proxy

Two listeners read a request, each by code of its own: `serve_plain` byte by byte
up to an empty line, `serve_tls` in blocks up to CR LF CR LF. What follows is the
same for both: the route of the host, the address of its container, the call
upstream. The multimap of header fields belongs to the HTTP library; here it is a
list in the order in which fields were added, and which of several values the
library returns is a parameter, `get_header_value`.
-/

open Hostely.Lib

namespace Hostely.Exposure

abbrev Headers := List (Bytes × Bytes)

/-- `httplib::Request` -/
structure Request where
  method : Bytes
  path : Bytes
  remote_addr : Bytes
  headers : Headers
  body : Bytes
deriving DecidableEq

/-- What becomes of the bytes of a client: nothing, when the connection ends too
early; an exception that leaves the handler; a request and its host. -/
inductive Reading where
  | closed
  | thrown
  | request (req : Request) (host : Bytes)
deriving DecidableEq

section
variable (get_header_value : Headers → Bytes → Bytes)

/-! ## Header lines -/

/-- The key and the value of a line with a colon. -/
def field (line : Bytes) : Option (Bytes × Bytes) :=
  if 58 ∈ line then some (line.takeWhile (· ≠ 58), (line.dropWhile (· ≠ 58)).tail.dropWhile (· = 32)) else none

/-- The last Host field, without a port. -/
def host_of (headers : Headers) : Bytes :=
  headers.foldl (fun host (k, v) => if k = bytes "Host" then beforeLast 58 v else host) []

/-! ## serve_plain -/

/-- The line read so far and what is still to come; no line at the end. -/
def read_line (line : Bytes) : Bytes → Option (Bytes × Bytes)
  | [] => if line = [] then none else some (line, [])
  | c :: stream => if c = 10 then some (line, stream) else read_line (if c ≠ 13 then line ++ [c] else line) stream

/-- The lines up to an empty one, and what follows it. Each round takes a byte at
least. -/
def header_lines : Nat → Bytes → List Bytes × Bytes
  | 0, stream => ([], stream)
  | fuel + 1, stream =>
    match read_line [] stream with
    | none => ([], [])
    | some (line, rest) =>
      if line = [] then ([], rest)
      else (line :: (header_lines fuel rest).1, (header_lines fuel rest).2)

/-- `fread` into a buffer of zeros. -/
def fread (n : Nat) (stream : Bytes) : Bytes := stream.take n ++ List.replicate (n - stream.length) 0

/-- `none` when `stoull` throws. -/
def plain_body (headers : Headers) (stream : Bytes) : Option Bytes :=
  let v := get_header_value headers (bytes "Content-Length")
  if v = [] then some []
  else (stoull v).map fun clen =>
    if 0 < clen.toNat ∧ clen.toNat < 64 * 1024 * 1024 then fread clen.toNat stream else []

/-- `serve_plain` up to the body; `stream` is all that the client sends. -/
def read_plain (stream : Bytes) : Reading :=
  match read_line [] stream with
  | none => .closed
  | some (line, stream) =>
    let (method, rest) := next_word line
    let (path, _) := next_word rest
    let (lines, stream) := header_lines stream.length stream
    let headers := lines.filterMap field
    match plain_body get_header_value headers stream with
    | none => .thrown
    | some body => .request ⟨method, path, bytes "0.0.0.0", headers, body⟩ (host_of headers)

/-! ## serve_tls -/

/-- The loop of `SSL_read` up to the end of the head; `chunks` is what the calls
return, one after the other, until the connection ends. -/
def read_reqbuf (reqbuf : Bytes) : List Bytes → Option (Bytes × List Bytes)
  | [] => if (findSub? (crlf ++ crlf) reqbuf).isSome then some (reqbuf, []) else none
  | chunk :: chunks =>
    if (findSub? (crlf ++ crlf) reqbuf).isSome then some (reqbuf, chunk :: chunks)
    else if (reqbuf ++ chunk).length > 128 * 1024 then some (reqbuf ++ chunk, chunks)
    else read_reqbuf (reqbuf ++ chunk) chunks

/-- `s.substr(pos)`, which throws behind the end. -/
def substr (s : Bytes) (pos : Nat) : Option Bytes := if pos ≤ s.length then some (s.drop pos) else none

/-- One CR at the end is dropped. -/
def drop_cr (line : Bytes) : Bytes := if line.getLast? = some 13 then line.dropLast else line

/-- Method, path and fields. An empty line is passed over, it has no colon. -/
def parse_head (head : Bytes) : Bytes × Bytes × Headers :=
  let (method, rest) := next_word head
  let (path, rest) := next_word rest
  (method, path, (getlines rest).filterMap fun line => field (drop_cr line))

/-- The loop of `SSL_read` over the body. -/
def read_body (clen : Nat) (body : Bytes) : List Bytes → Bytes
  | [] => body
  | chunk :: chunks =>
    if body.length < clen ∧ body.length < 64 * 1024 * 1024 then read_body clen (body ++ chunk) chunks else body

/-- `none` when `stoull` throws. -/
def tls_body (headers : Headers) (body : Bytes) (chunks : List Bytes) : Option Bytes :=
  let v := get_header_value headers (bytes "Content-Length")
  if v = [] then some [] else (stoull v).map fun clen => (read_body clen.toNat body chunks).take clen.toNat

/-- `serve_tls` up to the body. -/
def read_tls (chunks : List Bytes) : Reading :=
  match read_reqbuf [] chunks with
  | none => .closed
  | some (reqbuf, chunks) =>
    let head_end := findSub? (crlf ++ crlf) reqbuf
    -- without an end `head_end` is `npos`: the head is all, and `npos + 4` is 3
    let head := head_end.elim reqbuf reqbuf.take
    match substr reqbuf (head_end.elim 3 (· + 4)) with
    | none => .thrown
    | some body =>
      let (method, path, headers) := parse_head head
      match tls_body get_header_value headers body chunks with
      | none => .thrown
      | some body => .request ⟨method, path, bytes "0.0.0.0", headers, body⟩ (host_of headers)

/-! ## The call upstream -/

/-- A call of the HTTP client; a body goes with its type. -/
structure UpstreamCall where
  target_host : Bytes
  target_port : Int32
  method : Bytes
  path : Bytes
  headers : Headers
  body : Option (Bytes × Bytes)
deriving DecidableEq

/-- The fields that are not passed on. -/
def own_fields : List Bytes :=
  [bytes "host", bytes "connection", bytes "upgrade", bytes "transfer-encoding", bytes "content-length"]

def bare_methods : List Bytes := [bytes "GET", bytes "HEAD", bytes "OPTIONS"]

def body_methods : List Bytes := [bytes "POST", bytes "PUT", bytes "PATCH", bytes "DELETE"]

/-- The call that is made; none for another method, which is answered with 405. -/
def proxy_upstream (target_host : Bytes) (target_port : Int32) (req : Request) : Option UpstreamCall :=
  let hdrs := req.headers.filter (fun f => !own_fields.contains (f.1.map tolower)) ++ [
    (bytes "X-Forwarded-For", req.remote_addr),
    (bytes "X-Forwarded-Proto", bytes "https"),
    (bytes "X-Forwarded-Host", get_header_value req.headers (bytes "Host"))]
  if bare_methods.contains req.method then some ⟨target_host, target_port, req.method, req.path, hdrs, none⟩
  else if body_methods.contains req.method then
    let content_type := get_header_value req.headers (bytes "Content-Type")
    some ⟨target_host, target_port, req.method, req.path, hdrs, some (req.body, content_type)⟩
  else none

/-! ## Routing -/

/-- What the client and the container get to see of a connection. -/
inductive Outcome where
  | closed
  | thrown
  | responded (status : Nat) (text : Bytes)
  | upstream (call : UpstreamCall)
deriving DecidableEq

variable (routes : RouteTable) (nets : ContainerNets)

/-- Where the request goes, and the target it was meant for. -/
inductive Routing where
  | no_route
  | not_running (target : Bytes)
  | target (host : Bytes) (port : Int32)
deriving DecidableEq

def route (host : Bytes) : Routing :=
  match if host.map tolower ≠ [] then lookup_route (host.map tolower) routes else none with
  | none => .no_route
  | some (target, port) => (container_target target nets).elim (.not_running target) fun thost => .target thost port

def respond (req : Request) (host : Bytes) : Outcome :=
  match route routes nets host with
  | .no_route => .responded 404 (bytes "hostely proxy: no route for host '" ++ host.map tolower ++ bytes "'")
  | .not_running target => .responded 502 (bytes "hostely proxy: container '" ++ target ++ bytes "' not running")
  | .target thost port => (proxy_upstream get_header_value thost port req).elim (.responded 405 []) .upstream

def serve (reading : Reading) : Outcome :=
  match reading with
  | .closed => .closed
  | .thrown => .thrown
  | .request req host => respond get_header_value routes nets req host

def serve_plain (stream : Bytes) : Outcome := serve get_header_value routes nets (read_plain get_header_value stream)

def serve_tls (chunks : List Bytes) : Outcome := serve get_header_value routes nets (read_tls get_header_value chunks)

end

end Hostely.Exposure
