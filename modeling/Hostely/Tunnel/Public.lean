import Hostely.Lib.HttpHead
import Hostely.Tunnel.Hello
/-!
# The public side of the relay

The thread of a public connection reads the head of the first request byte by
byte, takes the hostname from its Host field and asks the registry for it in
lower case. Origins are registered as they spell themselves.
-/

open Hostely.Lib

namespace Hostely.Tunnel

/-- Reads on until the buffer has an empty line, or 64 KiB, or the client stops. -/
def read_head (buf : Bytes) : Bytes → Bytes
  | [] => buf
  | c :: stream =>
    if findSub? (crlf ++ crlf) buf = none ∧ buf.length < 64 * 1024 then read_head (buf ++ [c]) stream else buf

/-- The name in the Host field, without the port; empty when there is none. -/
def public_host (buf : Bytes) : Bytes :=
  match (findSub? (bytes "\r\nHost:") buf).or (findSub? (bytes "\r\nhost:") buf) with
  | none => []
  | some h =>
    let rest := (buf.drop (h + 7)).dropWhile (· = 32)
    let host := match findSub? crlf rest with
      | none => rest
      | some e => rest.take e
    beforeLast 58 host

/-- The hostname that `serve_public` is called with; `none` when 404 is sent
instead. -/
def public_target (stream : Bytes) : Option Bytes :=
  let host := public_host (read_head [] stream)
  if host = [] then none else some (host.map tolower)

/-! ## Reading the head -/

theorem read_head_append {buf head rest : Bytes}
    (h : ∀ pre, pre <+: head → pre ≠ head → findSub? (crlf ++ crlf) (buf ++ pre) = none)
    (hend : findSub? (crlf ++ crlf) (buf ++ head) ≠ none ∨ 64 * 1024 ≤ (buf ++ head).length)
    (hlen : (buf ++ head).length ≤ 64 * 1024) : read_head buf (head ++ rest) = buf ++ head := by
  induction head generalizing buf with
  | nil =>
    rw [List.append_nil] at hend ⊢
    cases rest with
    | nil => rfl
    | cons c rest => exact if_neg fun hc => hend.elim (· hc.1) (Nat.not_le_of_lt hc.2)
  | cons c head ih =>
    have happend : buf ++ c :: head = buf ++ [c] ++ head := by simp
    rw [happend] at hend hlen ⊢
    have hmore : findSub? (crlf ++ crlf) buf = none ∧ buf.length < 64 * 1024 := by
      refine ⟨?_, ?_⟩
      · have hnil := h [] List.nil_prefix (by simp)
        rwa [List.append_nil] at hnil
      · simp only [List.length_append, List.length_singleton] at hlen
        omega
    rw [List.cons_append, read_head, if_pos hmore]
    refine ih (fun pre hpre hne => ?_) hend hlen
    rw [List.append_assoc]
    exact h (c :: pre) (List.cons_prefix_cons.2 ⟨rfl, hpre⟩) fun he => hne (List.cons.inj he).2

/-- Of the head of a request the first 64 KiB are read, whatever comes after it. -/
theorem read_head_take {head : RequestHead} (hwf : head.WellFormed) (rest : Bytes) :
    read_head [] (head.text ++ rest) = head.text.take (64 * 1024) := by
  obtain ⟨n, hfind, hn⟩ := RequestHead.find_end head.line head.fields hwf.line hwf.fields
  have hsplit : head.text ++ rest = head.text.take (64 * 1024) ++ (head.text.drop (64 * 1024) ++ rest) := by
    rw [← List.append_assoc, List.take_append_drop]
  rw [hsplit]
  refine read_head_append (fun pre hpre hne => ?_) ?_ (List.length_take_le _ _)
  · have hshort : pre.length < (head.text.take (64 * 1024)).length :=
      Nat.lt_of_le_of_ne hpre.length_le fun he => hne (hpre.eq_of_length he)
    rw [List.nil_append, findSub?_eq_none]
    exact not_infix_of_findSub? hfind (hpre.trans (List.take_prefix _ _))
      (hshort.trans_le (hn ▸ (List.take_prefix _ _).length_le))
  · rw [List.nil_append]
    by_cases hlen : head.text.length ≤ 64 * 1024
    · rw [List.take_of_length_le hlen]
      exact .inl fun h => Option.some_ne_none _ (hfind.symm.trans h)
    · exact .inr (by rw [List.length_take]; omega)

theorem read_head_text {head : RequestHead} (hwf : head.WellFormed) (hlen : head.text.length ≤ 64 * 1024) (rest : Bytes) :
    read_head [] (head.text ++ rest) = head.text := by
  rw [read_head_take hwf, List.take_of_length_le hlen]

/-! ## The Host field -/

/-- `f` is the Host field of the head, in some letter case. -/
structure HostField (head : RequestHead) (f : Field) : Prop where
  mem : f ∈ head.fields
  name : f.name.map tolower = bytes "host"
  only : ∀ g ∈ head.fields, g.name.map tolower = bytes "host" → g = f

/-- The value is the hostname in some letter case, with spaces before it and a port
after it or not. -/
def Spells (value h : Bytes) : Prop :=
  ∃ spaces spelled port, value = spaces ++ (spelled ++ port) ∧ (∀ c ∈ spaces, c = 32) ∧
    spelled.map tolower = h.map tolower ∧ (port = [] ∨ ∃ digits, (∀ c ∈ digits, isdigit c = true) ∧ port = 58 :: digits)

theorem hostname_char_tolower (c : UInt8) : hostname_char (tolower c) = hostname_char c := by
  have hall : ((List.range 256).all fun n => hostname_char (tolower n.toUInt8) == hostname_char n.toUInt8) = true := by
    decide +kernel
  exact eq_of_beq (forall_byte (p := fun c => hostname_char (tolower c) == hostname_char c) hall c)

theorem all_hostname_char {a b : Bytes} (h : a.map tolower = b.map tolower) (hb : b.all hostname_char = true) :
    a.all hostname_char = true := by
  have hmap : ∀ l : Bytes, (l.map tolower).all hostname_char = l.all hostname_char := by
    intro l
    rw [List.all_map]
    exact congrArg l.all (funext hostname_char_tolower)
  rw [← hmap, h, hmap, hb]

/-- What is read from the value on. -/
theorem host_of_value {spaces h port : Bytes} (hspaces : ∀ c ∈ spaces, c = 32) (hall : h.all hostname_char = true)
    (hport : port = [] ∨ ∃ digits, (∀ c ∈ digits, isdigit c = true) ∧ port = 58 :: digits) (rest : Bytes) :
    (spaces ++ (h ++ port) ++ (crlf ++ rest)).dropWhile (· = 32) = h ++ port ++ (crlf ++ rest) ∧
      findSub? crlf (h ++ port ++ (crlf ++ rest)) = some (h ++ port).length ∧ beforeLast 58 (h ++ port) = h := by
  have hchar : ∀ c ∈ h, c ≠ 13 ∧ c ≠ 32 ∧ c ≠ 58 := by
    intro c hc
    have hchar := List.all_eq_true.1 hall c hc
    refine ⟨?_, ?_, ?_⟩ <;> rintro rfl <;> exact absurd hchar (by decide)
  have hdigit : ∀ c, isdigit c = true → c ≠ 13 ∧ c ≠ 58 := by
    intro c hc
    refine ⟨?_, ?_⟩ <;> rintro rfl <;> exact absurd hc (by decide)
  refine ⟨?_, ?_, ?_⟩
  · rw [List.append_assoc, List.dropWhile_append_of_pos fun c hc => decide_eq_true (hspaces c hc)]
    cases h with
    | nil =>
      rcases hport with rfl | ⟨digits, -, rfl⟩
      · exact List.dropWhile_cons_of_neg (by decide)
      · exact List.dropWhile_cons_of_neg (by decide)
    | cons c h => exact List.dropWhile_cons_of_neg (by simpa using (hchar c List.mem_cons_self).2.1)
  · have hcr : 13 ∉ h ++ port := by
      intro hm
      rcases List.mem_append.1 hm with hm | hm
      · exact (hchar 13 hm).1 rfl
      · rcases hport with rfl | ⟨digits, hdigits, rfl⟩
        · cases hm
        · rcases List.mem_cons.1 hm with hm | hm
          · cases hm
          · exact (hdigit 13 (hdigits 13 hm)).1 rfl
    have hhere : findSub? crlf (crlf ++ rest) = some 0 := if_pos (by simp [crlf, List.isPrefixOf])
    refine (findSub?_skip hcr _).trans ?_
    rw [← crlf, hhere, Option.map_some, Nat.zero_add]
  · rcases hport with rfl | ⟨digits, hdigits, rfl⟩
    · rw [List.append_nil]
      exact beforeLast_none fun hm => (hchar 58 hm).2.2 rfl
    · exact beforeLast_append (fun hm => (hdigit 58 (hdigits 58 hm)).2 rfl) h

/-- One of the two searches finds the Host field if that is its spelling. -/
theorem host_field_found {head : RequestHead} (hwf : head.WellFormed) {f : Field} (hf : HostField head f) (name : Bytes)
    (hlower : name.map tolower = bytes "host") (hcolon : 58 ∉ name) :
    (f.name ≠ name ∧ findSub? (crlf ++ (name ++ [58])) head.text = none) ∨
      (f.name = name ∧ ∃ n rest, findSub? (crlf ++ (name ++ [58])) head.text = some n ∧
        head.text.drop (n + (name.length + 3)) = f.value ++ (crlf ++ rest)) := by
  rcases RequestHead.find_field hcolon head.line head.fields hwf.line hwf.fields with
    ⟨hnone, hfind⟩ | ⟨pre, g, post, hfields, hgn, n, rest, hfind, -, hdrop⟩
  · exact .inl ⟨hnone f hf.mem, hfind⟩
  · have hg : g ∈ head.fields := hfields ▸ List.mem_append_right _ List.mem_cons_self
    obtain rfl := hf.only g hg (hgn ▸ hlower)
    exact .inr ⟨hgn, n, rest, hfind, hdrop⟩

/-- The hostname that is read from a head. -/
theorem public_host_text {head : RequestHead} (hwf : head.WellFormed) {f : Field} (hf : HostField head f)
    {spaces h port : Bytes} (hvalue : f.value = spaces ++ (h ++ port)) (hspaces : ∀ c ∈ spaces, c = 32)
    (hall : h.all hostname_char = true)
    (hport : port = [] ∨ ∃ digits, (∀ c ∈ digits, isdigit c = true) ∧ port = 58 :: digits) :
    public_host head.text = if f.name = bytes "Host" ∨ f.name = bytes "host" then h else [] := by
  have hHost : bytes "\r\nHost:" = crlf ++ (bytes "Host" ++ [58]) := by decide +kernel
  have hhost : bytes "\r\nhost:" = crlf ++ (bytes "host" ++ [58]) := by decide +kernel
  -- what happens at a place where one of the names was found
  have hread : ∀ {n rest}, head.text.drop (n + 7) = f.value ++ (crlf ++ rest) →
      beforeLast 58 (match findSub? crlf ((head.text.drop (n + 7)).dropWhile (· = 32)) with
        | none => (head.text.drop (n + 7)).dropWhile (· = 32)
        | some e => ((head.text.drop (n + 7)).dropWhile (· = 32)).take e) = h := by
    intro n rest hdrop
    obtain ⟨hskip, hcut, hname⟩ := host_of_value hspaces hall hport rest
    rw [hdrop, hvalue, hskip, hcut]
    dsimp only
    rw [List.take_left, hname]
  unfold public_host
  rw [hHost, hhost]
  rcases host_field_found hwf hf (bytes "Host") (by decide +kernel) (by decide +kernel) with
    ⟨hne, hnone⟩ | ⟨heq, n, rest, hfind, hdrop⟩
  · rcases host_field_found hwf hf (bytes "host") (by decide +kernel) (by decide +kernel) with
      ⟨hne', hnone'⟩ | ⟨heq, n, rest, hfind, hdrop⟩
    · rw [hnone, hnone', if_neg (not_or.2 ⟨hne, hne'⟩)]
      rfl
    · rw [hnone, hfind, if_pos (.inr heq)]
      exact hread hdrop
  · rw [hfind, if_pos (.inl heq)]
    exact hread hdrop

/-- A registered hostname is reached by every request that spells it, whoever else
is registered, exactly if it is not empty and registered in lower case, and the
request names the field Host or host. -/
theorem hostname_reachable_iff {head : RequestHead} (hwf : head.WellFormed) (hlen : head.text.length ≤ 64 * 1024)
    {f : Field} (hf : HostField head f) {h : Bytes} (hall : h.all hostname_char = true) (hspells : Spells f.value h)
    (rest : Bytes) :
    (∀ r : Registry, r.Reachable → ∀ fd, r.g_hosts h = some fd →
      ∃ host, public_target (head.text ++ rest) = some host ∧ find_origin host r = fd) ↔
    h ≠ [] ∧ h.map tolower = h ∧ (f.name = bytes "Host" ∨ f.name = bytes "host") := by
  obtain ⟨spaces, spelled, port, hvalue, hspaces, hspelled, hport⟩ := hspells
  have hhost := public_host_text hwf hf hvalue hspaces (all_hostname_char hspelled hall) hport
  unfold public_target
  rw [read_head_text hwf hlen, hhost]
  dsimp only
  constructor
  · intro hserved
    -- the registry that knows nothing else
    have hr : ((register_host h 5 .empty).2).Reachable := Reaches.step (a := .register_host h 5) (.init rfl) rfl
    have howner : (register_host h 5 .empty).2.g_hosts h = some 5 := by
      rw [register_host_free rfl]
      exact Function.update_self _ _ _
    obtain ⟨host, htarget, hfound⟩ := hserved _ hr 5 howner
    have hsame : host = h := by
      by_contra hne
      have hother : (register_host h 5 .empty).2.g_hosts host = none := by
        rw [register_host_free rfl]
        exact Function.update_of_ne hne _ _
      rw [find_origin, hother] at hfound
      cases hfound
    subst hsame
    by_cases hname : f.name = bytes "Host" ∨ f.name = bytes "host"
    · rw [if_pos hname] at htarget
      split at htarget
      · cases htarget
      · rename_i hne
        have hlower := Option.some.inj htarget
        refine ⟨fun h0 => hne ?_, by rw [← hspelled, hlower], hname⟩
        exact List.map_eq_nil_iff.1 (hlower.trans h0)
    · rw [if_neg hname, if_pos rfl] at htarget
      cases htarget
  · rintro ⟨hne, hlower, hname⟩ r - fd howner
    rw [if_pos hname, if_neg, hspelled, hlower]
    · exact ⟨h, rfl, by rw [find_origin, howner]; rfl⟩
    · rintro rfl
      exact hne (hlower.symm.trans hspelled.symm)

/-- A request for a shop, in mixed letter case and with a port. -/
def toyRequest : RequestHead := ⟨bytes "GET / HTTP/1.1", [⟨bytes "Host", bytes " Shop.io:80"⟩, ⟨bytes "Accept", bytes " */*"⟩]⟩

theorem toyRequest_wellFormed : toyRequest.WellFormed := by
  have hline : (toyRequest.line.all fun c => c ≠ 13 && c ≠ 10) = true := by decide +kernel
  have hfields : (toyRequest.fields.all fun f => (f.name.all fun c => c ≠ 13 && c ≠ 10) && !f.name.contains 58 &&
      f.value.all fun c => c ≠ 13 && c ≠ 10) = true := by decide +kernel
  refine ⟨by simpa [Plain] using hline, fun f hf => ?_⟩
  have h := List.all_eq_true.1 hfields f hf
  simp only [Bool.and_eq_true, Bool.not_eq_true', List.contains_eq_mem, decide_eq_false_iff_not] at h
  exact ⟨by simpa [Plain] using h.1.1, h.1.2, by simpa [Plain] using h.2⟩

theorem toyRequest_host : HostField toyRequest ⟨bytes "Host", bytes " Shop.io:80"⟩ := by
  refine ⟨List.mem_cons_self, by decide +kernel, ?_⟩
  intro g hg hname
  rcases List.mem_cons.1 hg with rfl | hg
  · rfl
  · obtain rfl := List.mem_singleton.1 hg
    exact absurd hname (by decide +kernel)

theorem toyRequest_spells (h : Bytes) (hh : (bytes "Shop.io").map tolower = h.map tolower) : Spells (bytes " Shop.io:80") h :=
  ⟨[32], bytes "Shop.io", bytes ":80", by decide +kernel, fun _ hc => List.mem_singleton.1 hc, hh,
    .inr ⟨bytes "80", List.all_eq_true.1 (by decide +kernel), by decide +kernel⟩⟩

theorem hostname_reachable_shop :
    ∃ host, public_target toyRequest.text = some host ∧
      find_origin host (register_host (bytes "shop.io") 5 .empty).2 = 5 := by
  have hr : ((register_host (bytes "shop.io") 5 .empty).2).Reachable :=
    Reaches.step (a := .register_host (bytes "shop.io") 5) (.init rfl) rfl
  have h := (hostname_reachable_iff toyRequest_wellFormed (by decide +kernel) toyRequest_host (h := bytes "shop.io")
    (by decide +kernel) (toyRequest_spells _ (by decide +kernel)) []).2 ⟨by decide +kernel, by decide +kernel, .inl rfl⟩
    _ hr 5 (by decide +kernel)
  rwa [List.append_nil] at h

/-- An origin that registers its hostname with a capital letter gets no request. -/
theorem capital_unreachable :
    (origin_hello (some (bytes "k3y")) 5 (hello (bytes "k3y") (bytes "Shop.io")) .empty).1.registered =
      some (bytes "Shop.io") ∧ Spells (bytes " Shop.io:80") (bytes "Shop.io") ∧
    ¬ ∃ host, public_target toyRequest.text = some host ∧
      find_origin host (origin_hello (some (bytes "k3y")) 5 (hello (bytes "k3y") (bytes "Shop.io")) .empty).2 = 5 := by
  refine ⟨by decide +kernel, toyRequest_spells _ rfl, ?_⟩
  rintro ⟨host, htarget, hfound⟩
  have hlower : public_target toyRequest.text = some (bytes "shop.io") := by decide +kernel
  obtain rfl := Option.some.inj (htarget.symm.trans hlower)
  exact absurd hfound (by decide +kernel)

end Hostely.Tunnel
