import Hostely.Tunnel.Registry
/-!
# The hello of an origin

The first line on the control connection, "HSTLY1 <token> <host>\n": how
`tunnel_run` writes it, and how `origin_thread` reads it byte by byte, cuts it
up and decides about it.
-/

open Hostely.Lib

namespace Hostely.Tunnel

/-- What `tunnel_run` sends first. -/
def hello (token hostname : Bytes) : Bytes := bytes "HSTLY1 " ++ token ++ bytes " " ++ hostname ++ bytes "\n"

/-- The line read so far and what is still to come. The connection is closed, and
there is no line, when the stream ends first and when the line gets too long. -/
def read_hello (line : Bytes) : Bytes → Option Bytes
  | [] => none
  | c :: stream =>
    if c = 10 then some line
    else
      let line := if c ≠ 13 then line ++ [c] else line
      if line.length > 4096 then none else read_hello line stream

/-- The token and the hostname. -/
def parse_hello (line : Bytes) : Option (Bytes × Bytes) :=
  if (bytes "HSTLY1 ").isPrefixOf line then
    match (line.drop 7).findIdx? (· = 32) with
    | none => none
    | some n => if n = 0 then none else some ((line.drop 7).take n, (line.drop 7).drop (n + 1))
  else none

def hostname_char (c : UInt8) : Bool := isalnum c || c = 46 || c = 45

/-- The answer on the connection, empty when it is closed without one, and the
hostname that was registered. -/
structure Admission where
  sent : Bytes
  registered : Option Bytes
deriving DecidableEq

def refused (sent : String) (r : Registry) : Admission × Registry := (⟨bytes sent, none⟩, r)

/-- The decision about a hello that could be read; `want` is what
`getenv("HOSTELY_RELAY_TOKEN")` returns. -/
def check_hello (want : Option Bytes) (fd : Int) (token host : Bytes) (r : Registry) : Admission × Registry :=
  if want.getD [] = [] ∨ some token ≠ want then refused "ERR bad-token\n" r
  else if !host.all hostname_char then refused "ERR bad-hostname\n" r
  else match register_host host fd r with
    | (false, r) => refused "ERR hostname-in-use\n" r
    | (true, r) => (⟨bytes "OK " ++ host ++ bytes "\n", some host⟩, r)

/-- `origin_thread` up to the answer to the hello. -/
def origin_hello (want : Option Bytes) (fd : Int) (stream : Bytes) (r : Registry) : Admission × Registry :=
  match read_hello [] stream with
  | none => refused "" r
  | some line =>
    match parse_hello line with
    | none => refused "ERR bad-hello\n" r
    | some (token, host) => check_hello want fd token host r

/-! ## Reading the line -/

/-- The first line of a stream without its carriage returns. -/
def first_line (stream : Bytes) : Bytes := (stream.takeWhile (· ≠ 10)).filter (· ≠ 13)

theorem read_hello_eq (line stream : Bytes) (h : line.length ≤ 4096) :
    read_hello line stream =
      if 10 ∈ stream ∧ (line ++ first_line stream).length ≤ 4096 then some (line ++ first_line stream) else none := by
  induction stream generalizing line with
  | nil => simp [read_hello]
  | cons c stream ih =>
    unfold read_hello
    by_cases hc : c = 10
    · subst hc
      simp [first_line, h]
    · have hfirst : line ++ first_line (c :: stream) = (if c ≠ 13 then line ++ [c] else line) ++ first_line stream := by
        by_cases hr : c = 13 <;> simp [first_line, hc, hr]
      rw [if_neg hc, hfirst]
      dsimp only
      have hmem : (10 ∈ c :: stream) ↔ 10 ∈ stream := by simp [Ne.symm hc]
      simp only [hmem]
      generalize (if c ≠ 13 then line ++ [c] else line) = next
      split
      · rename_i hlong
        rw [if_neg]
        rintro ⟨-, hlen⟩
        rw [List.length_append] at hlen
        omega
      · exact ih _ (by omega)

/-! ## Cutting it up -/

theorem drop_start (rest : Bytes) : (bytes "HSTLY1 " ++ rest).drop 7 = rest := List.drop_left' (by decide +kernel)

theorem parse_hello_eq_some {line token host : Bytes} :
    parse_hello line = some (token, host) ↔
      line = bytes "HSTLY1 " ++ (token ++ 32 :: host) ∧ token ≠ [] ∧ ∀ c ∈ token, c ≠ 32 := by
  constructor
  · intro h
    unfold parse_hello at h
    split at h
    · rename_i hpre
      obtain ⟨rest, rfl⟩ := List.isPrefixOf_iff_prefix.1 hpre
      rw [drop_start] at h
      split at h
      · cases h
      · rename_i n hn
        split at h
        · cases h
        · rename_i hzero
          obtain ⟨rfl, rfl⟩ := Prod.mk.inj (Option.some.inj h)
          obtain ⟨hlt, hspace, hbefore⟩ := List.findIdx?_eq_some_iff_getElem.1 hn
          have hget : rest[n] = 32 := by simpa using hspace
          have hsplit : rest.take n ++ 32 :: rest.drop (n + 1) = rest := by
            rw [← hget, ← List.drop_eq_getElem_cons hlt, List.take_append_drop]
          refine ⟨by rw [hsplit], ?_, ?_⟩
          · rw [ne_eq, List.take_eq_nil_iff, not_or]
            exact ⟨hzero, fun hnil => by simp [hnil] at hlt⟩
          · intro c hc
            obtain ⟨j, hj, rfl⟩ := List.mem_iff_getElem.1 hc
            rw [List.getElem_take]
            have hjn : j < n := Nat.lt_of_lt_of_le hj (List.length_take_le n rest)
            simpa using hbefore j hjn
    · cases h
  · rintro ⟨rfl, hne, hspace⟩
    have hlen : token.length ≠ 0 := fun h => hne (List.length_eq_zero_iff.1 h)
    unfold parse_hello
    rw [if_pos (List.isPrefixOf_iff_prefix.2 (List.prefix_append _ _)), drop_start, findIdx?_before fun h => hspace 32 h rfl]
    simp [hlen]

/-! ## Who is admitted -/

section
variable {want : Option Bytes} {r : Registry} {fd : Int} {stream token : Bytes}

theorem check_hello_registered (hne : token ≠ []) (t host h : Bytes) :
    (check_hello (some token) fd t host r).1.registered = some h ↔
      t = token ∧ host = h ∧ host.all hostname_char = true ∧ r.g_hosts host = none := by
  unfold check_hello
  by_cases ht : t = token
  · subst ht
    cases hall : host.all hostname_char with
    | false => simp [hne, refused]
    | true =>
      cases hfree : r.g_hosts host with
      | none => simp [hne, register_host_free hfree]
      | some f => simp [hne, register_host_owned (Option.isSome_of_eq_some hfree), refused]
  · simp [ht, refused]

/-- What is not registered changes nothing, what is registered is registered by
`register_host`. -/
theorem check_hello_registry (want : Option Bytes) (t host : Bytes) :
    (check_hello want fd t host r).2 = (check_hello want fd t host r).1.registered.elim r fun h => (register_host h fd r).2 := by
  unfold check_hello
  split
  · rfl
  · split
    · rfl
    · cases hfree : r.g_hosts host with
      | none => simp [register_host_free hfree]
      | some f => simp [register_host_owned (Option.isSome_of_eq_some hfree), refused]

theorem origin_hello_registry (want : Option Bytes) (stream : Bytes) :
    (origin_hello want fd stream r).2 =
      (origin_hello want fd stream r).1.registered.elim r fun h => (register_host h fd r).2 := by
  unfold origin_hello
  split
  · rfl
  · split
    · rfl
    · exact check_hello_registry _ _ _

/-- Without a token nothing is registered. -/
theorem check_hello_unconfigured (hw : want.getD [] = []) (t host : Bytes) : check_hello want fd t host r = refused "ERR bad-token\n" r :=
  if_pos (.inl hw)

/-- With a token configured, a hostname is registered exactly by a hello line with
that token. -/
theorem origin_hello_registered (hne : token ≠ []) (hspace : ∀ c ∈ token, c ≠ 32) (h : Bytes) :
    (origin_hello (some token) fd stream r).1.registered = some h ↔
      read_hello [] stream = some (bytes "HSTLY1 " ++ (token ++ 32 :: h)) ∧ h.all hostname_char = true ∧
        r.g_hosts h = none := by
  have hparse : parse_hello (bytes "HSTLY1 " ++ (token ++ 32 :: h)) = some (token, h) :=
    parse_hello_eq_some.2 ⟨rfl, hne, hspace⟩
  unfold origin_hello
  constructor
  · intro hr
    split at hr
    · cases hr
    · rename_i line hline
      split at hr
      · cases hr
      · rename_i t host hp
        obtain ⟨rfl, rfl, hall, hfree⟩ := (check_hello_registered hne t host h).1 hr
        exact ⟨by rw [hline, (parse_hello_eq_some.1 hp).1], hall, hfree⟩
  · rintro ⟨hline, hall, hfree⟩
    simp only [hline, hparse]
    exact (check_hello_registered hne token h h).2 ⟨rfl, rfl, hall, hfree⟩

end

theorem hostname_char_text {h : Bytes} (hall : h.all hostname_char = true) : ∀ c ∈ h, c ≠ 10 ∧ c ≠ 13 := by
  intro c hc
  have hchar := List.all_eq_true.1 hall c hc
  constructor <;> rintro rfl <;> exact absurd hchar (by decide)

/-- The line of an honest client. -/
theorem hello_eq (token h rest : Bytes) :
    hello token h ++ rest = (bytes "HSTLY1 " ++ (token ++ 32 :: h)) ++ 10 :: rest := by
  have hspace : bytes " " = [32] := by decide +kernel
  have hnewline : bytes "\n" = [10] := by decide +kernel
  simp [hello, hspace, hnewline, List.append_assoc]

/-- Text before the first newline is the first line. -/
theorem first_line_append {line : Bytes} (h : ∀ c ∈ line, c ≠ 10 ∧ c ≠ 13) (rest : Bytes) :
    first_line (line ++ 10 :: rest) = line := by
  unfold first_line
  rw [List.takeWhile_append_of_pos fun c hc => decide_eq_true (h c hc).1]
  simp only [ne_eq, not_true_eq_false, decide_false, Bool.false_eq_true, not_false_eq_true, List.takeWhile_cons_of_neg,
    List.append_nil]
  exact List.filter_eq_self.2 fun c hc => decide_eq_true (h c hc).2

theorem read_hello_honest {token h : Bytes} (htoken : ∀ c ∈ token, c ≠ 32 ∧ c ≠ 13 ∧ c ≠ 10)
    (hall : h.all hostname_char = true) (hfits : (hello token h).length ≤ 4097) (rest : Bytes) :
    read_hello [] (hello token h ++ rest) = some (bytes "HSTLY1 " ++ (token ++ 32 :: h)) := by
  have hstart : ∀ c ∈ bytes "HSTLY1 ", c ≠ 10 ∧ c ≠ 13 := by
    have hall : ((bytes "HSTLY1 ").all fun c => c ≠ 10 && c ≠ 13) = true := by decide +kernel
    simpa using hall
  have htext : ∀ c ∈ bytes "HSTLY1 " ++ (token ++ 32 :: h), c ≠ 10 ∧ c ≠ 13 := by
    intro c hc
    rcases List.mem_append.1 hc with hc | hc
    · exact hstart c hc
    · rcases List.mem_append.1 hc with hc | hc
      · exact ⟨(htoken c hc).2.2, (htoken c hc).2.1⟩
      · rcases List.mem_cons.1 hc with rfl | hc
        · decide
        · exact hostname_char_text hall c hc
  have hline := first_line_append htext rest
  have hlen : (bytes "HSTLY1 " ++ (token ++ 32 :: h)).length ≤ 4096 := by
    have hlen := congrArg List.length (hello_eq token h [])
    simp only [List.append_nil, List.length_append, List.length_cons, List.length_nil] at hlen hfits ⊢
    omega
  rw [hello_eq, read_hello_eq _ _ (by simp), List.nil_append, hline, if_pos]
  exact ⟨List.mem_append_right _ List.mem_cons_self, hlen⟩

/-- Admission is the token check: with a token configured, what is registered is
the free hostname of a first line with exactly that token, and the line of a client
that has the token is read as its token and its hostname; without a token nothing
is registered. -/
theorem admission_exact (fd : Int) (r : Registry) :
    (∀ token, token ≠ [] → (∀ c ∈ token, c ≠ 32 ∧ c ≠ 13 ∧ c ≠ 10) → ∀ stream h,
      (origin_hello (some token) fd stream r).1.registered = some h ↔
        10 ∈ stream ∧ first_line stream = bytes "HSTLY1 " ++ token ++ [32] ++ h ∧ (first_line stream).length ≤ 4096 ∧
          h.all hostname_char = true ∧ r.g_hosts h = none) ∧
    (∀ want stream, (want = none ∨ want = some []) → (origin_hello want fd stream r).1.registered = none) ∧
    (∀ want stream, (origin_hello want fd stream r).2 =
      (origin_hello want fd stream r).1.registered.elim r fun h => (register_host h fd r).2) ∧
    (∀ token h rest, token ≠ [] → (∀ c ∈ token, c ≠ 32 ∧ c ≠ 13 ∧ c ≠ 10) → h.all hostname_char = true →
      (hello token h).length ≤ 4097 →
      (read_hello [] (hello token h ++ rest)).bind parse_hello = some (token, h) ∧
        (r.g_hosts h = none → (origin_hello (some token) fd (hello token h ++ rest) r).1.registered = some h)) := by
  refine ⟨fun token hne htoken stream h => ?_, fun want stream hw => ?_, fun want stream => origin_hello_registry want stream,
    fun token h rest hne htoken hall hfits => ?_⟩
  · rw [origin_hello_registered hne fun c hc => (htoken c hc).1, read_hello_eq _ _ (by simp), List.nil_append]
    have happend : bytes "HSTLY1 " ++ token ++ [32] ++ h = bytes "HSTLY1 " ++ (token ++ 32 :: h) := by simp
    rw [happend]
    constructor
    · rintro ⟨hline, hall, hfree⟩
      split at hline
      · exact ⟨‹_ ∧ _›.1, Option.some.inj hline, ‹_ ∧ _›.2, hall, hfree⟩
      · cases hline
    · rintro ⟨hnewline, hline, hlen, hall, hfree⟩
      rw [if_pos ⟨hnewline, hlen⟩, hline]
      exact ⟨rfl, hall, hfree⟩
  · have hempty : want.getD [] = [] := by rcases hw with rfl | rfl <;> rfl
    unfold origin_hello
    split
    · rfl
    · split
      · rfl
      · rw [check_hello_unconfigured hempty]
        rfl
  · have hspace : ∀ c ∈ token, c ≠ 32 := fun c hc => (htoken c hc).1
    have hread := read_hello_honest htoken hall hfits rest
    refine ⟨?_, fun hfree => (origin_hello_registered hne hspace h).2 ⟨hread, hall, hfree⟩⟩
    rw [hread]
    exact parse_hello_eq_some.2 ⟨rfl, hne, hspace⟩

/-- A client with the token, a client with another one. -/
theorem admission_exact_shop :
    (origin_hello (some (bytes "k3y")) 5 (hello (bytes "k3y") (bytes "shop.io")) .empty).1.registered = some (bytes "shop.io") ∧
      (origin_hello (some (bytes "k3y")) 5 (hello (bytes "key") (bytes "shop.io")) .empty).1.registered ≠
        some (bytes "shop.io") := by
  have h := admission_exact 5 .empty
  have htoken : ∀ c ∈ bytes "k3y", c ≠ 32 ∧ c ≠ 13 ∧ c ≠ 10 := by
    have hall : ((bytes "k3y").all fun c => c ≠ 32 && (c ≠ 13 && c ≠ 10)) = true := by decide +kernel
    simpa using hall
  have hne : bytes "k3y" ≠ [] := by decide +kernel
  refine ⟨?_, fun hother => ?_⟩
  · have hin := (h.2.2.2 (bytes "k3y") (bytes "shop.io") [] hne htoken (by decide +kernel) (by decide +kernel)).2 rfl
    rwa [List.append_nil] at hin
  · exact absurd ((h.1 _ hne htoken _ _).1 hother).2.1 (by decide +kernel)

end Hostely.Tunnel
