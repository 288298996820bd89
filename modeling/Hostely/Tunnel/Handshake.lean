import Hostely.Tunnel.Hello
/-!
# The two ends of the handshake

`tunnel_run` sends its hello and reads the answer of the relay a byte at a time, so
that what comes behind it is left for the session. The two sides agree on whether
the hostname is registered, and neither takes a byte of the other's session.
-/

open Hostely.Lib

namespace Hostely.Tunnel

/-- The line and what is left of the stream. -/
def read_line_plain (out : Bytes) : Bytes → Option (Bytes × Bytes)
  | [] => none
  | c :: stream =>
    if c = 10 then some (out, stream)
    else
      let out := if c ≠ 13 then out ++ [c] else out
      if out.length > 4096 then none else read_line_plain out stream

/-- What `tunnel_run` leaves unread behind the answer that it takes for a registration. -/
def await_reply (stream : Bytes) : Option Bytes :=
  match read_line_plain [] stream with
  | none => none
  | some (reply, rest) => if (bytes "OK").isPrefixOf reply then some rest else none

/-- The relay reads its line by the same loop. -/
theorem read_hello_line (line stream : Bytes) : read_hello line stream = (read_line_plain line stream).map Prod.fst := by
  induction stream generalizing line with
  | nil => rfl
  | cons c stream ih =>
    unfold read_hello read_line_plain
    split
    · rfl
    · dsimp only
      generalize (if c ≠ 13 then line ++ [c] else line) = line
      split
      · rfl
      · exact ih line

/-- What is left is what stands behind the first newline. -/
theorem read_line_plain_rest {out stream line rest : Bytes} (h : read_line_plain out stream = some (line, rest)) :
    ∃ before, stream = before ++ 10 :: rest ∧ ∀ c ∈ before, c ≠ 10 := by
  induction stream generalizing out with
  | nil => cases h
  | cons c stream ih =>
    unfold read_line_plain at h
    split at h
    · rename_i hc
      obtain ⟨-, rfl⟩ := Prod.mk.inj (Option.some.inj h)
      exact ⟨[], by rw [hc]; rfl, by simp⟩
    · rename_i hc
      dsimp only at h
      generalize (if c ≠ 13 then out ++ [c] else out) = out at h
      split at h
      · cases h
      · obtain ⟨before, rfl, hbefore⟩ := ih h
        exact ⟨c :: before, rfl, List.forall_mem_cons.2 ⟨hc, hbefore⟩⟩

/-- A line of text is read as it is, with anything behind it. -/
theorem read_line_plain_text {line : Bytes} (htext : ∀ c ∈ line, c ≠ 10 ∧ c ≠ 13) (hfits : line.length ≤ 4096) (rest : Bytes) :
    read_line_plain [] (line ++ 10 :: rest) = some (line, rest) := by
  have hread : read_hello [] (line ++ 10 :: rest) = some line := by
    rw [read_hello_eq _ _ (Nat.zero_le _), first_line_append htext, List.nil_append, if_pos]
    exact ⟨List.mem_append_right _ List.mem_cons_self, hfits⟩
  rw [read_hello_line] at hread
  obtain ⟨⟨line', rest'⟩, hplain, rfl⟩ := Option.map_eq_some_iff.1 hread
  obtain ⟨before, hsplit, hbefore⟩ := read_line_plain_rest hplain
  -- both are cut at the first newline
  have hcut := congrArg (List.dropWhile (· ≠ 10)) hsplit
  rw [List.dropWhile_append_of_pos fun c hc => decide_eq_true (htext c hc).1,
    List.dropWhile_append_of_pos fun c hc => decide_eq_true (hbefore c hc)] at hcut
  simp only [ne_eq, not_true_eq_false, decide_false, Bool.false_eq_true, not_false_eq_true, List.dropWhile_cons_of_neg,
    List.cons.injEq, true_and] at hcut
  rw [hplain, hcut]

/-! ## The answers -/

section
variable {want : Option Bytes} {fd : Int} {stream rest : Bytes} {r : Registry}

/-- What the relay answers when it registers nothing is no registration. -/
theorem await_refused {sent : String} (hsent : sent = "" ∨ sent = "ERR bad-hello\n" ∨ sent = "ERR bad-token\n" ∨
    sent = "ERR bad-hostname\n" ∨ sent = "ERR hostname-in-use\n") : await_reply (bytes sent) = none := by
  rcases hsent with rfl | rfl | rfl | rfl | rfl <;> decide +kernel

theorem await_ok {host : Bytes} (htext : ∀ c ∈ host, c ≠ 10 ∧ c ≠ 13) (hfits : host.length ≤ 4093) (rest : Bytes) :
    await_reply (bytes "OK " ++ host ++ bytes "\n" ++ rest) = some rest := by
  have hstart : ∀ c ∈ bytes "OK ", c ≠ 10 ∧ c ≠ 13 := by
    have hall : ((bytes "OK ").all fun c => c ≠ 10 && c ≠ 13) = true := by decide +kernel
    simpa using hall
  have hlength : (bytes "OK ").length = 3 := by decide +kernel
  have hnewline : bytes "\n" = [10] := by decide +kernel
  have hline : ∀ c ∈ bytes "OK " ++ host, c ≠ 10 ∧ c ≠ 13 :=
    fun c hc => (List.mem_append.1 hc).elim (hstart c) (htext c)
  have hread := read_line_plain_text hline (by rw [List.length_append, hlength]; omega) rest
  have hok : (bytes "OK").isPrefixOf (bytes "OK " ++ host) = true := by
    have hcut : bytes "OK " = bytes "OK" ++ [32] := by decide +kernel
    rw [hcut, List.append_assoc]
    exact List.isPrefixOf_iff_prefix.2 (List.prefix_append _ _)
  rw [await_reply, hnewline, List.append_assoc, List.singleton_append, hread]
  exact if_pos hok

theorem refused_sent (sent : String) (r : Registry) : (refused sent r).1 = ⟨bytes sent, none⟩ := rfl

/-- What the relay sends in answer to any bytes, by what it registered. -/
theorem origin_hello_sent (want : Option Bytes) (fd : Int) (stream : Bytes) (r : Registry) :
    (∃ host, (origin_hello want fd stream r).1 = ⟨bytes "OK " ++ host ++ bytes "\n", some host⟩ ∧ host.length ≤ 4087 ∧
      host.all hostname_char = true) ∨
    ∃ sent, (origin_hello want fd stream r).1 = ⟨bytes sent, none⟩ ∧ (sent = "" ∨ sent = "ERR bad-hello\n" ∨
      sent = "ERR bad-token\n" ∨ sent = "ERR bad-hostname\n" ∨ sent = "ERR hostname-in-use\n") := by
  unfold origin_hello
  split
  · exact .inr ⟨_, refused_sent _ r, .inl rfl⟩
  · rename_i line hline
    split
    · exact .inr ⟨_, refused_sent _ r, .inr (.inl rfl)⟩
    · rename_i token host hparse
      have hlen : host.length ≤ 4087 := by
        obtain ⟨hcut, hne, -⟩ := parse_hello_eq_some.1 hparse
        have hfits : line.length ≤ 4096 := by
          rw [read_hello_eq _ _ (Nat.zero_le _)] at hline
          split at hline
          · obtain rfl := Option.some.inj hline
            exact ‹_ ∧ _›.2
          · cases hline
        have hstart : (bytes "HSTLY1 ").length = 7 := by decide +kernel
        have hpos := List.length_pos_iff.2 hne
        rw [hcut, List.length_append, List.length_append, List.length_cons, hstart] at hfits
        omega
      unfold check_hello
      split
      · exact .inr ⟨_, refused_sent _ r, .inr (.inr (.inl rfl))⟩
      · split
        · exact .inr ⟨_, refused_sent _ r, .inr (.inr (.inr (.inl rfl)))⟩
        · rename_i hall
          split
          · rename_i r' _
            exact .inr ⟨_, refused_sent _ r', .inr (.inr (.inr (.inr rfl)))⟩
          · exact .inl ⟨host, rfl, hlen, by simpa using hall⟩

/-- Whatever was sent to the relay, the one that reads its answer takes it for a
registration exactly when something was registered, and then has read the answer and
no more. A relay that has registered nothing sends nothing else. -/
theorem handshake_agrees (hrest : (origin_hello want fd stream r).1.registered = none → rest = []) :
    await_reply ((origin_hello want fd stream r).1.sent ++ rest) =
      (origin_hello want fd stream r).1.registered.map fun _ => rest := by
  rcases origin_hello_sent want fd stream r with ⟨host, hadmission, hlen, hall⟩ | ⟨sent, hadmission, hsent⟩
  · rw [hadmission]
    exact await_ok (hostname_char_text hall) (by omega) rest
  · rw [hadmission] at hrest ⊢
    rw [hrest rfl, List.append_nil]
    exact await_refused hsent

end

/-! ## The hello of a client -/

/-- When the relay registers a client that spells its token and hostname so. -/
structure Admissible (want : Option Bytes) (r : Registry) (token hostname : Bytes) : Prop where
  wanted : want = some token
  chars : hostname.all hostname_char = true
  free : r.g_hosts hostname = none
  fits : (hello token hostname).length ≤ 4097

section
variable {want : Option Bytes} {fd : Int} {token hostname frames rest : Bytes} {r : Registry}

theorem hello_text (htoken : ∀ c ∈ token, c ≠ 32 ∧ c ≠ 13 ∧ c ≠ 10) (hname : ∀ c ∈ hostname, c ≠ 10 ∧ c ≠ 13) :
    ∀ c ∈ bytes "HSTLY1 " ++ (token ++ 32 :: hostname), c ≠ 10 ∧ c ≠ 13 := by
  have hstart : ∀ c ∈ bytes "HSTLY1 ", c ≠ 10 ∧ c ≠ 13 := by
    have hall : ((bytes "HSTLY1 ").all fun c => c ≠ 10 && c ≠ 13) = true := by decide +kernel
    simpa using hall
  intro c hc
  rcases List.mem_append.1 hc with hc | hc
  · exact hstart c hc
  · rcases List.mem_append.1 hc with hc | hc
    · exact ⟨(htoken c hc).2.2, (htoken c hc).2.1⟩
    · rcases List.mem_cons.1 hc with rfl | hc
      · decide
      · exact hname c hc

/-- The line is read whole or not at all, and cut as it was put together. -/
theorem origin_hello_client (hne : token ≠ []) (htoken : ∀ c ∈ token, c ≠ 32 ∧ c ≠ 13 ∧ c ≠ 10)
    (hname : ∀ c ∈ hostname, c ≠ 10 ∧ c ≠ 13) :
    origin_hello want fd (hello token hostname ++ frames) r =
      if (hello token hostname).length ≤ 4097 then check_hello want fd token hostname r else refused "" r := by
  have htext := hello_text htoken hname
  have hlength : (hello token hostname).length = (bytes "HSTLY1 " ++ (token ++ 32 :: hostname)).length + 1 := by
    have hlen := congrArg List.length (hello_eq token hostname [])
    simpa only [List.append_nil, List.length_append, List.length_singleton] using hlen
  have hparse : parse_hello (bytes "HSTLY1 " ++ (token ++ 32 :: hostname)) = some (token, hostname) :=
    parse_hello_eq_some.2 ⟨rfl, hne, fun c hc => (htoken c hc).1⟩
  rw [origin_hello, hello_eq, read_hello_eq _ _ (Nat.zero_le _), first_line_append htext, List.nil_append]
  by_cases hfits : (hello token hostname).length ≤ 4097
  · rw [if_pos ⟨List.mem_append_right _ List.mem_cons_self, by omega⟩, if_pos hfits]
    simp only [hparse]
  · rw [if_neg fun h => hfits (by have := h.2; omega), if_neg hfits]

theorem check_hello_admits (hwant : want = some token) (hne : token ≠ []) (hchars : hostname.all hostname_char = true)
    (hfree : r.g_hosts hostname = none) :
    (check_hello want fd token hostname r).1 = ⟨bytes "OK " ++ hostname ++ bytes "\n", some hostname⟩ ∧
      (check_hello want fd token hostname r).2.g_hosts hostname = some fd := by
  subst hwant
  simp [check_hello, hne, hchars, register_host_free hfree]

theorem check_hello_refuses (h : ¬ (want = some token ∧ hostname.all hostname_char = true ∧ r.g_hosts hostname = none)) :
    (check_hello want fd token hostname r).1.registered = none ∧ (check_hello want fd token hostname r).2 = r := by
  unfold check_hello
  split
  · exact ⟨rfl, rfl⟩
  · rename_i hwant
    split
    · exact ⟨rfl, rfl⟩
    · rename_i hchars
      have howned : (r.g_hosts hostname).isSome = true := by
        rw [not_or, not_not] at hwant
        rw [← Option.ne_none_iff_isSome]
        exact fun hfree => h ⟨hwant.2.symm, by simpa using hchars, hfree⟩
      rw [register_host_owned howned]
      exact ⟨rfl, rfl⟩

/-- The hello of a client, from both ends: the client goes on exactly when the relay has
registered this hostname for this connection. Then the client's session finds what the
relay sends behind its answer, and the relay's what the client sends behind its hello;
otherwise the registry is as it was. -/
theorem handshake (hne : token ≠ []) (htoken : ∀ c ∈ token, c ≠ 32 ∧ c ≠ 13 ∧ c ≠ 10) (hname : ∀ c ∈ hostname, c ≠ 10 ∧ c ≠ 13)
    (hrest : (origin_hello want fd (hello token hostname ++ frames) r).1.registered = none → rest = []) :
    (Admissible want r token hostname →
      await_reply ((origin_hello want fd (hello token hostname ++ frames) r).1.sent ++ rest) = some rest ∧
        (origin_hello want fd (hello token hostname ++ frames) r).2.g_hosts hostname = some fd ∧
        (read_line_plain [] (hello token hostname ++ frames)).map Prod.snd = some frames) ∧
    (¬ Admissible want r token hostname →
      await_reply ((origin_hello want fd (hello token hostname ++ frames) r).1.sent ++ rest) = none ∧
        (origin_hello want fd (hello token hostname ++ frames) r).2 = r) := by
  have hreply := handshake_agrees hrest
  rw [origin_hello_client hne htoken hname] at hreply ⊢
  constructor
  · intro h
    obtain ⟨hadmission, howner⟩ := @check_hello_admits _ fd _ _ _ h.wanted hne h.chars h.free
    rw [if_pos h.fits] at hreply ⊢
    refine ⟨by rw [hreply, hadmission]; rfl, howner, ?_⟩
    have hlength : (bytes "HSTLY1 " ++ (token ++ 32 :: hostname)).length ≤ 4096 := by
      have hlen := congrArg List.length (hello_eq token hostname [])
      have hfits := h.fits
      simp only [List.append_nil, List.length_append, List.length_singleton] at hlen hfits ⊢
      omega
    rw [hello_eq, read_line_plain_text (hello_text htoken hname) hlength]
    rfl
  · intro h
    by_cases hfits : (hello token hostname).length ≤ 4097
    · have hnot : ¬ (want = some token ∧ hostname.all hostname_char = true ∧ r.g_hosts hostname = none) :=
        fun ⟨hwant, hchars, hfree⟩ => h ⟨hwant, hchars, hfree, hfits⟩
      obtain ⟨hnone, hsame⟩ := @check_hello_refuses _ fd _ _ _ hnot
      rw [if_pos hfits] at hreply ⊢
      exact ⟨by rw [hreply, hnone]; rfl, hsame⟩
    · rw [if_neg hfits] at hreply ⊢
      exact ⟨hreply, rfl⟩

end

theorem toy_hello : bytes "k3y" ≠ [] ∧ (∀ c ∈ bytes "k3y", c ≠ 32 ∧ c ≠ 13 ∧ c ≠ 10) ∧ ∀ c ∈ bytes "shop.io", c ≠ 10 ∧ c ≠ 13 := by
  have htoken : ((bytes "k3y").all fun c => c ≠ 32 && (c ≠ 13 && c ≠ 10)) = true := by decide +kernel
  have hname : ((bytes "shop.io").all fun c => c ≠ 10 && c ≠ 13) = true := by decide +kernel
  exact ⟨by decide +kernel, by simpa using htoken, by simpa using hname⟩

/-- A client with the token: both sessions begin right behind the two lines. -/
theorem handshake_shop :
    await_reply ((origin_hello (some (bytes "k3y")) 5 (hello (bytes "k3y") (bytes "shop.io") ++ [0, 2]) .empty).1.sent ++ [0, 1]) =
        some [0, 1] ∧
      (origin_hello (some (bytes "k3y")) 5 (hello (bytes "k3y") (bytes "shop.io") ++ [0, 2]) .empty).2.g_hosts (bytes "shop.io") = some 5 ∧
      (read_line_plain [] (hello (bytes "k3y") (bytes "shop.io") ++ [0, 2])).map Prod.snd = some [0, 2] := by
  obtain ⟨hne, htoken, hname⟩ := toy_hello
  have hregistered : (origin_hello (some (bytes "k3y")) 5 (hello (bytes "k3y") (bytes "shop.io") ++ [0, 2]) .empty).1.registered =
      some (bytes "shop.io") := by decide +kernel
  refine (@handshake (some (bytes "k3y")) 5 _ _ [0, 2] [0, 1] .empty hne htoken hname fun h => ?_).1 ⟨rfl, ?_, rfl, ?_⟩
  · rw [hregistered] at h
    cases h
  · decide +kernel
  · decide +kernel

end Hostely.Tunnel
