import Hostely.Exposure.Request
/-!
# How the listeners read

What each loop takes from the connection, and that the only thing that can throw
is the conversion of the Content-Length.
-/

open Hostely.Lib

namespace Hostely.Exposure

variable {get_header_value : Headers → Bytes → Bytes}

/-! ## Lines -/

def without_cr (text : Bytes) : Bytes := text.filter (· ≠ 13)

/-- Not an empty line, to `serve_plain`. -/
def visible (line : Bytes) : Bool := line.any (· ≠ 13)

theorem without_cr_eq_nil {line : Bytes} : without_cr line = [] ↔ visible line = false := by
  simp [without_cr, visible, List.filter_eq_nil_iff]

theorem read_line_eq {l : Bytes} (h : 10 ∉ l) (line stream : Bytes) :
    read_line line (l ++ 10 :: stream) = some (line ++ without_cr l, stream) := by
  induction l generalizing line with
  | nil => simp [read_line, without_cr]
  | cons c l ih =>
    obtain ⟨hc, hl⟩ := not_or.1 (mt List.mem_cons.2 h)
    rw [List.cons_append, read_line, if_neg (Ne.symm hc), ih hl]
    by_cases hr : c = 13 <;> simp [without_cr, hr]

theorem read_line_shorter {line stream l rest : Bytes} (h : read_line line stream = some (l, rest)) :
    rest.length ≤ stream.length - 1 := by
  induction stream generalizing line with
  | nil =>
    unfold read_line at h
    split at h
    · cases h
    · rw [← (Prod.mk.inj (Option.some.inj h)).2]
      exact Nat.le_refl _
  | cons c stream ih =>
    unfold read_line at h
    split at h
    · rw [← (Prod.mk.inj (Option.some.inj h)).2]
      exact Nat.le_refl _
    · exact (ih h).trans (Nat.sub_le _ _)

/-- With enough fuel more of it changes nothing. -/
theorem header_lines_fuel {f g : Nat} {stream : Bytes} (hf : stream.length ≤ f) (hg : stream.length ≤ g) :
    header_lines f stream = header_lines g stream := by
  induction f generalizing g stream with
  | zero =>
    obtain rfl := List.length_eq_zero_iff.1 (Nat.le_zero.1 hf)
    cases g <;> rfl
  | succ f ih =>
    cases g with
    | zero =>
      obtain rfl := List.length_eq_zero_iff.1 (Nat.le_zero.1 hg)
      rfl
    | succ g =>
      unfold header_lines
      cases hread : read_line [] stream with
      | none => rfl
      | some p =>
        obtain ⟨line, rest⟩ := p
        have hlt := read_line_shorter hread
        dsimp only
        rw [ih (g := g) (by omega) (by omega)]

/-- The lines one by one. -/
theorem header_lines_line {l : Bytes} (h : 10 ∉ l) (stream : Bytes) :
    header_lines (l ++ 10 :: stream).length (l ++ 10 :: stream) =
      if visible l then
        (without_cr l :: (header_lines stream.length stream).1, (header_lines stream.length stream).2)
      else ([], stream) := by
  have hlen : (l ++ 10 :: stream).length = (l.length + stream.length) + 1 := by
    simp only [List.length_append, List.length_cons]
    omega
  rw [hlen, header_lines, read_line_eq h, List.nil_append]
  dsimp only
  cases hv : visible l with
  | false => simp [without_cr_eq_nil.2 hv]
  | true =>
    have hne : without_cr l ≠ [] := fun hnil => by simp [without_cr_eq_nil.1 hnil] at hv
    rw [if_neg hne, if_pos rfl, header_lines_fuel (Nat.le_add_left _ _) (Nat.le_refl _)]

/-- Lines that are not empty, up to one that is. -/
theorem header_lines_eq {later : List Bytes} (hlater : ∀ l ∈ later, 10 ∉ l ∧ visible l = true) {blank : Bytes}
    (hblank : ∀ c ∈ blank, c = 13) (stream : Bytes) :
    header_lines (later.flatMap (· ++ [10]) ++ (blank ++ 10 :: stream)).length
        (later.flatMap (· ++ [10]) ++ (blank ++ 10 :: stream)) =
      (later.map without_cr, stream) := by
  induction later with
  | nil =>
    have hv : visible blank = false := by simpa [visible] using hblank
    have hlf : 10 ∉ blank := fun hm => absurd (hblank 10 hm) (by decide)
    rw [List.flatMap_nil, List.nil_append, header_lines_line hlf, hv]
    rfl
  | cons l later ih =>
    obtain ⟨⟨hlf, hv⟩, hlater⟩ := List.forall_mem_cons.1 hlater
    have happend : (l :: later).flatMap (· ++ [10]) ++ (blank ++ 10 :: stream) =
        l ++ 10 :: (later.flatMap (· ++ [10]) ++ (blank ++ 10 :: stream)) := by simp
    rw [happend, header_lines_line hlf, if_pos hv, ih hlater]
    rfl

/-! ## Blocks -/

/-- All that has been read after so many blocks. -/
def received (chunks : List Bytes) (k : Nat) : Bytes := (chunks.take k).flatten

@[simp] theorem received_zero (chunks : List Bytes) : received chunks 0 = [] := rfl

@[simp] theorem received_succ (chunk : Bytes) (chunks : List Bytes) (k : Nat) :
    received (chunk :: chunks) (k + 1) = chunk ++ received chunks k := rfl

theorem received_append (chunks : List Bytes) (k : Nat) : received chunks k ++ (chunks.drop k).flatten = chunks.flatten := by
  rw [received, ← List.flatten_append, List.take_append_drop]

theorem received_length_le (chunks : List Bytes) (k : Nat) : (received chunks k).length ≤ chunks.flatten.length := by
  rw [← received_append chunks k, List.length_append]
  exact Nat.le_add_right _ _

theorem received_add (chunks : List Bytes) (k i : Nat) :
    received chunks (k + i) = received chunks k ++ received (chunks.drop k) i := by
  rw [received, received, received, List.take_add, List.flatten_append]

theorem received_length_mono (chunks : List Bytes) {i j : Nat} (h : i ≤ j) :
    (received chunks i).length ≤ (received chunks j).length := by
  have hpre : chunks.take i <+: chunks.take j := List.take_prefix_take_left h
  obtain ⟨rest, hrest⟩ := hpre
  rw [received, received, ← hrest, List.flatten_append, List.length_append]
  exact Nat.le_add_right _ _

/-- The end of the head is found in what has been read exactly when it is there. -/
theorem end_found {head body buf rest : Bytes}
    (hend : findSub? (crlf ++ crlf) (head ++ (crlf ++ crlf)) = some head.length)
    (hstream : buf ++ rest = head ++ (crlf ++ crlf) ++ body) :
    (findSub? (crlf ++ crlf) buf).isSome = true ↔ head.length + 4 ≤ buf.length := by
  have hfind := findSub?_append hend body
  rw [← hstream] at hfind
  constructor
  · intro hsome
    by_contra hlt
    exact not_infix_of_findSub? hfind (List.prefix_append _ _) (Nat.lt_of_not_le hlt) (findSub?_isSome.1 hsome)
  · intro hlen
    exact Option.isSome_of_eq_some (findSub?_beginning hfind (List.prefix_append _ _) hlen)

/-- What the loop over the head leaves: the blocks up to the first with which the end
is there or more than 128 KiB were read. The test of the length comes after a block,
what was there before is not tested. -/
structure Enough (buf : Bytes) (chunks : List Bytes) (j : Nat) : Prop where
  stops : (findSub? (crlf ++ crlf) (buf ++ received chunks j)).isSome = true ∨ 128 * 1024 < (buf ++ received chunks j).length
  not_found : ∀ m < j, ¬ (findSub? (crlf ++ crlf) (buf ++ received chunks m)).isSome = true
  short : ∀ m < j, m ≠ 0 → (buf ++ received chunks m).length ≤ 128 * 1024

theorem received_cons (buf chunk : Bytes) (chunks : List Bytes) (k : Nat) :
    buf ++ chunk ++ received chunks k = buf ++ received (chunk :: chunks) (k + 1) := by simp

theorem enough_zero {buf : Bytes} (chunks : List Bytes) (h : (findSub? (crlf ++ crlf) buf).isSome = true) :
    Enough buf chunks 0 where
  stops := .inl (by simpa using h)
  not_found := fun m hm => absurd hm (Nat.not_lt_zero m)
  short := fun m hm => absurd hm (Nat.not_lt_zero m)

/-- A block more in front, which is not enough. -/
theorem Enough.succ {buf chunk : Bytes} {chunks : List Bytes} {j : Nat} (h : Enough (buf ++ chunk) chunks j)
    (hbuf : ¬ (findSub? (crlf ++ crlf) buf).isSome = true) (hshort : (buf ++ chunk).length ≤ 128 * 1024) :
    Enough buf (chunk :: chunks) (j + 1) where
  stops := by
    rw [← received_cons]
    exact h.stops
  not_found := fun m hm => by
    cases m with
    | zero => simpa using hbuf
    | succ m =>
      rw [← received_cons]
      exact h.not_found m (Nat.lt_of_succ_lt_succ hm)
  short := fun m hm h0 => by
    cases m with
    | zero => exact absurd rfl h0
    | succ m =>
      rw [← received_cons]
      by_cases hm0 : m = 0
      · subst hm0
        simpa using hshort
      · exact h.short m (Nat.lt_of_succ_lt_succ hm) hm0

theorem read_reqbuf_some {buf reqbuf : Bytes} {chunks rest : List Bytes} (h : read_reqbuf buf chunks = some (reqbuf, rest)) :
    ∃ j, reqbuf = buf ++ received chunks j ∧ rest = chunks.drop j ∧ Enough buf chunks j := by
  induction chunks generalizing buf with
  | nil =>
    unfold read_reqbuf at h
    split at h
    · obtain ⟨rfl, rfl⟩ := Prod.mk.inj (Option.some.inj h)
      exact ⟨0, by simp, rfl, enough_zero _ ‹_›⟩
    · cases h
  | cons chunk chunks ih =>
    unfold read_reqbuf at h
    split at h
    · obtain ⟨rfl, rfl⟩ := Prod.mk.inj (Option.some.inj h)
      exact ⟨0, by simp, rfl, enough_zero _ ‹_›⟩
    · rename_i hbuf
      split at h
      · rename_i hlong
        obtain ⟨rfl, rfl⟩ := Prod.mk.inj (Option.some.inj h)
        refine ⟨1, by simp, rfl, .inr (by simpa using hlong), fun m hm => ?_, fun m hm h0 => absurd (Nat.lt_one_iff.1 hm) h0⟩
        obtain rfl := Nat.lt_one_iff.1 hm
        simpa using hbuf
      · rename_i hshort
        obtain ⟨j, hreqbuf, hrest, henough⟩ := ih h
        exact ⟨j + 1, by rw [hreqbuf, received_cons], hrest, henough.succ hbuf (Nat.le_of_not_lt hshort)⟩

/-- The connection ends before the head does. -/
theorem read_reqbuf_none {buf : Bytes} {chunks : List Bytes} (h : read_reqbuf buf chunks = none) :
    ¬ (findSub? (crlf ++ crlf) (buf ++ chunks.flatten)).isSome = true := by
  induction chunks generalizing buf with
  | nil =>
    unfold read_reqbuf at h
    split at h
    · cases h
    · rename_i hbuf
      simpa using hbuf
  | cons chunk chunks ih =>
    unfold read_reqbuf at h
    split at h
    · cases h
    · split at h
      · cases h
      · rw [List.flatten_cons, ← List.append_assoc]
        exact ih h

/-- The loop over the head stops at the first block that completes it, unless more
than 128 KiB were read before that. -/
theorem read_reqbuf_eq {head body : Bytes} (buf : Bytes) {chunks : List Bytes}
    (hend : findSub? (crlf ++ crlf) (head ++ (crlf ++ crlf)) = some head.length)
    (hstream : buf ++ chunks.flatten = head ++ (crlf ++ crlf) ++ body)
    (htime : ∀ k, 128 * 1024 < (buf ++ received chunks k).length → head.length + 4 ≤ (buf ++ received chunks k).length) :
    ∃ k, read_reqbuf buf chunks = some (buf ++ received chunks k, chunks.drop k) ∧
      head.length + 4 ≤ (buf ++ received chunks k).length ∧ ∀ m < k, (buf ++ received chunks m).length < head.length + 4 := by
  have hfound (k : Nat) : (findSub? (crlf ++ crlf) (buf ++ received chunks k)).isSome = true ↔
      head.length + 4 ≤ (buf ++ received chunks k).length :=
    end_found hend (by rw [List.append_assoc, received_append, hstream])
  cases hread : read_reqbuf buf chunks with
  | none =>
    refine absurd ?_ (read_reqbuf_none hread)
    rw [hstream, findSub?_append hend body, Option.isSome_some]
  | some read =>
    obtain ⟨reqbuf, rest⟩ := read
    obtain ⟨k, rfl, rfl, henough⟩ := read_reqbuf_some hread
    refine ⟨k, rfl, ?_, fun m hm => ?_⟩
    · rcases henough.stops with hhere | hlong
      · exact (hfound k).1 hhere
      · exact htime k hlong
    · exact Nat.lt_of_not_le (mt (hfound m).2 (henough.not_found m hm))

/-- What the loop over the head leaves has an end, or is long. -/
theorem read_reqbuf_enough {buf reqbuf : Bytes} {chunks rest : List Bytes} (h : read_reqbuf buf chunks = some (reqbuf, rest)) :
    (findSub? (crlf ++ crlf) reqbuf).elim 3 (· + 4) ≤ reqbuf.length := by
  obtain ⟨j, rfl, -, henough⟩ := read_reqbuf_some h
  cases hend : findSub? (crlf ++ crlf) (buf ++ received chunks j) with
  | some n => exact (findSub?_eq_some hend).1
  | none =>
    have hlong := henough.stops.resolve_left (by simp [hend])
    rw [Option.elim_none]
    omega

/-- The loop over the body stops at the first block with which there is enough, or
64 MiB. -/
theorem read_body_eq (n : Nat) (b : Bytes) (chunks : List Bytes) :
    ∃ j, read_body n b chunks = b ++ received chunks j ∧
      (∀ i < j, (b ++ received chunks i).length < n ∧ (b ++ received chunks i).length < 64 * 1024 * 1024) ∧
      ((chunks.drop j).flatten = [] ∨ n ≤ (b ++ received chunks j).length ∨
        64 * 1024 * 1024 ≤ (b ++ received chunks j).length) := by
  induction chunks generalizing b with
  | nil => exact ⟨0, by simp [read_body], fun i hi => absurd hi (Nat.not_lt_zero i), .inl rfl⟩
  | cons chunk chunks ih =>
    by_cases hmore : b.length < n ∧ b.length < 64 * 1024 * 1024
    · obtain ⟨j, hread, hbefore, hafter⟩ := ih (b ++ chunk)
      have hsucc (k : Nat) : b ++ chunk ++ received chunks k = b ++ received (chunk :: chunks) (k + 1) := by simp
      refine ⟨j + 1, ?_, fun i hi => ?_, ?_⟩
      · rw [read_body, if_pos hmore, hread, hsucc]
      · cases i with
        | zero => simpa using hmore
        | succ i =>
          rw [← hsucc]
          exact hbefore i (Nat.lt_of_succ_lt_succ hi)
      · rw [← hsucc]
        exact hafter
    · refine ⟨0, by rw [read_body, if_neg hmore]; simp, fun i hi => absurd hi (Nat.not_lt_zero i), .inr ?_⟩
      rw [received_zero, List.append_nil]
      omega

theorem read_body_enough {n : Nat} {b body : Bytes} {chunks : List Bytes} (h : b ++ chunks.flatten = body)
    (hn : n ≤ body.length) :
    n ≤ (read_body n b chunks).length ∨ 64 * 1024 * 1024 ≤ (read_body n b chunks).length := by
  obtain ⟨j, hread, -, hall | henough⟩ := read_body_eq n b chunks
  · refine .inl ?_
    have hbody : b ++ received chunks j = body := by
      rw [← h, ← received_append chunks j, hall, List.append_nil]
    rwa [hread, hbody]
  · rwa [hread]

theorem read_body_beginning {n : Nat} {b body : Bytes} {chunks : List Bytes} (h : b ++ chunks.flatten = body) :
    read_body n b chunks <+: body := by
  obtain ⟨j, hread, -, -⟩ := read_body_eq n b chunks
  refine ⟨(chunks.drop j).flatten, ?_⟩
  rw [hread, ← h, ← received_append chunks j, List.append_assoc]

/-- The body is whole exactly if no block leaves 64 MiB or more of it, and less than
all. -/
theorem read_body_take {n : Nat} {b body : Bytes} {chunks : List Bytes} (h : b ++ chunks.flatten = body)
    (hn : n ≤ body.length) :
    (read_body n b chunks).take n = body.take n ↔
      ∀ i, 64 * 1024 * 1024 ≤ (b ++ received chunks i).length → n ≤ (b ++ received chunks i).length := by
  have hpre : read_body n b chunks <+: body := read_body_beginning h
  have hwhole : (read_body n b chunks).take n = body.take n ↔ n ≤ (read_body n b chunks).length := by
    constructor
    · intro heq
      have hlen := congrArg List.length heq
      simp only [List.length_take] at hlen
      omega
    · intro hle
      obtain ⟨rest, hrest⟩ := hpre
      rw [← hrest, List.take_append_of_le_length hle]
  rw [hwhole]
  constructor
  · intro hle i hi
    obtain ⟨j, hread, hbefore, -⟩ := read_body_eq n b chunks
    rw [hread] at hle
    have hji : j ≤ i := Nat.le_of_not_lt fun hij => absurd (hbefore i hij).2 (Nat.not_lt.2 hi)
    refine hle.trans ?_
    rw [List.length_append, List.length_append]
    exact Nat.add_le_add_left (received_length_mono chunks hji) _
  · intro hall
    rcases read_body_enough h hn with hle | hlong
    · exact hle
    · obtain ⟨j, hread, -, -⟩ := read_body_eq n b chunks
      rw [hread] at hlong ⊢
      exact hall j hlong

/-- How many bytes are taken when there are more than `n`: `n` if that many are to
be read and nothing stops the loop before, or if more are to be read and the first
block that leaves 64 MiB or more leaves `n`. -/
theorem read_body_length_iff {clen n : Nat} {b text : Bytes} {chunks : List Bytes} (h : b ++ chunks.flatten = text)
    (hn : n < text.length) :
    ((read_body clen b chunks).take clen).length = n ↔
      (clen = n ∧ ∀ i, 64 * 1024 * 1024 ≤ (b ++ received chunks i).length → n ≤ (b ++ received chunks i).length) ∨
      (n < clen ∧ 64 * 1024 * 1024 ≤ n ∧
        ∃ i, (b ++ received chunks i).length = n ∧ ∀ m < i, (b ++ received chunks m).length < 64 * 1024 * 1024) := by
  have hmono {i j : Nat} (hij : i ≤ j) : (b ++ received chunks i).length ≤ (b ++ received chunks j).length := by
    rw [List.length_append, List.length_append]
    exact Nat.add_le_add_left (received_length_mono chunks hij) _
  obtain ⟨j, hread, hbefore, hafter⟩ := read_body_eq clen b chunks
  have hall : (chunks.drop j).flatten = [] → n < (b ++ received chunks j).length := by
    intro hnil
    rwa [← h, ← received_append chunks j, hnil, List.append_nil] at hn
  rw [List.length_take, hread]
  constructor
  · intro hlen
    by_cases hclen : clen = n
    · refine .inl ⟨hclen, fun i hi => ?_⟩
      have hji : j ≤ i := Nat.le_of_not_lt fun hij => absurd (hbefore i hij).2 (Nat.not_lt.2 hi)
      have hle := hmono hji
      omega
    · refine .inr ⟨by omega, ?_, j, by omega, fun m hm => (hbefore m hm).2⟩
      rcases hafter with hnil | hafter
      · have hlt := hall hnil
        omega
      · omega
  · rintro (⟨rfl, hgap⟩ | ⟨hlt, hlong, i, hi, hfirst⟩)
    · refine Nat.min_eq_left ?_
      rcases hafter with hnil | henough | hstop
      · exact (hall hnil).le
      · exact henough
      · exact hgap j hstop
    · -- the loop stops at block `i`: before it there was less, after it there is no going on
      have hji : j = i := by
        rcases Nat.lt_trichotomy j i with hji | rfl | hij
        · have hless := hfirst j hji
          have hle := hmono hji.le
          rcases hafter with hnil | hafter
          · have hlt := hall hnil
            omega
          · omega
        · rfl
        · have hless := (hbefore i hij).2
          omega
      rw [hji, hi]
      exact Nat.min_eq_right hlt.le

/-! ## What can throw -/

/-- The value of a Content-Length that can be converted. -/
def Readable (v : Bytes) : Prop := v = [] ∨ ∃ negative n, number v = some (negative, n) ∧ n < 18446744073709551616

/-- The header fields that `serve_plain` reads, when it reads any line at all. -/
def plain_headers (stream : Bytes) : Option Headers :=
  (read_line [] stream).map fun read => (header_lines read.2.length read.2).1.filterMap field

/-- The header fields that `serve_tls` reads, when the connection does not end
before. -/
def tls_headers (chunks : List Bytes) : Option Headers :=
  (read_reqbuf [] chunks).map fun read =>
    (parse_head ((findSub? (crlf ++ crlf) read.1).elim read.1 read.1.take)).2.2

theorem plain_body_eq_none {headers : Headers} (stream : Bytes) :
    plain_body get_header_value headers stream = none ↔ ¬ Readable (get_header_value headers (bytes "Content-Length")) := by
  rw [Readable, ← stoull_isSome, plain_body]
  split
  · simp [*]
  · simp [*]

theorem tls_body_eq_none {headers : Headers} (body : Bytes) (chunks : List Bytes) :
    tls_body get_header_value headers body chunks = none ↔
      ¬ Readable (get_header_value headers (bytes "Content-Length")) := by
  rw [Readable, ← stoull_isSome, tls_body]
  split
  · simp [*]
  · simp [*]

/-- The request that `serve_plain` makes of a first line and what follows it. -/
theorem read_plain_eq (get_header_value : Headers → Bytes → Bytes) {stream line rest : Bytes} {lines : List Bytes} {body : Bytes}
    (hread : read_line [] stream = some (line, rest)) (hlines : header_lines rest.length rest = (lines, body)) :
    read_plain get_header_value stream = (plain_body get_header_value (lines.filterMap field) body).elim .thrown fun b =>
      .request ⟨(next_word line).1, (next_word (next_word line).2).1, bytes "0.0.0.0", lines.filterMap field, b⟩
        (host_of (lines.filterMap field)) := by
  rw [read_plain, hread]
  dsimp only
  rw [hlines]
  cases plain_body get_header_value (lines.filterMap field) body <;> rfl

/-- The request that `serve_tls` makes of what it has read; `substr` does not
throw. -/
theorem read_tls_eq (get_header_value : Headers → Bytes → Bytes) {chunks rest : List Bytes} {reqbuf : Bytes} {head_end : Option Nat}
    (hread : read_reqbuf [] chunks = some (reqbuf, rest)) (hend : findSub? (crlf ++ crlf) reqbuf = head_end) :
    read_tls get_header_value chunks =
      (tls_body get_header_value (parse_head (head_end.elim reqbuf reqbuf.take)).2.2
        (reqbuf.drop (head_end.elim 3 (· + 4))) rest).elim .thrown fun b =>
          let (method, path, headers) := parse_head (head_end.elim reqbuf reqbuf.take)
          .request ⟨method, path, bytes "0.0.0.0", headers, b⟩ (host_of headers) := by
  have henough := read_reqbuf_enough hread
  rw [hend] at henough
  rw [read_tls, hread]
  simp only [hend, substr, if_pos henough]
  cases tls_body get_header_value (parse_head (head_end.elim reqbuf reqbuf.take)).2.2
    (reqbuf.drop (head_end.elim 3 (· + 4))) rest <;> rfl

/-- A head as `serve_tls` reads it, up to the first CR LF CR LF. -/
structure TlsHead where
  text : Bytes
  ends : findSub? (crlf ++ crlf) (text ++ (crlf ++ crlf)) = some text.length

namespace TlsHead

def method (h : TlsHead) : Bytes := (parse_head h.text).1

def headers (h : TlsHead) : Headers := (parse_head h.text).2.2

/-- No block ends with more than 128 KiB read and the end of the head still to
come. -/
def InTime (h : TlsHead) (chunks : List Bytes) : Prop :=
  ∀ k, 128 * 1024 < (received chunks k).length → h.text.length + 4 ≤ (received chunks k).length

end TlsHead

/-- What is read when the end of the head comes in time. -/
theorem read_tls_text (get_header_value : Headers → Bytes → Bytes) (h : TlsHead) {body : Bytes} {chunks : List Bytes}
    (hstream : chunks.flatten = h.text ++ (crlf ++ crlf) ++ body) (htime : h.InTime chunks) :
    ∃ k b, received chunks k = h.text ++ (crlf ++ crlf) ++ b ∧ b ++ (chunks.drop k).flatten = body ∧
      (∀ m < k, (received chunks m).length < h.text.length + 4) ∧
      read_tls get_header_value chunks = (tls_body get_header_value h.headers b (chunks.drop k)).elim .thrown fun b =>
        .request ⟨h.method, (parse_head h.text).2.1, bytes "0.0.0.0", h.headers, b⟩ (host_of h.headers) := by
  obtain ⟨k, hread, hlen, hfirst⟩ := read_reqbuf_eq [] h.ends hstream fun k hk => htime k hk
  simp only [List.nil_append] at hread hlen hfirst
  have hall := received_append chunks k
  rw [hstream] at hall
  have hfour : (h.text ++ (crlf ++ crlf)).length = h.text.length + 4 := by simp [crlf]
  -- the head is all there, so that the rest of what has been read is body
  have hpre : h.text ++ (crlf ++ crlf) <+: received chunks k := by
    refine List.prefix_of_prefix_length_le (List.prefix_append _ body) ⟨_, hall⟩ ?_
    rw [hfour]
    exact hlen
  obtain ⟨b, hb⟩ := hpre
  have hbody : b ++ (chunks.drop k).flatten = body := by
    rw [← hb, List.append_assoc] at hall
    exact List.append_cancel_left hall
  have hend : findSub? (crlf ++ crlf) (received chunks k) = some h.text.length := by
    rw [← hb]
    exact findSub?_append h.ends b
  have hhead : (received chunks k).take h.text.length = h.text := by
    rw [← hb, List.append_assoc, List.take_left]
  have hrest : (received chunks k).drop (h.text.length + 4) = b := by
    rw [← hb, ← hfour, List.drop_left]
  refine ⟨k, b, hb.symm, hbody, hfirst, ?_⟩
  rw [read_tls_eq get_header_value hread hend, Option.elim_some, Option.elim_some, hhead, hrest]
  rfl

theorem read_plain_thrown {stream : Bytes} :
    read_plain get_header_value stream = .thrown ↔
      ∃ headers, plain_headers stream = some headers ∧
        ¬ Readable (get_header_value headers (bytes "Content-Length")) := by
  unfold plain_headers
  cases hread : read_line [] stream with
  | none => simp [read_plain, hread]
  | some read =>
    obtain ⟨line, rest⟩ := read
    rw [read_plain_eq get_header_value hread rfl, Option.map_some]
    simp only [Option.some.injEq, exists_eq_left']
    rw [← plain_body_eq_none (header_lines rest.length rest).2]
    cases plain_body get_header_value ((header_lines rest.length rest).1.filterMap field)
        (header_lines rest.length rest).2 <;> simp

theorem read_tls_thrown {chunks : List Bytes} :
    read_tls get_header_value chunks = .thrown ↔
      ∃ headers, tls_headers chunks = some headers ∧
        ¬ Readable (get_header_value headers (bytes "Content-Length")) := by
  unfold tls_headers
  cases hread : read_reqbuf [] chunks with
  | none => simp [read_tls, hread]
  | some read =>
    obtain ⟨reqbuf, rest⟩ := read
    rw [read_tls_eq get_header_value hread rfl, Option.map_some]
    simp only [Option.some.injEq, exists_eq_left']
    rw [← tls_body_eq_none (reqbuf.drop ((findSub? (crlf ++ crlf) reqbuf).elim 3 (· + 4))) rest]
    cases tls_body get_header_value
        (parse_head ((findSub? (crlf ++ crlf) reqbuf).elim reqbuf reqbuf.take)).2.2
        (reqbuf.drop ((findSub? (crlf ++ crlf) reqbuf).elim 3 (· + 4))) rest <;> simp

theorem serve_thrown {routes : RouteTable} {nets : ContainerNets} {reading : Reading} :
    serve get_header_value routes nets reading = .thrown ↔ reading = .thrown := by
  cases reading with
  | closed => simp [serve]
  | thrown => simp [serve]
  | request req host =>
    simp only [serve, respond, reduceCtorEq, iff_false]
    split
    · exact nofun
    · exact nofun
    · cases proxy_upstream get_header_value _ _ req <;> exact nofun

/-- A handler returns exactly if the Content-Length of the request it reads is
empty or has a number at its start that is less than 2^64. -/
theorem handlers_return_iff (get_header_value : Headers → Bytes → Bytes) (routes : RouteTable) (nets : ContainerNets) :
    (∀ stream, serve_plain get_header_value routes nets stream ≠ .thrown ↔
      ∀ headers, plain_headers stream = some headers → Readable (get_header_value headers (bytes "Content-Length"))) ∧
    (∀ chunks, serve_tls get_header_value routes nets chunks ≠ .thrown ↔
      ∀ headers, tls_headers chunks = some headers → Readable (get_header_value headers (bytes "Content-Length"))) := by
  constructor
  · intro stream
    rw [serve_plain, ne_eq, serve_thrown, read_plain_thrown, not_exists]
    exact forall_congr' fun headers => not_and_not_right
  · intro chunks
    rw [serve_tls, ne_eq, serve_thrown, read_tls_thrown, not_exists]
    exact forall_congr' fun headers => not_and_not_right

/-- The value of a field that is there once: the library returns it as a C string. -/
def only_value (headers : Headers) (key : Bytes) : Bytes :=
  ((headers.find? fun f => f.1.map tolower = key.map tolower).elim [] (·.2)).takeWhile (· ≠ 0)

/-- One route, to a container that runs. -/
def toyRoutes : RouteTable := fun host => if host = bytes "shop.io" then some (bytes "web", 80) else none

def toyNets : ContainerNets := fun name =>
  if name = bytes "web" then some ⟨name, bytes "192.168.64.3", fun _ => none⟩ else none

/-- One value that is no number. -/
theorem bad_length_throws :
    let request := bytes "GET / HTTP/1.1\r\nContent-Length: x\r\n\r\n"
    serve_plain only_value toyRoutes toyNets request = .thrown ∧ serve_tls only_value toyRoutes toyNets [request] = .thrown := by
  decide +kernel

end Hostely.Exposure
