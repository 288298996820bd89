import Hostely.Exposure.Reading
import Hostely.Tunnel.Public
import Mathlib.Data.List.Forall2
/-!
# The spelling of Host

Three scanners look for the Host field: the listeners of the proxy take a field named
exactly `Host`, the relay looks for `Host` and then for `host`. So another
spelling of the name changes the host, unless there is no hostname to be read.
-/

open Hostely.Lib Hostely.Tunnel

namespace Hostely.Exposure

theorem field_wellFormed {head : RequestHead} (hwf : head.WellFormed) {pre post : List Field} {f : Field}
    (hfields : head.fields = pre ++ f :: post) : f.WellFormed :=
  hwf.fields f (hfields ▸ List.mem_append_right _ List.mem_cons_self)

/-! ## The three hosts -/

/-- The host of `serve_plain`, as it is looked up. -/
def plain_host (stream : Bytes) : Bytes :=
  match read_line [] stream with
  | none => []
  | some (_, stream) => (host_of ((header_lines stream.length stream).1.filterMap field)).map tolower

/-- The host of `serve_tls`, as it is looked up. -/
def tls_host (chunks : List Bytes) : Bytes :=
  match read_reqbuf [] chunks with
  | none => []
  | some (reqbuf, _) =>
    (host_of (parse_head ((findSub? (crlf ++ crlf) reqbuf).elim reqbuf reqbuf.take)).2.2).map tolower

theorem read_plain_host {get_header_value : Headers → Bytes → Bytes} {stream host : Bytes} {req : Request}
    (h : read_plain get_header_value stream = .request req host) : host.map tolower = plain_host stream := by
  unfold read_plain at h
  unfold plain_host
  cases hread : read_line [] stream with
  | none => simp [hread] at h
  | some p =>
    rw [hread] at h
    dsimp only at h ⊢
    split at h
    · cases h
    · cases h
      rfl

theorem read_tls_host {get_header_value : Headers → Bytes → Bytes} {chunks : List Bytes} {host : Bytes} {req : Request}
    (h : read_tls get_header_value chunks = .request req host) : host.map tolower = tls_host chunks := by
  unfold read_tls at h
  unfold tls_host
  cases hread : read_reqbuf [] chunks with
  | none => simp [hread] at h
  | some p =>
    rw [hread] at h
    dsimp only at h ⊢
    split at h
    · cases h
    · split at h
      · cases h
      · cases h
        rfl

/-! ## Heads and their spellings -/

def is_host (f : Field) : Prop := f.name.map tolower = bytes "host"

instance (f : Field) : Decidable (is_host f) := inferInstanceAs (Decidable (_ = _))

/-- The same field, or the Host field in another spelling. -/
def SameField (f g : Field) : Prop := f = g ∨ (is_host f ∧ is_host g ∧ f.value = g.value)

/-- The same head but for the spelling of the name Host. -/
structure Respelled (head head' : RequestHead) : Prop where
  line : head.line = head'.line
  fields : List.Forall₂ SameField head.fields head'.fields

/-- Whatever follows the heads and however TLS cuts them up, the hosts are the same. -/
structure SameHosts (head head' : RequestHead) : Prop where
  plain : ∀ rest, plain_host (head.text ++ rest) = plain_host (head'.text ++ rest)
  tls : ∀ rest chunks chunks', chunks.flatten = head.text ++ rest → chunks'.flatten = head'.text ++ rest →
    chunks.map List.length = chunks'.map List.length → tls_host chunks = tls_host chunks'
  relay : ∀ rest, public_target (head.text ++ rest) = public_target (head'.text ++ rest)

/-- What is read as the hostname from the value of a Host field. -/
def hostname (value : Bytes) : Bytes := beforeLast 58 (value.dropWhile (· = 32))

/-- No Host field has a hostname, nor do the 64 KiB that the relay reads end with the
CR behind a blank value, which it would take for one. -/
def Nameless (head : RequestHead) : Prop :=
  ∀ pre f post, head.fields = pre ++ f :: post → is_host f → hostname f.value = [] ∧
    ¬ ((∀ c ∈ f.value, c = 32) ∧ (RequestHead.text ⟨head.line, pre ++ [f]⟩).length = 64 * 1024 + 3)

/-! ## Hostnames -/

/-- A beginning of a value without a hostname has none. -/
theorem beforeLast_beginning {a b : Bytes} (h : a <+: b) (hb : beforeLast 58 b = []) : beforeLast 58 a = [] := by
  rw [beforeLast_eq_nil] at hb ⊢
  rcases hb with rfl | ⟨rest, rfl, hrest⟩
  · exact .inl (List.prefix_nil.1 h)
  · cases a with
    | nil => exact .inl rfl
    | cons c a =>
      obtain ⟨rfl, ha⟩ := List.cons_prefix_cons.1 h
      exact .inr ⟨a, rfl, fun hm => hrest (ha.subset hm)⟩

theorem dropWhile_beginning {p : UInt8 → Bool} {a b : Bytes} (h : a <+: b) : a.dropWhile p <+: b.dropWhile p := by
  obtain ⟨rest, rfl⟩ := h
  rw [List.dropWhile_append]
  split
  · rename_i hnil
    rw [List.isEmpty_iff.1 hnil]
    exact List.nil_prefix
  · exact List.prefix_append _ _

theorem hostname_beginning {a b : Bytes} (h : a <+: b) (hb : hostname b = []) : hostname a = [] :=
  beforeLast_beginning (dropWhile_beginning h) hb

theorem Nameless.hostname_nil {head : RequestHead} (hn : Nameless head) {f : Field} (hf : f ∈ head.fields)
    (hname : f.name = bytes "Host") : hostname f.value = [] := by
  obtain ⟨pre, post, hfields⟩ := List.append_of_mem hf
  refine (hn pre f post hfields ?_).1
  rw [is_host, hname]
  decide

/-! ## The plain listener -/

theorem without_cr_plain {line : Bytes} (h : Plain line) : without_cr line = line :=
  List.filter_eq_self.2 fun c hc => decide_eq_true (h c hc).1

/-- What follows the first line of a head. -/
def after_line : List Field → Bytes
  | [] => crlf
  | f :: fields => RequestHead.lines f.text fields

theorem lines_eq (line : Bytes) (fields : List Field) :
    RequestHead.lines line fields = (line ++ [13]) ++ 10 :: after_line fields := by
  cases fields <;> simp [RequestHead.lines, after_line, crlf]

theorem lf_not_mem {line : Bytes} (h : Plain line) : 10 ∉ line ++ [13] := by
  intro hm
  rcases List.mem_append.1 hm with hm | hm
  · exact (h 10 hm).2 rfl
  · exact absurd hm (by decide)

theorem read_line_head {line : Bytes} (h : Plain line) (fields : List Field) (rest : Bytes) :
    read_line [] (RequestHead.lines line fields ++ rest) = some (line, after_line fields ++ rest) := by
  have hline : without_cr (line ++ [13]) = line := by
    rw [without_cr, List.filter_append, ← without_cr, without_cr_plain h]
    simp
  rw [lines_eq, List.append_assoc, List.cons_append, read_line_eq (lf_not_mem h), hline]
  rfl

theorem after_line_eq (fields : List Field) (rest : Bytes) : after_line fields ++ rest =
    (fields.map fun f => f.text ++ [13]).flatMap (· ++ [10]) ++ ([13] ++ 10 :: rest) := by
  induction fields with
  | nil => rfl
  | cons f fields ih =>
    have hsplit : after_line (f :: fields) ++ rest = f.text ++ [13] ++ [10] ++ (after_line fields ++ rest) := by
      rw [after_line, lines_eq]
      simp
    rw [hsplit, ih, List.map_cons, List.flatMap_cons]
    simp only [List.append_assoc]

theorem header_lines_head {fields : List Field} (hfields : ∀ f ∈ fields, f.WellFormed) (rest : Bytes) :
    (header_lines (after_line fields ++ rest).length (after_line fields ++ rest)).1 = fields.map Field.text := by
  have hlater : ∀ l ∈ fields.map fun f => f.text ++ [13], 10 ∉ l ∧ visible l = true := by
    rintro l hl
    obtain ⟨f, hf, rfl⟩ := List.mem_map.1 hl
    exact ⟨lf_not_mem (hfields f hf).plain, by simp [visible, Field.text]⟩
  rw [after_line_eq, header_lines_eq hlater (by simp)]
  dsimp only
  rw [List.map_map]
  refine List.map_congr_left fun f hf => ?_
  rw [Function.comp_apply, without_cr, List.filter_append, ← without_cr, without_cr_plain (hfields f hf).plain]
  simp

theorem field_text {name : Bytes} (h : 58 ∉ name) (value : Bytes) :
    field (name ++ 58 :: value) = some (name, value.dropWhile (· = 32)) := by
  obtain ⟨hname, hvalue⟩ := takeWhile_before h value
  rw [field, if_pos (List.mem_append_right _ List.mem_cons_self), hname, hvalue, List.tail_cons]

/-- The fields as `serve_plain` has them. -/
def head_fields (fields : List Field) : Headers := fields.map fun f => (f.name, f.value.dropWhile (· = 32))

theorem plain_host_head {head : RequestHead} (hwf : head.WellFormed) (rest : Bytes) :
    plain_host (head.text ++ rest) = (host_of (head_fields head.fields)).map tolower := by
  have hfields : (head.fields.map Field.text).filterMap field = head_fields head.fields := by
    rw [List.filterMap_map, head_fields, ← List.filterMap_eq_map]
    exact List.filterMap_congr fun f hf => field_text (hwf.fields f hf).colon f.value
  unfold plain_host RequestHead.text
  rw [read_line_head hwf.line]
  dsimp only
  rw [header_lines_head hwf.fields, hfields]

theorem host_of_snoc (fields : Headers) (f : Bytes × Bytes) :
    host_of (fields ++ [f]) = if f.1 = bytes "Host" then beforeLast 58 f.2 else host_of fields := by
  rw [host_of, List.foldl_append]
  rfl

/-- Fields of other names leave the host alone. -/
theorem host_of_other (a : Headers) {b : Headers} (h : ∀ f ∈ b, f.1 ≠ bytes "Host") : host_of (a ++ b) = host_of a := by
  induction b using List.reverseRecOn with
  | nil => rw [List.append_nil]
  | append_singleton b f ih =>
    obtain ⟨hb, hf⟩ := List.forall_mem_append.1 h
    rw [← List.append_assoc, host_of_snoc, if_neg (hf f List.mem_cons_self), ih hb]

/-- Without a hostname in any of them there is no host. -/
theorem host_of_nil {fields : Headers} (h : ∀ f ∈ fields, f.1 = bytes "Host" → beforeLast 58 f.2 = []) : host_of fields = [] := by
  induction fields using List.reverseRecOn with
  | nil => rfl
  | append_singleton fields f ih =>
    obtain ⟨hfields, hf⟩ := List.forall_mem_append.1 h
    rw [host_of_snoc]
    split
    · exact hf f List.mem_cons_self ‹_›
    · exact ih hfields

theorem plain_host_nil {head : RequestHead} (hwf : head.WellFormed) (hn : Nameless head) (rest : Bytes) :
    plain_host (head.text ++ rest) = [] := by
  rw [plain_host_head hwf, host_of_nil, List.map_nil]
  rintro g hg hname
  obtain ⟨f, hf, rfl⟩ := List.mem_map.1 hg
  exact hn.hostname_nil hf hname

/-! ## The relay -/

/-- What `public_host` reads at a place where it has found the field. -/
def host_at (buf : Bytes) (h : Nat) : Bytes :=
  let rest := (buf.drop (h + 7)).dropWhile (· = 32)
  beforeLast 58 (match findSub? crlf rest with
    | none => rest
    | some e => rest.take e)

theorem public_host_eq (buf : Bytes) : public_host buf =
    ((findSub? (crlf ++ (bytes "Host" ++ [58])) buf).or (findSub? (crlf ++ (bytes "host" ++ [58])) buf)).elim [] (host_at buf) := by
  have hHost : bytes "\r\nHost:" = crlf ++ (bytes "Host" ++ [58]) := by decide +kernel
  have hhost : bytes "\r\nhost:" = crlf ++ (bytes "host" ++ [58]) := by decide +kernel
  rw [public_host, hHost, hhost]
  cases (findSub? (crlf ++ (bytes "Host" ++ [58])) buf).or (findSub? (crlf ++ (bytes "host" ++ [58])) buf) <;> rfl

/-- The buffer ends within the value, or with the CR behind it. -/
theorem host_at_open {buf value : Bytes} {n : Nat} (hdrop : buf.drop (n + 7) = value) (h : 10 ∉ value) :
    host_at buf n = hostname value := by
  have hnone : findSub? crlf (value.dropWhile (· = 32)) = none := by
    refine findSub?_eq_none.2 fun hin => h ?_
    exact (List.dropWhile_sublist _).subset (hin.subset (by decide))
  rw [host_at, hdrop, hnone]
  rfl

theorem host_at_closed {buf value rest : Bytes} {n : Nat} (hdrop : buf.drop (n + 7) = value ++ (crlf ++ rest))
    (h : Plain value) : host_at buf n = hostname value := by
  have hskip : (value ++ (crlf ++ rest)).dropWhile (· = 32) = value.dropWhile (· = 32) ++ (crlf ++ rest) :=
    dropWhile_before (List.dropWhile_cons_of_neg (by decide))
  have hcr : 13 ∉ value.dropWhile (· = 32) := fun hm => h.not_cr ((List.dropWhile_sublist _).subset hm)
  have hhere : findSub? (13 :: [10]) (crlf ++ rest) = some 0 := if_pos (by simp [List.isPrefixOf])
  have hfind : findSub? crlf (value.dropWhile (· = 32) ++ (crlf ++ rest)) = some (value.dropWhile (· = 32)).length := by
    refine (findSub?_skip hcr _).trans ?_
    rw [hhere, Option.map_some, Nat.zero_add]
  rw [host_at, hdrop, hskip, hfind]
  dsimp only
  rw [List.take_left, hostname]

/-- The CR behind a blank value passes for a hostname. -/
theorem hostname_cr {value : Bytes} (h : hostname value = []) : hostname (value ++ [13]) = [] ↔ ¬ ∀ c ∈ value, c = 32 := by
  have hskip : (value ++ [13]).dropWhile (· = 32) = value.dropWhile (· = 32) ++ [13] := dropWhile_before (by decide)
  have hblank : (∀ c ∈ value, c = 32) ↔ value.dropWhile (· = 32) = [] := by simp
  rw [hblank, hostname, hskip]
  rcases beforeLast_eq_nil.1 h with hnil | ⟨rest, hrest, hno⟩
  · rw [hnil]
    decide
  · rw [hrest]
    refine iff_of_true (beforeLast_eq_nil.2 (.inr ⟨rest ++ [13], rfl, ?_⟩)) (List.cons_ne_nil _ _)
    simpa using hno

/-- Where the line of a field ends that is found at `n`. -/
theorem text_snoc_length {line : Bytes} {pre : List Field} {f : Field} {n : Nat}
    (hpos : n + 4 = (RequestHead.lines line pre).length) (hname : f.name.length = 4) :
    (RequestHead.text ⟨line, pre ++ [f]⟩).length = n + (f.value.length + 11) := by
  have htext : f.text.length = 5 + f.value.length := by
    rw [Field.text, List.length_append, List.length_cons, hname]
    omega
  rw [RequestHead.text, RequestHead.length_snoc, ← hpos, htext]
  omega

/-- The relay reads no hostname at the first field of such a name. -/
theorem host_at_nil {head : RequestHead} (hwf : head.WellFormed) (hn : Nameless head) {name : Bytes}
    (hname : name.map tolower = bytes "host") (hcolon : 58 ∉ name) {n : Nat}
    (hfind : findSub? (crlf ++ (name ++ [58])) (head.text.take (64 * 1024)) = some n) :
    host_at (head.text.take (64 * 1024)) n = [] := by
  have hlen : name.length = 4 := by
    have hmap := congrArg List.length hname
    rw [List.length_map] at hmap
    exact hmap.trans (by decide)
  have hin : n + 7 ≤ 64 * 1024 := by
    have hle := (findSub?_eq_some hfind).1
    simp only [List.length_append, List.length_take, hlen, crlf, List.length_cons, List.length_nil] at hle
    omega
  have hwhole : findSub? (crlf ++ (name ++ [58])) head.text = some n := by
    rw [← List.take_append_drop (64 * 1024) head.text]
    exact findSub?_append hfind _
  obtain ⟨-, hnone⟩ | ⟨pre, f, post, hfields, hf, m, rest, hm, hpos, hdrop⟩ :=
    RequestHead.find_field hcolon head.line head.fields hwf.line hwf.fields
  · exact absurd (hwhole.symm.trans hnone) (Option.some_ne_none n)
  obtain rfl := Option.some.inj (hwhole.symm.trans hm)
  obtain ⟨hnil, hcut⟩ := hn pre f post hfields (by rw [is_host, hf, hname])
  have hplain : Plain f.value := (field_wellFormed hwf hfields).value
  have hbuf : (head.text.take (64 * 1024)).drop (n + 7) = (f.value ++ (crlf ++ rest)).take (64 * 1024 - (n + 7)) := by
    rw [List.drop_take, RequestHead.text, ← hdrop, hlen]
  -- the 64 KiB end in the value, right behind its CR, or later
  by_cases hopen : 64 * 1024 - (n + 7) ≤ (f.value ++ [13]).length
  · have hsplit : f.value ++ (crlf ++ rest) = (f.value ++ [13]) ++ 10 :: rest := by simp [crlf]
    rw [hsplit, List.take_append_of_le_length hopen] at hbuf
    rw [host_at_open hbuf fun hm => lf_not_mem hplain ((List.take_sublist _ _).subset hm)]
    rw [List.length_append, List.length_singleton] at hopen
    by_cases hshort : 64 * 1024 - (n + 7) ≤ f.value.length
    · rw [List.take_append_of_le_length hshort]
      exact hostname_beginning (List.take_prefix _ _) hnil
    · rw [List.take_of_length_le (by simp only [List.length_append, List.length_singleton]; omega)]
      refine (hostname_cr hnil).2 fun hblank => hcut ⟨hblank, ?_⟩
      rw [text_snoc_length hpos (hf ▸ hlen)]
      omega
  · rw [List.length_append, List.length_singleton] at hopen
    have hlong : (f.value ++ crlf).length ≤ 64 * 1024 - (n + 7) := by
      simp only [crlf, List.length_append, List.length_cons, List.length_nil]
      omega
    rw [← List.append_assoc, List.take_append, List.take_of_length_le hlong, List.append_assoc] at hbuf
    exact (host_at_closed hbuf hplain).trans hnil

theorem public_target_none {head : RequestHead} (hwf : head.WellFormed) (hn : Nameless head) (rest : Bytes) :
    public_target (head.text ++ rest) = none := by
  have hnil : public_host (head.text.take (64 * 1024)) = [] := by
    rw [public_host_eq]
    cases hfind : findSub? (crlf ++ (bytes "Host" ++ [58])) (head.text.take (64 * 1024)) with
    | some n => exact host_at_nil hwf hn (by decide) (by decide) hfind
    | none =>
      cases hfind' : findSub? (crlf ++ (bytes "host" ++ [58])) (head.text.take (64 * 1024)) with
      | some n => exact host_at_nil hwf hn (by decide) (by decide) hfind'
      | none => rfl
  rw [public_target, read_head_take hwf, hnil]
  rfl

/-! ## The TLS listener -/

/-- A piece of a text stands at its start or behind a newline. -/
theorem piece_place {text l : Bytes} (h : l ∈ splitAt (· = 10) text) : l <+: text ∨ ∃ a, a ++ 10 :: l <+: text := by
  obtain ⟨first, rest, hs, htext⟩ := splitAt_text 10 text
  rw [hs] at h
  rcases List.mem_cons.1 h with rfl | hl
  · exact .inl ⟨_, htext⟩
  · obtain ⟨before, after, rfl⟩ := List.append_of_mem hl
    refine .inr ⟨first ++ before.flatMap (10 :: ·), after.flatMap (10 :: ·), ?_⟩
    rw [← htext]
    simp

/-- A newline is the first one or stands behind it. -/
theorem newline_place {a s u t : Bytes} (hu : 10 ∉ u) (h : a ++ 10 :: s = u ++ 10 :: t) : s = t ∨ ∃ a', a' ++ 10 :: s = t := by
  rcases List.append_eq_append_iff.1 h with ⟨x, rfl, hx⟩ | ⟨x, rfl, hx⟩
  · cases x with
    | nil => exact .inl (List.cons.inj hx).2
    | cons c x => exact absurd (List.mem_append_right a ((List.cons.inj hx).1 ▸ List.mem_cons_self)) hu
  · cases x with
    | nil => exact .inl (List.cons.inj hx).2.symm
    | cons c x => exact .inr ⟨x, (List.cons.inj hx).2.symm⟩

/-- What follows a newline of a head: a field, or no more than the empty line. -/
theorem behind_newline {line : Bytes} {fields : List Field} (hline : Plain line) (hfields : ∀ f ∈ fields, f.WellFormed)
    {a s : Bytes} (h : a ++ 10 :: s = RequestHead.lines line fields) :
    (∃ f ∈ fields, f.text ++ crlf <+: s) ∨ s = crlf ∨ s = [] := by
  induction fields generalizing line a with
  | nil =>
    rw [lines_eq] at h
    rcases newline_place (lf_not_mem hline) h with hs | ⟨a', ha⟩
    · exact .inr (.inl hs)
    · rcases newline_place (u := [13]) (by decide) ha with hs | ⟨a'', ha'⟩
      · exact .inr (.inr hs)
      · exact absurd ha' (by simp)
  | cons f fields ih =>
    obtain ⟨hf, hrest⟩ := List.forall_mem_cons.1 hfields
    rw [lines_eq] at h
    rcases newline_place (lf_not_mem hline) h with rfl | ⟨a', ha⟩
    · obtain ⟨rest, hsplit⟩ := RequestHead.lines_split f.text fields
      refine .inl ⟨f, List.mem_cons_self, rest, ?_⟩
      rw [after_line, hsplit, List.append_assoc]
    · rcases ih hf.plain hrest ha with ⟨g, hg, hpre⟩ | hend
      · exact .inl ⟨g, List.mem_cons_of_mem _ hg, hpre⟩
      · exact .inr hend

theorem drop_cr_plain {line : Bytes} (h : 13 ∉ line) : drop_cr line = line := if_neg fun hlast => h (List.mem_of_getLast? hlast)

/-- A piece of a head behind a newline, which may be cut: without the CR at its end it is
a beginning of a field. -/
theorem piece_field {head : RequestHead} (hwf : head.WellFormed) {a l : Bytes} (hl : 10 ∉ l)
    (h : a ++ 10 :: l <+: head.text) : drop_cr l = [] ∨ ∃ f ∈ head.fields, drop_cr l <+: f.text := by
  obtain ⟨b, hb⟩ := h
  rw [List.append_assoc, List.cons_append] at hb
  -- up to the CR, since the LF behind it is not in the piece
  have hshort {line : Bytes} (hpre : l <+: line ++ crlf) : l = line ++ [13] ∨ l <+: line := by
    have hsplit : line ++ crlf = line ++ [13] ++ [10] := by simp [crlf]
    rw [hsplit, List.prefix_concat_iff, List.prefix_concat_iff] at hpre
    refine hpre.resolve_left fun heq => hl ?_
    rw [heq]
    exact List.mem_append_right _ List.mem_cons_self
  rcases behind_newline hwf.line hwf.fields hb with ⟨f, hf, hpre⟩ | hcrlf | hnil
  · refine .inr ⟨f, hf, ?_⟩
    have hpre : l <+: f.text ++ crlf := by
      refine (List.prefix_or_prefix_of_prefix (List.prefix_append l b) hpre).resolve_right fun h => hl ?_
      exact h.subset (List.mem_append_right _ (by decide))
    rcases hshort hpre with rfl | hpre
    · have hdrop : drop_cr (f.text ++ [13]) = f.text := by simp [drop_cr]
      rw [hdrop]
    · rwa [drop_cr_plain fun hm => (hwf.fields f hf).plain.not_cr (hpre.subset hm)]
  · have hpre : l <+: [] ++ crlf := by rw [List.nil_append, ← hcrlf]; exact List.prefix_append l b
    rcases hshort hpre with rfl | hpre
    · exact .inl rfl
    · rw [List.prefix_nil.1 hpre]
      exact .inl rfl
  · rw [(List.append_eq_nil_iff.1 hnil).1]
    exact .inl rfl

theorem field_beginning {f : Field} (hf : 58 ∉ f.name) {l : Bytes} (h : l <+: f.text) {g : Bytes × Bytes}
    (hg : field l = some g) : ∃ value, value <+: f.value ∧ g = (f.name, value.dropWhile (· = 32)) := by
  have hl : 58 ∈ l := by
    by_contra hno
    simp [field, hno] at hg
  obtain ⟨b, hb⟩ := h
  rcases List.append_eq_append_iff.1 hb with ⟨x, hx, -⟩ | ⟨x, rfl, hx⟩
  · exact absurd (hx ▸ List.mem_append_left x hl) hf
  · cases x with
    | nil => exact absurd hl (by simpa using hf)
    | cons c value =>
      obtain ⟨rfl, hvalue⟩ := List.cons.inj hx
      rw [field_text hf] at hg
      exact ⟨value, ⟨b, hvalue.symm⟩, (Option.some.inj hg).symm⟩

theorem key_beginning {line : Bytes} {g : Bytes × Bytes} (hg : field (drop_cr line) = some g) : g.1 <+: line := by
  have hdrop : drop_cr line <+: line := by
    unfold drop_cr
    split
    · exact List.dropLast_prefix line
    · exact List.prefix_refl line
  unfold field at hg
  split at hg
  · rw [← Option.some.inj hg]
    exact (List.takeWhile_prefix _).trans hdrop
  · cases hg

/-- No beginning of the head has a field named `Host` with a hostname. -/
theorem parse_head_nameless {head : RequestHead} (hwf : head.WellFormed) (hn : Nameless head) {p : Bytes}
    (hp : p <+: head.text) : host_of (parse_head p).2.2 = [] := by
  refine host_of_nil fun g hg hname => ?_
  obtain ⟨hend, hspace⟩ := next_word_end (next_word p).2
  obtain ⟨before, hbefore⟩ := hend.trans (next_word_end p).1
  have hfields : (parse_head p).2.2 = (splitAt (· = 10) (next_word (next_word p).2).2).filterMap fun line => field (drop_cr line) :=
    filterMap_getlines (by decide) _
  rw [hfields] at hg
  obtain ⟨l, hl, hline⟩ := List.mem_filterMap.1 hg
  rcases piece_place hl with hstart | ⟨a, hplace⟩
  · -- the line that the two words have begun goes on with a space
    obtain ⟨rest, hrest⟩ := (key_beginning hline).trans hstart
    rw [hname] at hrest
    exact absurd (hspace 72 (by rw [← hrest]; rfl)) (by decide)
  · have hlf : 10 ∉ l := fun hm => absurd (mem_splitAt hl 10 hm) (by decide)
    have hbehind : (before ++ a) ++ 10 :: l <+: head.text := by
      refine List.IsPrefix.trans ?_ hp
      rw [← hbefore, List.append_assoc]
      exact (List.prefix_append_right_inj before).2 hplace
    rcases piece_field hwf hlf hbehind with hnil | ⟨f, hf, hpre⟩
    · rw [hnil] at hline
      cases hline
    · obtain ⟨value, hvalue, rfl⟩ := field_beginning (hwf.fields f hf).colon hpre hline
      exact hostname_beginning hvalue (hn.hostname_nil hf hname)

theorem tls_host_nil {head : RequestHead} (hwf : head.WellFormed) (hn : Nameless head) {rest : Bytes} {chunks : List Bytes}
    (h : chunks.flatten = head.text ++ rest) : tls_host chunks = [] := by
  unfold tls_host
  cases hread : read_reqbuf [] chunks with
  | none => rfl
  | some read =>
    obtain ⟨reqbuf, left⟩ := read
    obtain ⟨j, hreqbuf, -, -⟩ := read_reqbuf_some hread
    obtain ⟨n, hfind, hlen⟩ := RequestHead.find_end head.line head.fields hwf.line hwf.fields
    have hpre : reqbuf <+: head.text ++ rest := by
      rw [hreqbuf, List.nil_append, ← h, ← received_append chunks j]
      exact List.prefix_append _ _
    have hwhole := findSub?_append hfind rest
    have hshort : (findSub? (crlf ++ crlf) reqbuf).elim reqbuf reqbuf.take <+: head.text := by
      cases hend : findSub? (crlf ++ crlf) reqbuf with
      | none =>
        refine List.prefix_of_prefix_length_le hpre (List.prefix_append _ _) (Nat.le_of_not_lt fun hlt => ?_)
        exact Option.some_ne_none n ((findSub?_beginning hwhole hpre (hlen ▸ hlt.le)).symm.trans hend)
      | some m =>
        obtain ⟨more, hmore⟩ := hpre
        obtain rfl : m = n := Option.some.inj ((findSub?_append hend more).symm.trans (hmore ▸ hwhole))
        refine List.prefix_of_prefix_length_le ((List.take_prefix m reqbuf).trans ⟨more, hmore⟩) (List.prefix_append _ _) ?_
        rw [Option.elim_some, List.length_take, RequestHead.text]
        omega
    dsimp only
    rw [parse_head_nameless hwf hn hshort]
    rfl

/-! ## Spellings -/

theorem SameField.text_length {f g : Field} (h : SameField f g) : f.text.length = g.text.length := by
  rcases h with rfl | ⟨hf, hg, hvalue⟩
  · rfl
  · have hname := congrArg List.length (hf.trans hg.symm)
    rw [List.length_map, List.length_map] at hname
    rw [Field.text, Field.text, List.length_append, List.length_append, List.length_cons, List.length_cons, hname, hvalue]

theorem SameField.is_host_iff {f g : Field} (h : SameField f g) : is_host f ↔ is_host g := by
  rcases h with rfl | ⟨hf, hg, -⟩
  · rfl
  · exact iff_of_true hf hg

theorem SameField.value_eq {f g : Field} (h : SameField f g) : f.value = g.value := by
  rcases h with rfl | ⟨-, -, hvalue⟩
  · rfl
  · exact hvalue

theorem lines_length {line line' : Bytes} (hline : line.length = line'.length) {fields fields' : List Field}
    (h : List.Forall₂ SameField fields fields') :
    (RequestHead.lines line fields).length = (RequestHead.lines line' fields').length := by
  induction h generalizing line line' with
  | nil => simp only [RequestHead.lines, List.length_append, hline]
  | cons hf _ ih => simp only [RequestHead.lines, List.length_append, hline, ih hf.text_length]

/-- The name Host is of one line, however it is spelled. -/
theorem is_host_plain {f : Field} (h : is_host f) : Plain f.name ∧ 58 ∉ f.name := by
  have hlower {c : UInt8} (hc : c ∈ f.name) : tolower c ∈ bytes "host" := h ▸ List.mem_map_of_mem hc
  refine ⟨fun c hc => ⟨?_, ?_⟩, fun hc => absurd (hlower hc) (by decide)⟩
  · rintro rfl
    exact absurd (hlower hc) (by decide)
  · rintro rfl
    exact absurd (hlower hc) (by decide)

theorem SameField.wellFormed {f g : Field} (h : SameField f g) (hf : f.WellFormed) : g.WellFormed := by
  rcases h with rfl | ⟨-, hg, hvalue⟩
  · exact hf
  · exact ⟨(is_host_plain hg).1, (is_host_plain hg).2, hvalue ▸ hf.value⟩

theorem Respelled.wellFormed {head head' : RequestHead} (h : Respelled head head') (hwf : head.WellFormed) : head'.WellFormed := by
  have hall {fields fields' : List Field} (hsame : List.Forall₂ SameField fields fields')
      (hfields : ∀ f ∈ fields, f.WellFormed) : ∀ f ∈ fields', f.WellFormed := by
    induction hsame with
    | nil => exact hfields
    | cons hf _ ih =>
      obtain ⟨hwf, hrest⟩ := List.forall_mem_cons.1 hfields
      exact List.forall_mem_cons.2 ⟨hf.wellFormed hwf, ih hrest⟩
  exact ⟨h.line ▸ hwf.line, hall h.fields hwf.fields⟩

/-- Another spelling gives as little of a hostname. -/
theorem Respelled.nameless {head head' : RequestHead} (h : Respelled head head') (hn : Nameless head) : Nameless head' := by
  intro pre' f' post' hfields' hhost
  have hsame := h.fields
  rw [hfields'] at hsame
  have hpre := List.forall₂_take_append _ _ _ hsame
  obtain ⟨f, post, hf, -, hdrop⟩ := List.forall₂_cons_right_iff.1 (List.forall₂_drop_append _ _ _ hsame)
  have hfields : head.fields = head.fields.take pre'.length ++ f :: post := by rw [← hdrop, List.take_append_drop]
  obtain ⟨hnil, hcut⟩ := hn _ f post hfields (hf.is_host_iff.2 hhost)
  have hlen : (RequestHead.text ⟨head.line, head.fields.take pre'.length ++ [f]⟩).length =
      (RequestHead.text ⟨head'.line, pre' ++ [f']⟩).length :=
    lines_length (congrArg List.length h.line) (List.rel_append hpre (.cons hf .nil))
  rw [hf.value_eq, hlen] at hcut
  exact ⟨hf.value_eq ▸ hnil, hcut⟩

/-- Every Host field in capital letters. -/
def capitals (f : Field) : Field := if is_host f then ⟨bytes "HOST", f.value⟩ else f

theorem capitals_same (f : Field) : SameField f (capitals f) := by
  have hHOST : (bytes "HOST").map tolower = bytes "host" := by decide
  unfold capitals
  split
  · exact .inr ⟨‹_›, hHOST, rfl⟩
  · exact .inl rfl

theorem capitals_map (fields : List Field) : List.Forall₂ SameField fields (fields.map capitals) := by
  rw [List.forall₂_map_right_iff, List.forall₂_same]
  exact fun f _ => capitals_same f

/-- None of the scanners looks for this name. -/
theorem capitals_name {fields : List Field} {name : Bytes} (hname : name.map tolower = bytes "host") (hne : name ≠ bytes "HOST") :
    ∀ f ∈ fields.map capitals, f.name ≠ name := by
  intro g hg heq
  obtain ⟨f, -, rfl⟩ := List.mem_map.1 hg
  unfold capitals at heq
  split at heq
  · exact hne heq.symm
  · rename_i hno
    exact hno (by rw [is_host, heq, hname])

/-- All in capitals but for one. -/
def one_host (head : RequestHead) (pre : List Field) (value : Bytes) (post : List Field) : RequestHead :=
  ⟨head.line, pre.map capitals ++ ⟨bytes "Host", value⟩ :: post.map capitals⟩

section
variable {head : RequestHead} {pre post : List Field} {f : Field}

theorem one_same (hf : is_host f) : SameField f ⟨bytes "Host", f.value⟩ := by
  have hHost : (bytes "Host").map tolower = bytes "host" := by decide
  exact .inr ⟨hf, hHost, rfl⟩

theorem all_capitals_respelled (head : RequestHead) : Respelled head ⟨head.line, head.fields.map capitals⟩ :=
  ⟨rfl, capitals_map head.fields⟩

theorem one_host_respelled (hfields : head.fields = pre ++ f :: post) (hf : is_host f) :
    Respelled head (one_host head pre f.value post) := by
  refine ⟨rfl, ?_⟩
  rw [hfields]
  exact List.rel_append (capitals_map pre) (.cons (one_same hf) (capitals_map post))

theorem plain_host_capitals (hwf : head.WellFormed) :
    plain_host (RequestHead.text ⟨head.line, head.fields.map capitals⟩ ++ []) = [] := by
  rw [plain_host_head ((all_capitals_respelled head).wellFormed hwf), host_of_nil, List.map_nil]
  intro g hg hname
  obtain ⟨f, hf, rfl⟩ := List.mem_map.1 hg
  exact absurd hname (capitals_name (by decide) (by decide) f hf)

theorem plain_host_one (hwf : head.WellFormed) (hfields : head.fields = pre ++ f :: post) (hf : is_host f) :
    plain_host ((one_host head pre f.value post).text ++ []) = (hostname f.value).map tolower := by
  have hpost : ∀ g ∈ head_fields (post.map capitals), g.1 ≠ bytes "Host" := by
    intro g hg hname
    obtain ⟨f, hf, rfl⟩ := List.mem_map.1 hg
    exact capitals_name (by decide) (by decide) f hf hname
  have hsplit : head_fields (one_host head pre f.value post).fields =
      (head_fields (pre.map capitals) ++ [(bytes "Host", f.value.dropWhile (· = 32))]) ++ head_fields (post.map capitals) := by
    simp [head_fields, one_host]
  rw [plain_host_head ((one_host_respelled hfields hf).wellFormed hwf), hsplit, host_of_other _ hpost, host_of_snoc, if_pos rfl]
  rfl

theorem public_target_capitals (hwf : head.WellFormed) :
    public_target (RequestHead.text ⟨head.line, head.fields.map capitals⟩ ++ []) = none := by
  have hwf' := (all_capitals_respelled head).wellFormed hwf
  have hnone {name : Bytes} (hname : name.map tolower = bytes "host") (hne : name ≠ bytes "HOST") (hcolon : 58 ∉ name) :
      findSub? (crlf ++ (name ++ [58]))
        ((RequestHead.text ⟨head.line, head.fields.map capitals⟩).take (64 * 1024)) = none := by
    have hwhole := RequestHead.find_none hcolon head.line (head.fields.map capitals) hwf'.line hwf'.fields (capitals_name hname hne)
    rw [findSub?_eq_none] at hwhole ⊢
    exact fun hin => hwhole (hin.trans (List.take_prefix _ _).isInfix)
  have hnil : public_host ((RequestHead.text ⟨head.line, head.fields.map capitals⟩).take (64 * 1024)) = [] := by
    rw [public_host_eq, hnone (by decide) (by decide) (by decide), hnone (by decide) (by decide) (by decide)]
    rfl
  rw [public_target, read_head_take hwf', hnil]
  rfl

/-- The relay takes the CR behind a blank value for the hostname. -/
theorem public_target_cut (hwf : head.WellFormed) (hfields : head.fields = pre ++ f :: post) (hf : is_host f)
    (hblank : ∀ c ∈ f.value, c = 32) (hlen : (RequestHead.text ⟨head.line, pre ++ [f]⟩).length = 64 * 1024 + 3) :
    public_target ((one_host head pre f.value post).text ++ []) ≠ none := by
  have hwf' := (one_host_respelled hfields hf).wellFormed hwf
  obtain ⟨n, rest, hfind, hpos, hdrop⟩ := RequestHead.find_first (by decide : 58 ∉ bytes "Host") head.line (pre.map capitals)
    (post.map capitals) hwf'.line hwf'.fields (capitals_name (by decide) (by decide)) rfl
  have hfour : (bytes "Host").length = 4 := by decide
  have hn : n + (f.value.length + 11) = 64 * 1024 + 3 := by
    rw [← hlen, ← text_snoc_length (f := ⟨bytes "Host", f.value⟩) hpos hfour]
    exact (lines_length rfl (List.rel_append (capitals_map pre) (.cons (one_same hf) .nil))).symm
  have hplain : Plain f.value := (field_wellFormed hwf hfields).value
  let buf := (one_host head pre f.value post).text.take (64 * 1024)
  have hlong : n + 7 ≤ buf.length := by
    have hwhole := congrArg List.length hdrop
    simp only [List.length_drop, List.length_append, crlf, List.length_cons, List.length_nil, hfour] at hwhole
    have htext : (one_host head pre f.value post).text.length = (RequestHead.lines head.line
      (pre.map capitals ++ ⟨bytes "Host", f.value⟩ :: post.map capitals)).length := rfl
    rw [List.length_take, htext]
    omega
  have hbuf : findSub? (crlf ++ (bytes "Host" ++ [58])) buf = some n := by
    refine findSub?_beginning hfind (List.take_prefix _ _) ?_
    simpa [crlf, hfour] using hlong
  have hrest : buf.drop (n + 7) = f.value ++ [13] := by
    have hsplit : f.value ++ (crlf ++ rest) = (f.value ++ [13]) ++ 10 :: rest := by simp [crlf]
    rw [hfour, hsplit] at hdrop
    have hcut : 64 * 1024 - (n + 7) = (f.value ++ [13]).length := by
      rw [List.length_append, List.length_singleton]
      omega
    rw [List.drop_take, hcut]
    exact (congrArg _ hdrop).trans List.take_left
  have hnil : hostname f.value = [] := by
    rw [hostname, List.dropWhile_eq_nil_iff.2 (by simpa using hblank)]
    rfl
  have hhost : public_host buf ≠ [] := by
    rw [public_host_eq, hbuf]
    exact fun h => (hostname_cr hnil).1 ((host_at_open hrest (lf_not_mem hplain)).symm.trans h) hblank
  rw [public_target, read_head_take hwf']
  exact fun h => absurd (if_neg hhost ▸ h) (Option.some_ne_none _)

/-- The three hosts stay the same under every spelling of the name exactly if there is no
hostname to be read: one spelling is found that gives it, another that does not. -/
theorem same_hosts_iff (head : RequestHead) (hwf : head.WellFormed) :
    (∀ head', Respelled head head' → SameHosts head head') ↔ Nameless head := by
  constructor
  · intro h pre f post hfields hf
    have hall := h _ (all_capitals_respelled head)
    have hone := h _ (one_host_respelled hfields hf)
    constructor
    · have hplain := (hone.plain []).symm.trans (hall.plain [])
      rw [plain_host_one hwf hfields hf, plain_host_capitals hwf] at hplain
      exact List.map_eq_nil_iff.1 hplain
    · rintro ⟨hblank, hlen⟩
      refine public_target_cut hwf hfields hf hblank hlen ?_
      exact (hone.relay []).symm.trans ((hall.relay []).trans (public_target_capitals hwf))
  · intro hn head' hsame
    have hwf' := hsame.wellFormed hwf
    have hn' := hsame.nameless hn
    exact {
      plain := fun rest => (plain_host_nil hwf hn rest).trans (plain_host_nil hwf' hn' rest).symm
      tls := fun rest chunks chunks' h h' _ => (tls_host_nil hwf hn h).trans (tls_host_nil hwf' hn' h').symm
      relay := fun rest => (public_target_none hwf hn rest).trans (public_target_none hwf' hn' rest).symm }

end

/-- A request with a Host field that says nothing. -/
def toyBlank : RequestHead := ⟨bytes "GET / HTTP/1.1", [⟨bytes "Host", []⟩]⟩

theorem same_hosts_blank : toyBlank.WellFormed ∧ ∀ head', Respelled toyBlank head' → SameHosts toyBlank head' := by
  have hwf : toyBlank.WellFormed := by
    refine ⟨by decide +kernel, fun f hf => ?_⟩
    obtain rfl := List.mem_singleton.1 hf
    exact ⟨by decide +kernel, by decide +kernel, by decide +kernel⟩
  refine ⟨hwf, (same_hosts_iff toyBlank hwf).2 fun pre f post hfields _ => ?_⟩
  obtain ⟨rfl, rfl, rfl⟩ : pre = [] ∧ f = ⟨bytes "Host", []⟩ ∧ post = [] := by
    cases pre with
    | nil => exact ⟨rfl, (List.cons.inj hfields).1.symm, (List.cons.inj hfields).2.symm⟩
    | cons g pre => exact absurd (List.cons.inj hfields).2 (by simp)
  exact ⟨by decide, by decide +kernel⟩

/-- The request of the shop in capital letters. -/
def toyLoud : RequestHead := ⟨toyRequest.line, [⟨bytes "HOST", bytes " Shop.io:80"⟩, ⟨bytes "Accept", bytes " */*"⟩]⟩

/-- All three find the host of the one request, and none that of the other. -/
theorem loud_host_lost :
    (plain_host toyRequest.text = bytes "shop.io" ∧ tls_host [toyRequest.text] = bytes "shop.io" ∧
      public_target toyRequest.text = some (bytes "shop.io")) ∧
    (plain_host toyLoud.text = [] ∧ tls_host [toyLoud.text] = [] ∧ public_target toyLoud.text = none) ∧
    ¬ ∀ head head' : RequestHead, head.WellFormed → Respelled head head' → SameHosts head head' := by
  have hfound : plain_host toyRequest.text = bytes "shop.io" := by decide +kernel
  have hlost : plain_host toyLoud.text = [] := by decide +kernel
  refine ⟨⟨hfound, by decide +kernel, by decide +kernel⟩, ⟨hlost, by decide +kernel, by decide +kernel⟩, fun h => ?_⟩
  have hsame : SameField ⟨bytes "Host", bytes " Shop.io:80"⟩ ⟨bytes "HOST", bytes " Shop.io:80"⟩ :=
    .inr ⟨by decide +kernel, by decide +kernel, rfl⟩
  have hplain := (h toyRequest toyLoud toyRequest_wellFormed ⟨rfl, .cons hsame (.cons (.inl rfl) .nil)⟩).plain []
  rw [List.append_nil, List.append_nil, hfound, hlost] at hplain
  exact absurd hplain (by decide)

end Hostely.Exposure
