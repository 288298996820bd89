import Hostely.Models.Integrity
import Hostely.Models.Siblings
/-!
# The size in a manifest

It is what the model API says, or what curl counts. curl counts what it transfers, and
it goes on with a temporary file that an earlier run has left.
-/

open Hostely.Lib

namespace Hostely.Models

/-! ## The line of curl -/

/-- What `-w` prints. -/
def marker_line (http_code size_download time_total : Bytes) : Bytes :=
  bytes "\n" ++ marker ++ http_code ++ bytes ":" ++ size_download ++ bytes ":" ++ time_total ++ bytes "\n"

/-- A number as it is printed. -/
structure Printed (text : Bytes) : Prop where
  nonempty : text ≠ []
  digits : ∀ c ∈ text, isdigit c = true

theorem printed_digits (n : Nat) : Printed (digits 10 n) :=
  ⟨fun hnil => Nat.toDigits_ne_nil (List.map_eq_nil_iff.1 hnil), digits_isdigit n⟩

theorem after_number_printed {d rest : Bytes} (hd : Printed d) (hrest : ∀ c ∈ rest.head?, isdigit c = false) :
    after_number (d ++ rest) = rest := by
  have hdrop := dropWhile_digits hd.digits hrest
  cases d with
  | nil => exact absurd rfl hd.nonempty
  | cons c d =>
    obtain ⟨hspace, hminus, hplus⟩ := isdigit_plain (hd.digits c List.mem_cons_self)
    unfold after_number
    rw [List.cons_append, List.dropWhile_cons_of_neg (by simp [hspace])]
    simpa [hminus, hplus] using hdrop

theorem scan_marker_printed (m : Marker) {http_code size_download : Bytes} (hcode : Printed http_code)
    (hsize : Printed size_download) (hsmall : decimal size_download < 18446744073709551616) (time_total : Bytes) :
    (scan_marker m (http_code ++ 58 :: (size_download ++ 58 :: time_total))).dl_bytes.toNat = decimal size_download := by
  have hcolon (rest : Bytes) : ∀ c ∈ (58 :: rest : Bytes).head?, isdigit c = false := by
    rintro c ⟨⟩
    rfl
  have hnumber := number_digits hcode.digits (hcolon (size_download ++ 58 :: time_total)) hcode.nonempty
  have hnumber' := number_digits hsize.digits (hcolon time_total) hsize.nonempty
  have hafter := after_number_printed hcode (hcolon (size_download ++ 58 :: time_total))
  have hafter' := after_number_printed hsize (hcolon time_total)
  simp only [scan_marker, hnumber, hafter, hnumber', hafter', if_pos hsmall, Bool.false_eq_true, if_false]
  exact Nat.mod_eq_of_lt hsmall

/-- The count is read back from what is printed. -/
theorem read_marker_line {http_code size_download time_total : Bytes} (hcode : Printed http_code) (hsize : Printed size_download)
    (hsmall : decimal size_download < 18446744073709551616) (htime : 10 ∉ time_total) :
    (read_marker (marker_line http_code size_download time_total)).dl_bytes.toNat = decimal size_download := by
  have hplain {d : Bytes} (hd : Printed d) : 10 ∉ d := fun h => absurd (hd.digits 10 h) (by decide)
  have hline : marker_line http_code size_download time_total =
      [] ++ 10 :: ((marker ++ (http_code ++ 58 :: (size_download ++ 58 :: time_total))) ++ 10 :: []) := by
    simp [marker_line, show bytes "\n" = [10] by decide, show bytes ":" = [58] by decide]
  have hno : ∀ c ∈ marker ++ (http_code ++ 58 :: (size_download ++ 58 :: time_total)), decide (c = 10) = false := by
    intro c hc
    rw [decide_eq_false_iff_not]
    rintro rfl
    simp only [List.mem_append, List.mem_cons, hplain hcode, hplain hsize, htime, false_or, or_false] at hc
    exact absurd hc (by decide)
  have hlines : getlines (marker_line http_code size_download time_total) =
      [[], marker ++ (http_code ++ 58 :: (size_download ++ 58 :: time_total))] := by
    unfold getlines
    rw [hline, splitAt_append (by simp) (by decide), splitAt_append hno (by decide)]
    rfl
  have hfind : findSub? marker (marker ++ (http_code ++ 58 :: (size_download ++ 58 :: time_total))) = some 0 :=
    findSub?_of_first (List.prefix_append _ _) nofun
  unfold read_marker
  rw [hlines, List.foldl_cons, List.foldl_cons, List.foldl_nil, show findSub? marker [] = none by decide, hfind]
  dsimp only
  rw [Nat.zero_add, List.drop_left]
  exact scan_marker_printed _ hcode hsize hsmall time_total

/-! ## The paths of a pull -/

section
variable {parse : Bytes → Option Json} {dir : Bytes} {r : Source} {c : PullCall}

theorem best_mem {better : HfSibling → HfSibling → Bool} {sibs : List HfSibling} {s : HfSibling} (h : best better sibs = some s) :
    s ∈ sibs := by
  unfold best at h
  induction sibs using List.reverseRecOn generalizing s with
  | nil => cases h
  | append_singleton sibs a ih =>
    rw [List.foldl_append, List.foldl_cons, List.foldl_nil] at h
    split at h
    · obtain rfl := Option.some.inj h
      simp
    · rename_i b hb
      split at h
      · obtain rfl := Option.some.inj h
        simp
      · obtain rfl := Option.some.inj h
        exact List.mem_append_left _ (ih hb)

theorem pick_sibling_mem {sibs : List HfSibling} {quant : Bytes} {s : HfSibling} (h : pick_sibling sibs quant = some s) :
    s ∈ ggufs sibs := by
  unfold pick_sibling at h
  rcases Option.or_eq_some_iff.1 h with h | ⟨-, h⟩
  · exact List.mem_of_mem_filter (best_mem h)
  · rcases Option.or_eq_some_iff.1 h with h | ⟨-, h⟩
    · exact List.mem_of_mem_filter (best_mem h)
    · exact best_mem h

/-- A size that is known before is that of a GGUF file. -/
theorem source_sized (h : source parse c = .ok r) (hsize : r.size_bytes ≠ 0) : bytes ".gguf" <:+ r.file_in_repo := by
  unfold source at h
  split at h
  · cases h
  · split at h
    · unfold ask_api at h
      split at h
      · split at h
        · cases h
        · split at h
          · cases h
          · rename_i chosen hchosen
            obtain rfl := Except.ok.inj h
            exact List.isSuffixOf_iff_suffix.1 (List.mem_filter.1 (pick_sibling_mem hchosen)).2
      · cases h
    · obtain rfl := Except.ok.inj h
      exact absurd rfl hsize

theorem sidecar_ne_dest (h : source parse c = .ok r) (hsize : r.size_bytes ≠ 0) : r.sidecar dir ≠ r.dest_gguf dir :=
  ne_of_suffix sidecar_suffix (child_suffix (source_sized h hsize)) (x := 108) (y := 102) (by decide) (by decide) (by decide)

end

/-! ## What curl leaves -/

/-- What an earlier run has left of the file. -/
def leftover (dir : Bytes) (files : Files) (r : Source) : Bytes := ((files.lookup (r.tmp_gguf dir)).map File.text).getD []

/-- How `curl -C -` goes on from what was left, and what it prints of it. -/
structure Resumes (dir : Bytes) (files : Files) (r : Source) (c : PullCall) : Prop where
  beginning : leftover dir files r <+: c.remote.text
  resumed : ∀ file, (c.resumed file).text = file.text ++ c.remote.text.drop file.text.length
  small : c.remote.text.length < 18446744073709551616
  printed : c.download.exit_code = 0 → ∃ http_code time_total, Printed http_code ∧ 10 ∉ time_total ∧
    c.download.stdout_text =
      marker_line http_code (digits 10 (c.remote.text.length - (leftover dir files r).length)) time_total

/-- The text that a write puts into the sidecar, if it is opened. -/
def Written.text : Written → Option Bytes
  | .not_opened => none
  | .torn text => some text
  | .whole text => some text

section
variable {parse : Bytes → Option Json} {dir : Bytes} {files : Files} {r : Source} {c : PullCall} {m : Manifest}

theorem Resumes.of_leftover {files' : Files} (h : Resumes dir files r c) (hleft : leftover dir files' r = leftover dir files r) :
    Resumes dir files' r c := by
  obtain ⟨hbeginning, hresumed, hsmall, hprinted⟩ := h
  rw [← hleft] at hbeginning hprinted
  exact ⟨hbeginning, hresumed, hsmall, hprinted⟩

/-- The file is complete. -/
theorem stored_text (h : Resumes dir files r c) : (stored c (files.lookup (r.tmp_gguf dir))).text = c.remote.text := by
  have hbeginning := h.beginning
  unfold leftover at hbeginning
  cases hfile : files.lookup (r.tmp_gguf dir) with
  | none => rfl
  | some file =>
    rw [hfile] at hbeginning
    obtain ⟨rest, hrest⟩ : file.text <+: c.remote.text := hbeginning
    rw [stored, h.resumed, ← hrest, List.drop_left]

theorem counted (h : Resumes dir files r c) (hexit : c.download.exit_code = 0) :
    (read_marker c.download.stdout_text).dl_bytes.toNat = c.remote.text.length - (leftover dir files r).length := by
  obtain ⟨http_code, time_total, hcode, htime, hstdout⟩ := h.printed hexit
  have hsmall : decimal (digits 10 (c.remote.text.length - (leftover dir files r).length)) < 18446744073709551616 := by
    rw [decimal_digits]
    exact (Nat.sub_le _ _).trans_lt h.small
  rw [hstdout, read_marker_line hcode (printed_digits _) hsmall htime, decimal_digits]

theorem lookup_write (size_bytes : UInt64) (now : Bytes) (w : Written) (files : Files) (path : Bytes) :
    ((write_manifest (r.manifest dir size_bytes now) w files).1.lookup path).map File.text =
      if path = r.sidecar dir then w.text.or ((files.lookup path).map File.text) else (files.lookup path).map File.text := by
  have hassign (file : File) : ((assign (r.sidecar dir) file files).lookup path).map File.text =
      if path = r.sidecar dir then some file.text else (files.lookup path).map File.text := by
    rw [lookup_assign]
    by_cases hpath : path = r.sidecar dir <;> simp [hpath]
  cases w with
  | not_opened => exact (ite_self _).symm
  | torn text => exact hassign ⟨text, none⟩
  | whole text => exact hassign _

theorem leftover_write (size_bytes : UInt64) (now : Bytes) (w : Written) :
    leftover dir (write_manifest (r.manifest dir size_bytes now) w files).1 r = leftover dir files r := by
  unfold leftover
  rw [lookup_write, if_neg (sidecar_ne_tmp dir r r).symm]

/-! ## The pull -/

/-- What is written over the data file: the sidecar, if it has the same path. -/
def overwritten (dir : Bytes) (r : Source) (w : Written) : Option Bytes :=
  if r.sidecar dir = r.dest_gguf dir then w.text else none

theorem fetch_ok {s s' : Disk} (h : fetch dir s r c = (s', .ok m)) :
    c.download.exit_code = 0 ∧
      m.size_bytes = (if r.size_bytes = 0 then (read_marker c.download.stdout_text).dl_bytes else r.size_bytes) ∧
      (s'.files.lookup m.path).map File.text =
        some ((overwritten dir r c.written).getD (stored c (s.files.lookup (r.tmp_gguf dir))).text) := by
  unfold fetch at h
  split at h
  · cases (Prod.mk.inj h).2
  · dsimp only at h
    split at h
    · cases (Prod.mk.inj h).2
    · rename_i hran
      rw [not_or, not_ne_iff] at hran
      split at h
      · cases (Prod.mk.inj h).2
      · obtain ⟨rfl, hm⟩ := Prod.mk.inj h
        have hm := Except.ok.inj hm
        have hpath : m.path = r.dest_gguf dir := by
          rw [← hm, apply_ite Manifest.path]
          exact ite_self _
        refine ⟨hran.1, ?_, ?_⟩
        · rw [← hm, apply_ite Manifest.size_bytes]
          exact ite_self _
        · rw [hpath, lookup_write, lookup_assign, beq_self_eq_true, if_pos rfl, Option.map_some, overwritten]
          by_cases hsame : r.dest_gguf dir = r.sidecar dir
          · rw [if_pos hsame, if_pos hsame.symm]
            cases c.written.text <;> rfl
          · rw [if_neg hsame, if_neg (Ne.symm hsame)]
            rfl

theorem already_there_sized (h : already_there dir files r = true) :
    r.size_bytes ≠ 0 ∧ ∃ file, files.lookup (r.dest_gguf dir) = some file ∧ file.text.length = r.size_bytes.toNat := by
  unfold already_there at h
  cases hfile : files.lookup (r.dest_gguf dir) with
  | none =>
    rw [hfile] at h
    cases h
  | some file =>
    rw [hfile] at h
    simp only [Bool.and_eq_true, decide_eq_true_eq] at h
    exact ⟨h.1.2, file, rfl, h.2⟩

/-- The manifest has the size of the file at its path. -/
def Sized (files : Files) (m : Manifest) : Prop := ∃ file, files.lookup m.path = some file ∧ m.size_bytes.toNat = file.text.length

theorem sized_iff {text : Bytes} (h : (files.lookup m.path).map File.text = some text) :
    Sized files m ↔ m.size_bytes.toNat = text.length := by
  obtain ⟨file, hfile, rfl⟩ := Option.map_eq_some_iff.1 h
  unfold Sized
  rw [hfile]
  simp

/-- The size comes from the API, or curl begins with nothing. When the sidecar is
written over the file it must have as many bytes as curl transfers. -/
def Counted (dir : Bytes) (files : Files) (r : Source) (c : PullCall) : Prop :=
  match overwritten dir r c.written with
  | none => r.size_bytes ≠ 0 ∨ leftover dir files r = []
  | some text => text.length = c.remote.text.length - (leftover dir files r).length

theorem sized_fetch {s s' : Disk} (hsource : source parse c = .ok r) (hcurl : Resumes dir s.files r c)
    (hapi : r.size_bytes = 0 ∨ r.size_bytes.toNat = c.remote.text.length) (h : fetch dir s r c = (s', .ok m)) :
    Sized s'.files m ↔ Counted dir s.files r c := by
  obtain ⟨hexit, hsize, hfile⟩ := fetch_ok h
  rw [stored_text hcurl] at hfile
  rw [sized_iff hfile, hsize]
  have hle : (leftover dir s.files r).length ≤ c.remote.text.length := hcurl.beginning.length_le
  have hcounted := counted hcurl hexit
  unfold Counted
  by_cases hzero : r.size_bytes = 0
  · rw [if_pos hzero, hcounted]
    cases overwritten dir r c.written with
    | none =>
      rw [← List.length_eq_zero_iff]
      simp only [hzero, Option.getD_none, ne_eq, not_true_eq_false, false_or]
      omega
    | some text => exact eq_comm
  · rw [if_neg hzero, hapi.resolve_left hzero, overwritten, if_neg (sidecar_ne_dest hsource hzero)]
    exact iff_of_true rfl (.inl hzero)

end

/-- After a pull that succeeds the manifest has the size of its file exactly if the size
was counted right. -/
theorem size_recorded_iff {parse : Bytes → Option Json} {dir : Bytes} {s s' : Disk} {c : PullCall} {r : Source} {m : Manifest}
    (hsource : source parse c = .ok r) (hcurl : Resumes dir s.files r c)
    (hapi : r.size_bytes = 0 ∨ r.size_bytes.toNat = c.remote.text.length) (h : pull parse dir s c = (s', .ok m)) :
    Sized s'.files m ↔ Counted dir s.files r c := by
  unfold pull at h
  rw [hsource] at h
  dsimp only at h
  unfold store at h
  split at h
  · rename_i hthere
    obtain ⟨hzero, file, hfile, hlength⟩ := already_there_sized hthere
    have hne := @sidecar_ne_dest parse dir r c hsource hzero
    have hcounted : Counted dir s.files r c := by
      rw [Counted, overwritten, if_neg hne]
      exact .inl hzero
    dsimp only at h
    split at h
    · obtain ⟨rfl, hm⟩ := Prod.mk.inj h
      obtain rfl := Except.ok.inj hm
      refine iff_of_true ((sized_iff ?_).2 hlength.symm) hcounted
      show ((write_manifest (r.manifest dir r.size_bytes c.now) c.first_written s.files).1.lookup (r.dest_gguf dir)).map File.text = _
      rw [lookup_write, if_neg hne.symm, hfile]
      rfl
    · have hleft := @leftover_write dir s.files r r.size_bytes c.now c.first_written
      have hfetch := sized_fetch hsource (hcurl.of_leftover hleft) hapi h
      unfold Counted at hfetch ⊢
      rwa [hleft] at hfetch
  · exact sized_fetch hsource hcurl hapi h

/-! ## A download that is resumed -/

/-- A file of three bytes, pulled when some of them are there. -/
def resuming (left : Bytes) : PullCall :=
  { pulled (bytes "user/repo/model.gguf") [1, 2, 3] with
    download := ⟨0, marker_line (bytes "200") (digits 10 (3 - left.length)) (bytes "0.5"), []⟩
    resumed := fun file => ⟨file.text ++ [1, 2, 3].drop file.text.length, none⟩ }

def interrupted (left : Bytes) : Disk := ⟨[(bytes "/models/model.gguf.tmp", ⟨left, none⟩)], []⟩

def resumption (left : Bytes) : Disk × Except PullError Manifest :=
  pull (fun _ => none) models.path (interrupted left) (resuming left)

/-- What there is to pull. -/
def toy_source : Source :=
  ⟨bytes "user/repo", [], bytes "model.gguf", bytes "https://huggingface.co/user/repo/resolve/main/model.gguf", 0, []⟩

theorem resuming_source (left : Bytes) : source (fun _ => none) (resuming left) = .ok toy_source := by
  rfl

theorem interrupted_leftover (left : Bytes) : leftover models.path (interrupted left).files toy_source = left := by
  have htmp : toy_source.tmp_gguf models.path = bytes "/models/model.gguf.tmp" := by decide +kernel
  unfold leftover
  rw [htmp]
  simp [interrupted]

theorem resuming_resumes {left : Bytes} (h : left <+: [1, 2, 3]) :
    Resumes models.path (interrupted left).files toy_source (resuming left) := by
  have hremote : (resuming left).remote.text = [1, 2, 3] := rfl
  have hcode : Printed (bytes "200") := ⟨by decide, by decide +kernel⟩
  have htime : 10 ∉ bytes "0.5" := by decide
  refine ⟨?_, fun _ => rfl, ?_, fun _ => ⟨bytes "200", bytes "0.5", hcode, htime, ?_⟩⟩
  · rwa [interrupted_leftover, hremote]
  · rw [hremote]
    decide
  · rw [interrupted_leftover]
    rfl

theorem resumption_ok {left : Bytes} {m : Manifest} (h : (resumption left).2 = .ok m) :
    pull (fun _ => none) models.path (interrupted left) (resuming left) = ((resumption left).1, .ok m) := Prod.ext rfl h

/-- Nothing was left, and the size is right. -/
theorem resumption_sized : ∃ m, (resumption []).2 = .ok m ∧ Sized (resumption []).1.files m := by
  have hok : (resumption []).2.isOk = true := by decide +kernel
  cases hm : (resumption []).2 with
  | error e =>
    rw [hm] at hok
    cases hok
  | ok m =>
    have hcounted : Counted models.path (interrupted []).files toy_source (resuming []) := by
      have hother : toy_source.sidecar models.path ≠ toy_source.dest_gguf models.path := by decide +kernel
      rw [Counted, overwritten, if_neg hother]
      exact .inr (interrupted_leftover [])
    have hresumes : Resumes models.path (interrupted []).files toy_source (resuming []) := resuming_resumes List.nil_prefix
    exact ⟨m, rfl, (size_recorded_iff (resuming_source []) hresumes (.inl rfl) (resumption_ok hm)).2 hcounted⟩

/-- One byte was left, and two are counted. -/
theorem resumed_size_short :
    ((resumption [1]).2.toOption.map fun m => (m.path, m.size_bytes)) = some (bytes "/models/model.gguf", 2) ∧
    ((resumption [1]).1.files.lookup (bytes "/models/model.gguf")).map File.text = some [1, 2, 3] ∧
    ¬ ∀ (parse : Bytes → Option Json) (dir : Bytes) (s s' : Disk) (c : PullCall) (r : Source) (m : Manifest),
      source parse c = .ok r → Resumes dir s.files r c → (r.size_bytes = 0 ∨ r.size_bytes.toNat = c.remote.text.length) →
      pull parse dir s c = (s', .ok m) → Sized s'.files m := by
  have hrecorded : ((resumption [1]).2.toOption.map fun m => (m.path, m.size_bytes)) = some (bytes "/models/model.gguf", 2) := by
    decide +kernel
  have hfile : ((resumption [1]).1.files.lookup (bytes "/models/model.gguf")).map File.text = some [1, 2, 3] := by decide +kernel
  refine ⟨hrecorded, hfile, fun h => ?_⟩
  cases hm : (resumption [1]).2 with
  | error e =>
    rw [hm] at hrecorded
    cases hrecorded
  | ok m =>
    have hsized := h _ _ _ _ _ _ m (resuming_source [1]) (resuming_resumes (by decide)) (.inl rfl) (resumption_ok hm)
    rw [hm] at hrecorded
    obtain ⟨hpath, hsize⟩ := Prod.mk.inj (Option.some.inj hrecorded)
    rw [← hpath] at hfile
    rw [sized_iff hfile, hsize] at hsized
    exact absurd hsized (by decide)

end Hostely.Models
