import Hostely.Lib.Text
import Mathlib.Data.List.Basic
/-!
# The llama.cpp side

llama.cpp is a submodule of the repository, so what it computes enters as a
parameter: a `LlamaModel` has a tokenizer, a detokenizer, the logits of every
token list and a sampler that reads logits. What the server relies on is the
KV cache, which is modelled cell by cell: `llama_decode` appends the cells of
its batch and leaves the logits of the flagged token, `llama_memory_seq_rm`
drops a range of positions of one sequence.
-/

open Hostely.Lib

namespace Hostely.Inference

abbrev LlamaToken := Int

/-- A loaded model and the limits of its context. -/
structure LlamaModel (L : Type) where
  tokenizer : Bytes → List LlamaToken
  detokenizer : List LlamaToken → Bytes
  eos : LlamaToken
  /-- The logits after a token list. -/
  eval : List LlamaToken → L
  /-- The greedy sampler; `none` when the last batch flagged no token. -/
  greedy : Option L → LlamaToken
  n_ctx : Nat
  n_batch : Nat
  n_seq_max : Nat
  n_batch_pos : 0 < n_batch
  two_le_n_seq_max : 2 ≤ n_seq_max

structure KvCell where
  pos : Nat
  token : LlamaToken
deriving DecidableEq, Repr

/-- The cells of each sequence, oldest first. -/
abbrev Kv := Nat → List KvCell

/-- A `llama_context`: its memory and the logits of its last decode. -/
structure LlamaContext (L : Type) where
  kv : Kv
  logits : Option L

variable {L : Type}

def LlamaContext.fresh : LlamaContext L := ⟨fun _ => [], none⟩

/-- The tokens of a sequence. -/
def LlamaContext.tokens (ctx : LlamaContext L) (seq : Nat) : List LlamaToken := (ctx.kv seq).map (·.token)

/-! ## Memory -/

/-- Drops the cells of `seq` at positions `p0 ≤ pos < p1`; a negative `p0` is
the start and a negative `p1` the end. -/
def llama_memory_seq_rm (ctx : LlamaContext L) (seq : Nat) (p0 p1 : Int) : LlamaContext L :=
  { ctx with kv := fun s =>
      if s = seq then (ctx.kv s).filter fun c => !(decide (p0 ≤ c.pos) && (decide (p1 < 0) || decide ((c.pos : Int) < p1)))
      else ctx.kv s }

/-! ## Decoding -/

/-- One entry of a `llama_batch`. -/
structure BatchToken where
  token : LlamaToken
  pos : Nat
  seq_id : Nat
  logits : Bool
deriving DecidableEq, Repr

abbrev LlamaBatch := List BatchToken

def Kv.push (kv : Kv) (b : BatchToken) : Kv :=
  fun s => if s = b.seq_id then kv s ++ [⟨b.pos, b.token⟩] else kv s

/-- `ok` is what the call returns (`true` for 0). A failed call leaves the
context as it was. -/
def llama_decode (M : LlamaModel L) (ok : Bool) (ctx : LlamaContext L) (batch : LlamaBatch) :
    Bool × LlamaContext L :=
  if ok then
    let kv := batch.foldl Kv.push ctx.kv
    (true, { kv, logits := ((batch.filter (·.logits)).getLast?).map fun b => M.eval ((kv b.seq_id).map (·.token)) })
  else (false, ctx)

def llama_sampler_sample (M : LlamaModel L) (ctx : LlamaContext L) : LlamaToken := M.greedy ctx.logits

/-! ## Text -/

/-- Fills `buf` with `out` and returns its length, or minus the length needed
when `buf` is too small. -/
def fill {α : Type} (out buf : List α) : Int × List α :=
  if out.length ≤ buf.length then (out.length, out ++ buf.drop out.length) else (-(out.length : Int), buf)

def llama_tokenize (M : LlamaModel L) (text : Bytes) (buf : List LlamaToken) : Int × List LlamaToken :=
  fill (M.tokenizer text) buf

def llama_detokenize (M : LlamaModel L) (tokens : List LlamaToken) (buf : Bytes) : Int × Bytes :=
  fill (M.detokenizer tokens) buf

theorem fill_fits {α : Type} {out buf : List α} (h : out.length ≤ buf.length) :
    fill out buf = ((out.length : Int), out ++ buf.drop out.length) := if_pos h

/-- Asks with a buffer of `cap`, and again with the size a failed call names. -/
def ask_twice {α : Type} (call : List α → Int × List α) (cap : Nat) (z : α) : Int × List α :=
  let first := call (List.replicate cap z)
  if first.1 < 0 then call (List.replicate (-first.1).toNat z) else first

theorem ask_twice_fill {α : Type} (out : List α) (cap : Nat) (z : α) :
    ∃ rest, ask_twice (fill out) cap z = ((out.length : Int), out ++ rest) := by
  unfold ask_twice
  by_cases h : out.length ≤ cap
  · rw [fill_fits (by simpa using h)]
    exact ⟨_, if_neg (by simp)⟩
  · have hneg : fill out (List.replicate cap z) = (-(out.length : Int), List.replicate cap z) :=
      if_neg (by simpa using h)
    simp only [hneg]
    rw [if_pos (by omega), fill_fits (by simp)]
    exact ⟨_, rfl⟩

/-! ## A cache that mirrors a token list -/

/-- The cells of a sequence that holds exactly `ts`, from position `i`. -/
def cellsFrom (i : Nat) : List LlamaToken → List KvCell
  | [] => []
  | t :: ts => ⟨i, t⟩ :: cellsFrom (i + 1) ts

/-- The cells of a sequence that holds exactly `ts`, at positions 0, 1, 2, ... -/
def mirror (ts : List LlamaToken) : List KvCell := cellsFrom 0 ts

@[simp] theorem cellsFrom_token (i : Nat) (ts : List LlamaToken) : (cellsFrom i ts).map (·.token) = ts := by
  induction ts generalizing i with
  | nil => rfl
  | cons t ts ih => simp [cellsFrom, ih]

theorem cellsFrom_append (i : Nat) (ts us : List LlamaToken) :
    cellsFrom i (ts ++ us) = cellsFrom i ts ++ cellsFrom (i + ts.length) us := by
  induction ts generalizing i with
  | nil => simp [cellsFrom]
  | cons t ts ih => simp [cellsFrom, ih, Nat.add_assoc, Nat.add_comm 1]

theorem mirror_append (ts us : List LlamaToken) : mirror (ts ++ us) = mirror ts ++ cellsFrom ts.length us := by
  simp [mirror, cellsFrom_append]

@[simp] theorem mirror_token (ts : List LlamaToken) : (mirror ts).map (·.token) = ts := cellsFrom_token 0 ts

/-- The cells determine the tokens. -/
theorem mirror_inj {ts us : List LlamaToken} (h : mirror ts = mirror us) : ts = us := by
  have := congrArg (List.map (·.token)) h
  simpa using this

theorem cellsFrom_pos {i : Nat} {ts : List LlamaToken} {c : KvCell} (h : c ∈ cellsFrom i ts) :
    i ≤ c.pos ∧ c.pos < i + ts.length := by
  induction ts generalizing i with
  | nil => cases h
  | cons t ts ih =>
    simp only [cellsFrom, List.mem_cons] at h
    rcases h with rfl | h
    · simp
    · have := ih h
      simp only [List.length_cons]
      omega

/-! ## What the calls do to a mirrored sequence -/

theorem seq_rm_other (ctx : LlamaContext L) {seq s : Nat} (p0 p1 : Int) (h : s ≠ seq) :
    (llama_memory_seq_rm ctx seq p0 p1).kv s = ctx.kv s := by
  simp [llama_memory_seq_rm, h]

@[simp] theorem seq_rm_all (ctx : LlamaContext L) (seq : Nat) :
    (llama_memory_seq_rm ctx seq (-1) (-1)).kv seq = [] := by
  simp only [llama_memory_seq_rm, if_true, List.filter_eq_nil_iff]
  intro c _
  have : (-1 : Int) ≤ c.pos := by omega
  simp [this]

/-- Trimming a mirrored sequence at `k` mirrors the first `k` tokens. -/
theorem seq_rm_mirror (ctx : LlamaContext L) {seq : Nat} {ts : List LlamaToken} (k : Nat)
    (h : ctx.kv seq = mirror ts) : (llama_memory_seq_rm ctx seq k (-1)).kv seq = mirror (ts.take k) := by
  have hsplit : mirror ts = mirror (ts.take k) ++ cellsFrom (ts.take k).length (ts.drop k) := by
    rw [← mirror_append, List.take_append_drop]
  have hkeep : ∀ c ∈ mirror (ts.take k), c.pos < k := by
    intro c hc
    have := cellsFrom_pos hc
    have hl : (ts.take k).length ≤ k := List.length_take_le k ts
    omega
  have hdrop : ∀ c ∈ cellsFrom (ts.take k).length (ts.drop k), k ≤ c.pos := by
    intro c hc
    have hpos := cellsFrom_pos hc
    by_cases hk : k ≤ ts.length
    · rw [List.length_take, Nat.min_eq_left hk] at hpos
      exact hpos.1
    · rw [List.drop_eq_nil_of_le (by omega)] at hc
      cases hc
  simp only [llama_memory_seq_rm, if_true, h]
  rw [hsplit, List.filter_append, List.filter_eq_self.2, List.filter_eq_nil_iff.2, List.append_nil]
  · intro c hc
    have := hdrop c hc
    simp [this]
  · intro c hc
    have := hkeep c hc
    simp [this]

/-- Removing what lies past the end of a mirrored sequence removes nothing. -/
theorem seq_rm_past (ctx : LlamaContext L) {seq : Nat} {ts : List LlamaToken} (k : Nat)
    (h : ctx.kv seq = mirror ts) (hk : ts.length ≤ k) :
    (llama_memory_seq_rm ctx seq k (-1)).kv seq = mirror ts := by
  rw [seq_rm_mirror ctx k h, List.take_of_length_le hk]

/-- The entries of a batch that feeds `ts` on `seq` from position `i`. -/
def feeds (seq i : Nat) (ts : List LlamaToken) (batch : LlamaBatch) : Prop :=
  batch.map (fun b => (b.token, b.pos, b.seq_id)) = (cellsFrom i ts).map fun c => (c.token, c.pos, seq)

theorem push_feeds {seq i : Nat} {ts : List LlamaToken} {batch : LlamaBatch} (h : feeds seq i ts batch) (kv : Kv) :
    (batch.foldl Kv.push kv) seq = kv seq ++ cellsFrom i ts ∧
      ∀ s, s ≠ seq → (batch.foldl Kv.push kv) s = kv s := by
  induction ts generalizing i batch kv with
  | nil =>
    cases batch with
    | nil => simp [cellsFrom]
    | cons b bs => simp [feeds, cellsFrom] at h
  | cons t ts ih =>
    cases batch with
    | nil => simp [feeds, cellsFrom] at h
    | cons b bs =>
      simp only [feeds, cellsFrom, List.map_cons, List.cons.injEq, Prod.mk.injEq] at h
      obtain ⟨⟨ht, hp, hs⟩, hrest⟩ := h
      obtain ⟨h1, h2⟩ := ih hrest (kv.push b)
      simp only [List.foldl_cons]
      refine ⟨?_, fun s hne => ?_⟩
      · rw [h1]
        simp [Kv.push, hs, ht, hp, cellsFrom]
      · rw [h2 s hne]
        simp [Kv.push, hs, hne]

/-- A successful decode of a batch that extends a mirrored sequence. -/
theorem decode_mirror (M : LlamaModel L) (ctx : LlamaContext L) {seq : Nat} {old ts : List LlamaToken}
    {batch : LlamaBatch} (hf : feeds seq old.length ts batch) (hkv : ctx.kv seq = mirror old) :
    (llama_decode M true ctx batch).2.kv seq = mirror (old ++ ts) ∧
      ∀ s, s ≠ seq → (llama_decode M true ctx batch).2.kv s = ctx.kv s := by
  obtain ⟨h1, h2⟩ := push_feeds hf ctx.kv
  refine ⟨?_, h2⟩
  show batch.foldl Kv.push ctx.kv seq = _
  rw [h1, hkv, mirror_append]

/-- A decode leaves the sequences its batch does not name. -/
theorem decode_other (M : LlamaModel L) (ok : Bool) (ctx : LlamaContext L) {seq s : Nat} {batch : LlamaBatch}
    (hb : ∀ b ∈ batch, b.seq_id = seq) (hs : s ≠ seq) : (llama_decode M ok ctx batch).2.kv s = ctx.kv s := by
  cases ok with
  | false => rfl
  | true =>
    show batch.foldl Kv.push ctx.kv s = ctx.kv s
    generalize ctx.kv = kv
    induction batch generalizing kv with
    | nil => rfl
    | cons b bs ih =>
      rw [List.foldl_cons, ih fun b' hb' => hb b' (List.mem_cons_of_mem _ hb')]
      simp [Kv.push, hb b List.mem_cons_self, hs]

theorem feeds_seq {seq i : Nat} {ts : List LlamaToken} {batch : LlamaBatch} (h : feeds seq i ts batch) :
    ∀ b ∈ batch, b.seq_id = seq := by
  intro b hb
  have : (b.token, b.pos, b.seq_id) ∈ batch.map fun b => (b.token, b.pos, b.seq_id) := List.mem_map.2 ⟨b, hb, rfl⟩
  rw [h] at this
  obtain ⟨c, _, hc⟩ := List.mem_map.1 this
  simp only [Prod.mk.injEq] at hc
  exact hc.2.2.symm

/-- A successful decode adds the tokens of its batch, whatever the sequence holds. -/
theorem decode_tokens (M : LlamaModel L) (ctx : LlamaContext L) {seq i : Nat} {ts : List LlamaToken}
    {batch : LlamaBatch} (hf : feeds seq i ts batch) :
    (llama_decode M true ctx batch).2.tokens seq = ctx.tokens seq ++ ts := by
  show ((batch.foldl Kv.push ctx.kv) seq).map (·.token) = _
  rw [(push_feeds hf ctx.kv).1, List.map_append, cellsFrom_token]
  rfl

/-- The logits a successful decode leaves when its last entry is flagged. -/
theorem decode_evals (M : LlamaModel L) (ctx : LlamaContext L) {seq i : Nat} {ts : List LlamaToken}
    {batch : LlamaBatch} (hf : feeds seq i ts batch) (hl : ∃ b, batch.getLast? = some b ∧ b.logits = true) :
    (llama_decode M true ctx batch).2.logits = some (M.eval (ctx.tokens seq ++ ts)) := by
  obtain ⟨b, hb, hflag⟩ := hl
  obtain ⟨front, rfl⟩ := List.getLast?_eq_some_iff.1 hb
  have hseq : b.seq_id = seq := feeds_seq hf b (by simp)
  simp only [llama_decode, if_true, List.filter_append, hflag, List.filter_cons_of_pos, List.filter_nil,
    List.getLast?_append, List.getLast?_singleton, Option.some_or, Option.map_some, hseq]
  rw [(push_feeds hf ctx.kv).1, List.map_append, cellsFrom_token]
  rfl

/-- On a mirrored sequence these are the logits of the tokens it mirrors. -/
theorem decode_logits (M : LlamaModel L) (ctx : LlamaContext L) {seq : Nat} {old ts : List LlamaToken}
    {batch : LlamaBatch} (hf : feeds seq old.length ts batch) (hkv : ctx.kv seq = mirror old)
    (hl : ∃ b, batch.getLast? = some b ∧ b.logits = true) :
    (llama_decode M true ctx batch).2.logits = some (M.eval (old ++ ts)) := by
  have hold : ctx.tokens seq = old := by rw [LlamaContext.tokens, hkv, mirror_token]
  rw [decode_evals M ctx hf hl, hold]

end Hostely.Inference
