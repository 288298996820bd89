import Hostely.Lib.Substring
import Hostely.Inference.Session
/-!
# The server

`complete_stream` step by step, under the source's own headings: tokenize,
resolve the session, keep the common part of its cache, guard the context,
prefill in chunks, generate, persist.

What the outside answers during one request is its `World`: the clock, the
iteration order of the session map and the result of every `llama_decode`. A
hook may change what it captured by reference and may throw.
-/

open Hostely.Lib

namespace Hostely.Inference

variable {L : Type}

/-- The part of `Server::Impl` that requests change. -/
structure Server (L : Type) where
  ctx : LlamaContext L
  seq_alloc : SeqAllocator
  sessions : SessionTable

/-- The state `load_model` leaves. -/
def load_model (M : LlamaModel L) : Server L :=
  let seq_alloc := SeqAllocator.ofMax M.n_seq_max
  ⟨.fresh, seq_alloc, .empty seq_alloc.capacity⟩

/-- The arguments of `complete_stream` other than the hooks. -/
structure Request where
  prompt : Bytes
  max_tokens : Int
  session_id : String
  allow_session_fallback : Bool
  stops : Option (List Bytes)
deriving DecidableEq, Repr

structure World where
  now : Nat
  iter : IterOrder
  /-- The result of decoding each prefill chunk and each generated token. -/
  prefill_ok : Nat → Bool
  step_ok : Nat → Bool

/-- A call of a hook: what it leaves in the captured variables, `.error` when it throws. -/
abbrev Hook (σ : Type) := σ → Except σ σ

structure StreamHooks (σ : Type) where
  on_prefill : Option (Nat → Hook σ)
  on_token : Option (Bytes → Hook σ)

/-- `StreamHooks none;` -/
def StreamHooks.none {σ : Type} : StreamHooks σ := ⟨Option.none, Option.none⟩

/-! ## Tokenize -/

/-- `none` is the early return of `n_prompt <= 0`. -/
def tokenize_prompt (M : LlamaModel L) (prompt : Bytes) : Option (List LlamaToken) :=
  let (n_prompt, prompt_tokens) := ask_twice (llama_tokenize M prompt) (prompt.length + 16) 0
  if n_prompt ≤ 0 then none else some (prompt_tokens.take n_prompt.toNat)

def detokenize (M : LlamaModel L) (tokens : List LlamaToken) : Bytes :=
  if tokens = [] then []
  else
    let (n, buf) := ask_twice (llama_detokenize M tokens) (tokens.length * 16 + 64) 0
    if n > 0 then buf.take n.toNat else []

/-! ## Resolve the session -/

/-- A sequence id for a new session: a free one, else the id of the session
that `evict_lru` drops. -/
def allocate_seq (w : World) (s : Server L) : Option Nat × Server L :=
  match s.seq_alloc.take with
  | (some id, seq_alloc) => (some id, { s with seq_alloc })
  | (none, seq_alloc) =>
    match s.sessions.evict_lru w.iter with
    | (none, sessions) => (none, { s with seq_alloc, sessions })
    | (some evicted, sessions) =>
      let ctx := llama_memory_seq_rm s.ctx evicted (-1) (-1)
      let (allocated, seq_alloc) := (seq_alloc.give_back evicted).take
      (allocated, { ctx, seq_alloc, sessions })

/-- Enters the new session; inserting may evict once more. -/
def insert_session (w : World) (id : String) (allocated : Nat) (s : Server L) : Option Session × Server L :=
  let (evicted, sessions) := s.sessions.insert w.iter w.now id allocated
  let s : Server L := match evicted with
    | none => { s with sessions }
    | some evicted =>
      { ctx := llama_memory_seq_rm s.ctx evicted (-1) (-1), seq_alloc := s.seq_alloc.give_back evicted, sessions }
  let (sess, sessions) := s.sessions.find w.now id
  (sess, { s with sessions })

/-- `none` is the stateless path. -/
def resolve_session (w : World) (req : Request) (prompt_tokens : List LlamaToken) (s : Server L) :
    Option Session × Server L :=
  if req.session_id ≠ "" then
    match s.sessions.find w.now req.session_id with
    | (some sess, sessions) => (some sess, { s with sessions })
    | (none, _) =>
      match allocate_seq w s with
      | (none, s) => (none, s)
      | (some allocated, s) => insert_session w req.session_id allocated s
  else if req.allow_session_fallback then
    let (sess, sessions) := SessionTable.find_by_prefix w.iter w.now prompt_tokens s.sessions
    (sess, { s with sessions })
  else (none, s)

/-! ## Keep the common part of the cache -/

/-- The length of the longest common initial part. -/
def common_len : List LlamaToken → List LlamaToken → Nat
  | a :: as, b :: bs => if a = b then common_len as bs + 1 else 0
  | _, _ => 0

/-- A request on its sequence, with `n_past` tokens of the prompt cached. -/
structure Opened (L : Type) where
  sess : Option Session
  seq : Nat
  n_past : Nat
  server : Server L

def open_session (w : World) (req : Request) (prompt_tokens : List LlamaToken) (s : Server L) : Opened L :=
  match resolve_session w req prompt_tokens s with
  | (some sess, s) =>
    let k := common_len sess.tokens prompt_tokens
    if k < sess.tokens.length then
      let sess := { sess with tokens := sess.tokens.take k }
      ⟨some sess, sess.seq_id, k,
        { s with ctx := llama_memory_seq_rm s.ctx sess.seq_id k (-1), sessions := s.sessions.set sess }⟩
    else ⟨some sess, sess.seq_id, sess.tokens.length, s⟩
  | (none, s) => ⟨none, 0, 0, { s with ctx := llama_memory_seq_rm s.ctx 0 (-1) (-1) }⟩

/-! ## Guard the context -/

/-- `static_cast<uint32_t>` -/
def u32 (x : Int) : Nat := (x % 4294967296).toNat

/-- `static_cast<int>` -/
def i32 (x : Int) : Int := Int.bmod x 4294967296

/-- The number of tokens to generate, `none` when the context is exhausted. -/
def context_guard (M : LlamaModel L) (n_prompt : Nat) (max_tokens : Int) : Option Int :=
  if (u32 n_prompt + u32 max_tokens) % 4294967296 ≥ M.n_ctx then
    let max_tokens := i32 M.n_ctx - i32 n_prompt - 1
    if max_tokens ≤ 0 then none else some max_tokens
  else some max_tokens

/-! ## Prefill -/

section Prefill
variable (M : LlamaModel L) (ok : Nat → Bool) (prompt_tokens : List LlamaToken) (n_past seq : Nat)

def n_feed : Nat := prompt_tokens.length - n_past

def n_chunk : Nat := min (max (n_feed prompt_tokens n_past) 1) M.n_batch

/-- The batch of `len` tokens from `start`. -/
def prefill_batch (start len : Nat) : LlamaBatch :=
  (List.range len).map fun i =>
    { token := prompt_tokens.getD (n_past + start + i) 0
      pos := n_past + start + i
      seq_id := seq
      logits := start + i + 1 = n_feed prompt_tokens n_past }

/-- The loop over the chunks. Each round moves `start` on, so `n_feed` rounds
are enough. -/
def prefill_loop : Nat → Nat → Nat → LlamaContext L → Bool × LlamaContext L
  | 0, _, _, ctx => (true, ctx)
  | rounds + 1, chunk, start, ctx =>
    if start < n_feed prompt_tokens n_past then
      let len := min (n_chunk M prompt_tokens n_past) (n_feed prompt_tokens n_past - start)
      match llama_decode M (ok chunk) ctx (prefill_batch prompt_tokens n_past seq start len) with
      | (false, ctx) => (false, ctx)
      | (true, ctx) => prefill_loop rounds (chunk + 1) (start + n_chunk M prompt_tokens n_past) ctx
    else (true, ctx)

def prefill (ctx : LlamaContext L) : Bool × LlamaContext L :=
  prefill_loop M ok prompt_tokens n_past seq (n_feed prompt_tokens n_past) 0 0 ctx

end Prefill

/-! ## Generate -/

/-- The variables of the generation loop. `sent` records the calls of
`on_token`. -/
structure Gen (L σ : Type) where
  ctx : LlamaContext L
  generated : List LlamaToken
  n_total : Nat
  emitted : Bytes
  captured : σ
  sent : List Bytes

section Generate
variable {σ : Type} (M : LlamaModel L) (ok : Nat → Bool) (seq : Nat)
  (on_token : Option (Bytes → Hook σ)) (stops : Option (List Bytes))

/-- Feeds a generated token back, at the position after everything decoded so far. -/
def step_batch (id : LlamaToken) (pos : Nat) : LlamaBatch := [⟨id, pos, seq, true⟩]

def stop_hit (full : Bytes) : Bool :=
  match stops with
  | none => false
  | some stops => stops.any fun s => s ≠ [] && (findSub? s full).isSome

def call_on_token (f : Bytes → Hook σ) (piece full : Bytes) (g : Gen L σ) : Except (Gen L σ) (Gen L σ) :=
  match f piece g.captured with
  | .ok captured => .ok { g with captured, sent := g.sent ++ [piece], emitted := full }
  | .error captured => .error { g with captured, sent := g.sent ++ [piece] }

/-- Hands `on_token` what `full` adds to the text emitted so far. -/
def emit (full : Bytes) (g : Gen L σ) : Except (Gen L σ) (Gen L σ) :=
  match on_token with
  | none => .ok g
  | some f =>
    if full.length > g.emitted.length ∧ full.take g.emitted.length = g.emitted then
      call_on_token f (full.drop g.emitted.length) full g
    else if full ≠ g.emitted then call_on_token f full full g
    else .ok g

/-- The generation loop, from round `i` with `rounds` left; `.error` when a
hook throws. -/
def generate : Nat → Nat → Gen L σ → Except (Gen L σ) (Gen L σ)
  | 0, _, g => .ok g
  | rounds + 1, i, g =>
    let id := llama_sampler_sample M g.ctx
    if id = M.eos then .ok g
    else
      match llama_decode M (ok i) g.ctx (step_batch seq id g.n_total) with
      | (false, ctx) => .ok { g with ctx }
      | (true, ctx) =>
        let g := { g with ctx, generated := g.generated ++ [id], n_total := g.n_total + 1 }
        let want_full := on_token.isSome || stops.isSome
        let full := if want_full then detokenize M g.generated else []
        if stop_hit stops full then .ok { g with ctx := llama_memory_seq_rm g.ctx seq g.n_total (-1) }
        else
          match emit on_token full g with
          | .error g => .error g
          | .ok g => generate rounds (i + 1) g

end Generate

/-! ## complete_stream -/

structure CompletionStats where
  prompt_tokens : Nat
  completion_tokens : Nat
deriving DecidableEq, Repr

/-- How a call ends. -/
inductive Exit where
  | no_prompt | context_exhausted | prefill_failed | hook_threw
  | finished (text : Bytes)
deriving DecidableEq, Repr

/-- The text returned, `none` when an exception escapes. -/
def Exit.text : Exit → Option Bytes
  | .hook_threw => none
  | .finished text => some text
  | _ => some []

/-- What a call of `complete_stream` leaves behind. `prefilled` and `sent`
record the hook calls. -/
structure Completion (L σ : Type) where
  server : Server L
  exit : Exit
  stats : CompletionStats
  generated : List LlamaToken
  prefilled : Bool
  sent : List Bytes
  captured : σ

/-- Clears a session whose context is exhausted. -/
def drop_cache (o : Opened L) : Server L :=
  match o.sess with
  | none => o.server
  | some sess =>
    { o.server with
      ctx := llama_memory_seq_rm o.server.ctx o.seq (-1) (-1)
      sessions := o.server.sessions.set { sess with tokens := [] } }

/-- Records in the session what its sequence now holds. -/
def persist (sess : Option Session) (tokens : List LlamaToken) (s : Server L) : Server L :=
  match sess with
  | none => s
  | some sess => { s with sessions := s.sessions.set { sess with tokens } }

def call_on_prefill {σ : Type} (hooks : StreamHooks σ) (n_prompt : Nat) (captured : σ) : Except σ σ :=
  match hooks.on_prefill with
  | none => .ok captured
  | some f => f n_prompt captured

/-- The part of `complete_stream` after the prefill, on `seq` of `server`. -/
def generate_and_persist {σ : Type} (M : LlamaModel L) (w : World) (req : Request) (hooks : StreamHooks σ)
    (captured : σ) (prompt_tokens : List LlamaToken) (max_tokens : Int) (sess : Option Session) (seq : Nat)
    (server : Server L) : Completion L σ :=
  let n_prompt := prompt_tokens.length
  match call_on_prefill hooks n_prompt captured with
  | .error captured => ⟨server, .hook_threw, ⟨n_prompt, 0⟩, [], true, [], captured⟩
  | .ok captured =>
    match generate M w.step_ok seq hooks.on_token req.stops max_tokens.toNat 0
        ⟨server.ctx, [], n_prompt, [], captured, []⟩ with
    | .error g =>
      ⟨{ server with ctx := g.ctx }, .hook_threw, ⟨n_prompt, 0⟩, g.generated, true, g.sent, g.captured⟩
    | .ok g =>
      ⟨persist sess (prompt_tokens ++ g.generated) { server with ctx := g.ctx }, .finished (detokenize M g.generated),
        ⟨n_prompt, g.generated.length⟩, g.generated, true, g.sent, g.captured⟩

/-- The part of `complete_stream` after the context guard. -/
def run_prompt {σ : Type} (M : LlamaModel L) (w : World) (req : Request) (hooks : StreamHooks σ) (captured : σ)
    (prompt_tokens : List LlamaToken) (max_tokens : Int) (o : Opened L) : Completion L σ :=
  let (prefill_ok, ctx) := prefill M w.prefill_ok prompt_tokens o.n_past o.seq o.server.ctx
  let server := { o.server with ctx }
  if prefill_ok then
    generate_and_persist M w req hooks captured prompt_tokens max_tokens o.sess o.seq server
  else ⟨server, .prefill_failed, ⟨prompt_tokens.length, 0⟩, [], false, [], captured⟩

def complete_stream {σ : Type} (M : LlamaModel L) (s : Server L) (w : World) (req : Request)
    (hooks : StreamHooks σ) (captured : σ) : Completion L σ :=
  match tokenize_prompt M req.prompt with
  | none => ⟨s, .no_prompt, ⟨0, 0⟩, [], false, [], captured⟩
  | some prompt_tokens =>
    let o := open_session w req prompt_tokens s
    match context_guard M prompt_tokens.length req.max_tokens with
    | none => ⟨drop_cache o, .context_exhausted, ⟨prompt_tokens.length, 0⟩, [], false, [], captured⟩
    | some max_tokens => run_prompt M w req hooks captured prompt_tokens max_tokens o

/-- A request together with its hooks and the world it meets. -/
structure Call where
  req : Request
  world : World
  σ : Type
  hooks : StreamHooks σ
  captured : σ

def Call.run (c : Call) (M : LlamaModel L) (s : Server L) : Completion L c.σ :=
  complete_stream M s c.world c.req c.hooks c.captured

/-- The states of a loaded server: `Step M s c t` serves `c` in `s`. -/
def Step (M : LlamaModel L) (s : Server L) (c : Call) (t : Server L) : Prop := t = (c.run M s).server

def Loaded (M : LlamaModel L) (s : Server L) : Prop := s = load_model M

/-! ## A model to evaluate on -/

/-- One token a byte; the next token is the length of the context it reads. -/
def toyModel : LlamaModel (List LlamaToken) where
  tokenizer := fun text => text.map fun b => (b.toNat : Int)
  detokenizer := fun ts => ts.map fun t => UInt8.ofNat t.toNat
  eos := 0
  eval := id
  greedy := fun l => (l.getD []).length
  n_ctx := 64
  n_batch := 2
  n_seq_max := 3
  n_batch_pos := by decide
  two_le_n_seq_max := by decide

/-- No decode fails. -/
def World.calm (now : Nat) : World := ⟨now, .asIs, fun _ => true, fun _ => true⟩

/-- A request without hooks or stop strings that meets no failure. -/
def plainCall (now : Nat) (session_id : String) (prompt : Bytes) (max_tokens : Int) : Call :=
  ⟨⟨prompt, max_tokens, session_id, false, none⟩, .calm now, Unit, .none, ()⟩

end Hostely.Inference
