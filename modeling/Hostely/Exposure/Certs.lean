import Hostely.Lib.Runs
import Hostely.Lib.Text
import Mathlib.Logic.Function.Basic
/-!
# The certificates the proxy presents

The store has a directory for each domain, which the commands write and remove.
A handshake reads it and then looks in a cache of contexts, one for each host, that
nothing is ever taken out of. Handshakes run side by side; the lock is held for a
lookup and for an insertion. A call of the store is one step.
-/

open Hostely.Lib

namespace Hostely.Exposure

/-! ## The store -/

/-- The files of a directory that a handshake reads. -/
structure CertFiles where
  cert_pem : Option Bytes
  key_pem : Option Bytes
deriving DecidableEq

/-- The directories by name. -/
abbrev CertStore := Bytes → CertFiles

def domain_dir (domain : Bytes) : Bytes := domain.map fun c => if c = 47 || c = 92 then 95 else c

/-- Hostnames have directories of their own. -/
theorem domain_dir_hostname {domain : Bytes} (h : ∀ c ∈ domain, c ≠ 47 ∧ c ≠ 92) : domain_dir domain = domain := by
  refine (List.map_congr_left fun c hc => ?_).trans (List.map_id domain)
  simp [h c hc]

/-- A call that succeeds; without a key the old one stays. -/
def cert_store_save (store : CertStore) (domain cert_pem key_pem : Bytes) : CertStore :=
  Function.update store (domain_dir domain)
    ⟨some cert_pem, if key_pem ≠ [] then some key_pem else (store (domain_dir domain)).key_pem⟩

def cert_store_remove (store : CertStore) (domain : Bytes) : CertStore :=
  Function.update store (domain_dir domain) ⟨none, none⟩

/-- The certificate and the key, which is empty when there is none. -/
def cert_store_load (store : CertStore) (domain : Bytes) : Option (Bytes × Bytes) :=
  (store (domain_dir domain)).cert_pem.map fun cert_pem => (cert_pem, (store (domain_dir domain)).key_pem.getD [])

section
variable {store : CertStore} {domain host cert_pem key_pem : Bytes}

theorem save_same (h : domain_dir domain = domain_dir host) : cert_store_save store domain cert_pem key_pem (domain_dir host) =
    ⟨some cert_pem, if key_pem ≠ [] then some key_pem else (store (domain_dir host)).key_pem⟩ := by
  unfold cert_store_save
  rw [h, Function.update_self]

theorem save_other (h : domain_dir domain ≠ domain_dir host) :
    cert_store_save store domain cert_pem key_pem (domain_dir host) = store (domain_dir host) :=
  Function.update_of_ne h.symm _ _

theorem remove_same (h : domain_dir domain = domain_dir host) :
    cert_store_remove store domain (domain_dir host) = ⟨none, none⟩ := by
  unfold cert_store_remove
  rw [h, Function.update_self]

theorem remove_other (h : domain_dir domain ≠ domain_dir host) :
    cert_store_remove store domain (domain_dir host) = store (domain_dir host) :=
  Function.update_of_ne h.symm _ _

end

/-! ## The proxy -/

/-- A context by what it presents. -/
structure SslCtx where
  cert_pem : Bytes
  key_pem : Bytes
deriving DecidableEq

inductive Stage where
  | noack
  | alert_fatal
  /-- The store is read. -/
  | loaded
  /-- The cache had no context. -/
  | missed
  | accepted (ctx : SslCtx)
deriving DecidableEq

structure Handshake where
  host : Bytes
  cert_pem : Bytes
  key_pem : Bytes
  stage : Stage
deriving DecidableEq

def Handshake.ctx (h : Handshake) : SslCtx := ⟨h.cert_pem, h.key_pem⟩

structure TlsProxy where
  store : CertStore
  cache : Bytes → Option SslCtx
  handshakes : List Handshake

namespace TlsProxy

inductive Act where
  | save (domain cert_pem key_pem : Bytes)
  | remove (domain : Bytes)
  /-- A handshake begins, with the name the client asks for, and reads the store. -/
  | hello (name : Option Bytes)
  | look (i : Nat)
  | build (i : Nat)

/-- `sni_callback` up to the cache. -/
def sni_load (store : CertStore) : Option Bytes → Handshake
  | none => ⟨[], [], [], .noack⟩
  | some name =>
    match cert_store_load store (name.map tolower) with
    | none => ⟨name.map tolower, [], [], .alert_fatal⟩
    | some (cert_pem, key_pem) => ⟨name.map tolower, cert_pem, key_pem, if key_pem = [] then .alert_fatal else .loaded⟩

def put (s : TlsProxy) (i : Nat) (h : Handshake) : TlsProxy := { s with handshakes := s.handshakes.set i h }

def next (s : TlsProxy) : Act → Option TlsProxy
  | .save domain cert_pem key_pem => some { s with store := cert_store_save s.store domain cert_pem key_pem }
  | .remove domain => some { s with store := cert_store_remove s.store domain }
  | .hello name => some { s with handshakes := s.handshakes ++ [sni_load s.store name] }
  | .look i => s.handshakes[i]?.bind fun h =>
    if h.stage = .loaded then
      match s.cache h.host with
      -- whatever was read from the store
      | some ctx => some (s.put i { h with stage := .accepted ctx })
      | none => some (s.put i { h with stage := .missed })
    else none
  | .build i => s.handshakes[i]?.bind fun h =>
    -- another handshake may have built one since; it is replaced
    if h.stage = .missed then some {
      s.put i { h with stage := .accepted h.ctx } with
      cache := Function.update s.cache h.host (some h.ctx) }
    else none

def start : TlsProxy := ⟨fun _ => ⟨none, none⟩, fun _ => none, []⟩

/-- The proxy after some steps, if they can be taken. -/
def run (acts : List Act) : Option TlsProxy := acts.foldlM next start

/-! ## What was saved -/

def Act.is_hello : Act → Bool
  | hello _ => true
  | _ => false

/-- The handshakes begun. -/
def started (acts : List Act) : Nat := acts.countP Act.is_hello

def saved_cert (host : Bytes) : Act → Option Bytes
  | .save domain cert_pem _ => if domain_dir domain = domain_dir host then some cert_pem else none
  | _ => none

def saved_key (host : Bytes) : Act → Option Bytes
  | .save domain _ key_pem => if domain_dir domain = domain_dir host ∧ key_pem ≠ [] then some key_pem else none
  | _ => none

/-- The last that some acts saved. -/
def latest (saved : Act → Option Bytes) (acts : List Act) : Option Bytes := acts.reverse.findSome? saved

/-- Handshake `i` of the run has the certificate and the key most recently saved
for its host when it began. -/
def Newest (acts : List Act) (i : Nat) (ctx : SslCtx) : Prop :=
  ∃ before name after, acts = before ++ .hello (some name) :: after ∧ started before = i ∧
    latest (saved_cert (name.map tolower)) before = some ctx.cert_pem ∧
    latest (saved_key (name.map tolower)) before = some ctx.key_pem

/-- All handshakes accepted so far present what they ought to. -/
def Presents (acts : List Act) (s : TlsProxy) : Prop :=
  ∀ i h ctx, s.handshakes[i]? = some h → h.stage = .accepted ctx → Newest acts i ctx

/-- A lookup finds no context, or one of what the handshake has read. -/
def Coherent (s : TlsProxy) : Act → Prop
  | .look i => ∀ h, s.handshakes[i]? = some h → s.cache h.host = none ∨ s.cache h.host = some h.ctx
  | _ => True

/-! ## What a handshake has read -/

section Reads
variable {s t : TlsProxy} {acts : List Act} {a : Act} {i : Nat} {h : Handshake}

theorem latest_concat (saved : Act → Option Bytes) (acts : List Act) (a : Act) :
    latest saved (acts ++ [a]) = (saved a).or (latest saved acts) := by
  unfold latest
  rw [List.reverse_append, List.reverse_singleton, List.singleton_append, List.findSome?_cons]
  cases saved a <;> rfl

/-- What an act does to the store. -/
def stored (store : CertStore) : Act → CertStore
  | .save domain cert_pem key_pem => cert_store_save store domain cert_pem key_pem
  | .remove domain => cert_store_remove store domain
  | _ => store

theorem next_look (h : s.next (.look i) = some t) : ∃ h, s.handshakes[i]? = some h ∧ h.stage = .loaded ∧
    t = s.put i { h with stage := (s.cache h.host).elim .missed .accepted } := by
  obtain ⟨h', hi, h⟩ := Option.bind_eq_some_iff.1 h
  obtain ⟨hloaded, h⟩ := Option.ite_none_right_eq_some.1 h
  refine ⟨h', hi, hloaded, ?_⟩
  split at h
  · rename_i ctx hctx
    rw [hctx]
    exact (Option.some.inj h).symm
  · rename_i hnone
    rw [hnone]
    exact (Option.some.inj h).symm

theorem next_build (h : s.next (.build i) = some t) : ∃ h, s.handshakes[i]? = some h ∧ h.stage = .missed ∧
    t = { s.put i { h with stage := .accepted h.ctx } with cache := Function.update s.cache h.host (some h.ctx) } := by
  obtain ⟨h', hi, h⟩ := Option.bind_eq_some_iff.1 h
  obtain ⟨hmissed, h⟩ := Option.ite_none_right_eq_some.1 h
  exact ⟨h', hi, hmissed, (Option.some.inj h).symm⟩

theorem next_store (h : s.next a = some t) : t.store = stored s.store a := by
  cases a with
  | save _ _ _ | remove _ | hello _ =>
    obtain rfl := Option.some.inj h
    rfl
  | look i =>
    obtain ⟨h', -, -, rfl⟩ := next_look h
    rfl
  | build i =>
    obtain ⟨h', -, -, rfl⟩ := next_build h
    rfl

theorem stored_cert (store : CertStore) (a : Act) (host : Bytes) :
    (stored store a (domain_dir host)).cert_pem = saved_cert host a ∨
    (stored store a (domain_dir host)).cert_pem = none ∨
    saved_cert host a = none ∧ (stored store a (domain_dir host)).cert_pem = (store (domain_dir host)).cert_pem := by
  cases a with
  | save domain cert_pem key_pem =>
    by_cases hdir : domain_dir domain = domain_dir host
    · left
      rw [stored, save_same hdir, saved_cert, if_pos hdir]
    · right
      right
      rw [stored, save_other hdir, saved_cert, if_neg hdir]
      exact ⟨rfl, rfl⟩
  | remove domain =>
    right
    by_cases hdir : domain_dir domain = domain_dir host
    · left
      rw [stored, remove_same hdir]
    · right
      rw [stored, remove_other hdir]
      exact ⟨rfl, rfl⟩
  | hello _ | look _ | build _ => exact .inr (.inr ⟨rfl, rfl⟩)

theorem stored_key (store : CertStore) (a : Act) (host : Bytes) :
    (stored store a (domain_dir host)).key_pem = saved_key host a ∨
    (stored store a (domain_dir host)).key_pem = none ∨
    saved_key host a = none ∧ (stored store a (domain_dir host)).key_pem = (store (domain_dir host)).key_pem := by
  cases a with
  | save domain cert_pem key_pem =>
    by_cases hdir : domain_dir domain = domain_dir host
    · rw [stored, save_same hdir, saved_key]
      by_cases hempty : key_pem = []
      · rw [if_neg (not_not.2 hempty), if_neg fun h => h.2 hempty]
        exact .inr (.inr ⟨rfl, rfl⟩)
      · rw [if_pos hempty, if_pos ⟨hdir, hempty⟩]
        exact .inl rfl
    · right
      right
      rw [stored, save_other hdir, saved_key, if_neg fun h => hdir h.1]
      exact ⟨rfl, rfl⟩
  | remove domain =>
    right
    by_cases hdir : domain_dir domain = domain_dir host
    · left
      rw [stored, remove_same hdir]
    · right
      rw [stored, remove_other hdir]
      exact ⟨rfl, rfl⟩
  | hello _ | look _ | build _ => exact .inr (.inr ⟨rfl, rfl⟩)

theorem latest_step {saved : Act → Option Bytes} {before after : Option Bytes}
    (hafter : after = saved a ∨ after = none ∨ saved a = none ∧ after = before)
    (hbefore : ∀ x, before = some x → latest saved acts = some x) {x : Bytes} (hx : after = some x) :
    latest saved (acts ++ [a]) = some x := by
  rw [latest_concat]
  rcases hafter with h | h | ⟨hsaved, h⟩
  · rw [← h, hx, Option.some_or]
  · cases h.symm.trans hx
  · rw [hsaved, Option.none_or]
    exact hbefore x (h.symm.trans hx)

/-- The files of a directory are the last that were saved for its domain. -/
theorem store_latest (hrun : run acts = some s) (host : Bytes) :
    (∀ c, (s.store (domain_dir host)).cert_pem = some c → latest (saved_cert host) acts = some c) ∧
    ∀ k, (s.store (domain_dir host)).key_pem = some k → latest (saved_key host) acts = some k := by
  induction acts using List.reverseRecOn generalizing s with
  | nil =>
    obtain rfl := Option.some.inj hrun
    exact ⟨nofun, nofun⟩
  | append_singleton acts a ih =>
    obtain ⟨s, hs, hstep⟩ := foldlM_concat.1 hrun
    obtain ⟨hcert, hkey⟩ := ih hs
    rw [next_store hstep]
    exact ⟨fun c hc => latest_step (stored_cert s.store a host) hcert hc,
      fun k hk => latest_step (stored_key s.store a host) hkey hk⟩

theorem sni_load_loaded {store : CertStore} {name : Option Bytes} (h : (sni_load store name).stage = .loaded) :
    ∃ n, name = some n ∧ (store (domain_dir (n.map tolower))).cert_pem = some (sni_load store name).cert_pem ∧
      (store (domain_dir (n.map tolower))).key_pem = some (sni_load store name).key_pem := by
  cases name with
  | none => cases h
  | some n =>
    refine ⟨n, rfl, ?_⟩
    dsimp only [sni_load, cert_store_load] at h ⊢
    cases hcert : (store (domain_dir (n.map tolower))).cert_pem with
    | none =>
      rw [hcert] at h
      cases h
    | some cert_pem =>
      rw [hcert] at h
      cases hkey : (store (domain_dir (n.map tolower))).key_pem with
      | none =>
        rw [hkey] at h
        cases h
      | some key_pem => exact ⟨rfl, rfl⟩

theorem sni_load_stage (store : CertStore) (name : Option Bytes) : (sni_load store name).stage = .noack ∨
    (sni_load store name).stage = .alert_fatal ∨ (sni_load store name).stage = .loaded := by
  unfold sni_load
  split
  · exact .inl rfl
  · split
    · exact .inr (.inl rfl)
    · dsimp only
      split
      · exact .inr (.inl rfl)
      · exact .inr (.inr rfl)

/-- Handshake `i` began at some state of the run, and is where it began or has gone
on with what it read then. -/
def Began (acts : List Act) (i : Nat) (h : Handshake) : Prop :=
  ∃ before name after s₀, acts = before ++ .hello name :: after ∧ started before = i ∧ run before = some s₀ ∧
    (h = sni_load s₀.store name ∨
      (sni_load s₀.store name).stage = .loaded ∧ h = { sni_load s₀.store name with stage := h.stage })

theorem Began.concat (hb : Began acts i h) (a : Act) : Began (acts ++ [a]) i h := by
  obtain ⟨before, name, after, s₀, rfl, hrest⟩ := hb
  exact ⟨before, name, after ++ [a], s₀, by simp, hrest⟩

theorem Began.put (hb : Began acts i h) (hstage : h.stage = .loaded ∨ h.stage = .missed) (stage : Stage) :
    Began acts i { h with stage := stage } := by
  obtain ⟨before, name, after, s₀, hacts, hi, hs₀, hd⟩ := hb
  refine ⟨before, name, after, s₀, hacts, hi, hs₀, .inr ?_⟩
  rcases hd with rfl | ⟨hloaded, heq⟩
  · refine ⟨?_, rfl⟩
    rcases sni_load_stage s₀.store name with h | h | h
    · rw [h] at hstage
      exact absurd hstage (by decide)
    · rw [h] at hstage
      exact absurd hstage (by decide)
    · exact h
  · refine ⟨hloaded, ?_⟩
    rw [heq]

theorem started_concat (acts : List Act) (a : Act) : started (acts ++ [a]) = started acts + if a.is_hello then 1 else 0 := by
  unfold started
  rw [List.countP_append, List.countP_singleton]

theorem began_put (hbegan : ∀ j h', s.handshakes[j]? = some h' → Began acts j h') (hi : s.handshakes[i]? = some h)
    (hstage : h.stage = .loaded ∨ h.stage = .missed) (stage : Stage) :
    ∀ j h', (s.put i { h with stage := stage }).handshakes[j]? = some h' → Began acts j h' := by
  intro j h' hj
  rw [put, List.getElem?_set] at hj
  split at hj
  · rename_i hij
    subst hij
    obtain ⟨-, hj⟩ := Option.ite_none_right_eq_some.1 hj
    exact Option.some.inj hj ▸ (hbegan i h hi).put hstage stage
  · exact hbegan j h' hj

theorem run_began (hrun : run acts = some s) :
    s.handshakes.length = started acts ∧ ∀ i h, s.handshakes[i]? = some h → Began acts i h := by
  induction acts using List.reverseRecOn generalizing s with
  | nil =>
    obtain rfl := Option.some.inj hrun
    exact ⟨rfl, nofun⟩
  | append_singleton acts a ih =>
    obtain ⟨s₀, hs₀, hstep⟩ := foldlM_concat.1 hrun
    obtain ⟨hlength, hbegan⟩ := ih hs₀
    rw [started_concat]
    cases a with
    | save _ _ _ | remove _ =>
      obtain rfl := Option.some.inj hstep
      exact ⟨hlength, fun i h hi => (hbegan i h hi).concat _⟩
    | hello name =>
      obtain rfl := Option.some.inj hstep
      refine ⟨?_, fun i h hi => ?_⟩
      · rw [List.length_append, hlength]
        rfl
      · rw [List.getElem?_append] at hi
        split at hi
        · exact (hbegan i h hi).concat _
        · rename_i hlt
          rw [List.getElem?_singleton] at hi
          obtain ⟨hzero, hi⟩ := Option.ite_none_right_eq_some.1 hi
          have hindex : started acts = i := by omega
          exact ⟨acts, name, [], s₀, rfl, hindex, hs₀, .inl (Option.some.inj hi).symm⟩
    | look i =>
      obtain ⟨h, hi, hloaded, rfl⟩ := next_look hstep
      refine ⟨List.length_set.trans hlength, fun j h' hj => ?_⟩
      exact (began_put hbegan hi (.inl hloaded) _ j h' hj).concat _
    | build i =>
      obtain ⟨h, hi, hmissed, rfl⟩ := next_build hstep
      refine ⟨List.length_set.trans hlength, fun j h' hj => ?_⟩
      exact (began_put hbegan hi (.inr hmissed) _ j h' hj).concat _

end Reads

/-! ## What a handshake presents -/

section Presented
variable {s t : TlsProxy} {acts : List Act} {a : Act} {i : Nat} {h : Handshake} {ctx : SslCtx}

theorem started_hello (name : Option Bytes) (acts : List Act) : started (.hello name :: acts) = started acts + 1 :=
  List.countP_cons_of_pos rfl

/-- The number of a handshake tells where it began. -/
theorem before_unique {before before' after after' : List Act} {name name' : Option Bytes}
    (h : before ++ .hello name :: after = before' ++ .hello name' :: after') (hi : started before = started before') :
    before = before' ∧ name = name' := by
  induction before generalizing before' with
  | nil =>
    cases before' with
    | nil => exact ⟨rfl, Act.hello.inj (List.cons.inj h).1⟩
    | cons a before' =>
      obtain rfl := (List.cons.inj h).1
      rw [started_hello] at hi
      cases hi
  | cons a before ih =>
    cases before' with
    | nil =>
      obtain rfl := (List.cons.inj h).1
      rw [started_hello] at hi
      cases hi
    | cons b before' =>
      obtain ⟨rfl, hrest⟩ := List.cons.inj h
      have hcount : started before = started before' := by simpa [started, List.countP_cons] using hi
      obtain ⟨rfl, hname⟩ := ih hrest hcount
      exact ⟨rfl, hname⟩

theorem newest_iff (hrun : run acts = some s) (hi : s.handshakes[i]? = some h) (hctx : h.stage = .accepted ctx) :
    Newest acts i ctx ↔ ctx = h.ctx := by
  obtain ⟨before, name, after, s₀, hacts, hbefore, hs₀, rfl | ⟨hloaded, heq⟩⟩ := (run_began hrun).2 i h hi
  · have hstage := sni_load_stage s₀.store name
    rw [hctx] at hstage
    simp at hstage
  · obtain ⟨n, rfl, hcert, hkey⟩ := sni_load_loaded hloaded
    have hread := store_latest hs₀ (n.map tolower)
    have hlatest : latest (saved_cert (n.map tolower)) before = some h.cert_pem ∧
        latest (saved_key (n.map tolower)) before = some h.key_pem := by
      rw [heq]
      exact ⟨hread.1 _ hcert, hread.2 _ hkey⟩
    constructor
    · rintro ⟨before', name', after', hacts', hbefore', hcert', hkey'⟩
      obtain ⟨rfl, hname⟩ := before_unique (hacts'.symm.trans hacts) (hbefore'.trans hbefore.symm)
      obtain rfl := Option.some.inj hname
      rw [hlatest.1] at hcert'
      rw [hlatest.2] at hkey'
      unfold Handshake.ctx
      rw [Option.some.inj hcert', Option.some.inj hkey']
    · rintro rfl
      exact ⟨before, n, after, hacts, hbefore, hlatest⟩

/-- Every handshake accepted presents what it has read. -/
def PresentsOwn (s : TlsProxy) : Prop :=
  ∀ (i : Nat) (h : Handshake) (ctx : SslCtx), s.handshakes[i]? = some h → h.stage = .accepted ctx → ctx = h.ctx

theorem presents_iff (hrun : run acts = some s) : Presents acts s ↔ s.PresentsOwn :=
  forall_congr' fun _ => forall_congr' fun _ => forall_congr' fun _ => forall_congr' fun hi => forall_congr' fun hctx =>
    newest_iff hrun hi hctx

theorem own_put (hs : s.PresentsOwn) (hi : s.handshakes[i]? = some h) (stage : Stage) :
    (s.put i { h with stage := stage }).PresentsOwn ↔ ∀ ctx, stage = .accepted ctx → ctx = h.ctx := by
  have hself : (s.put i { h with stage := stage }).handshakes[i]? = some { h with stage := stage } := by
    rw [put, List.getElem?_set_self (List.getElem?_eq_some_iff.1 hi).1]
  constructor
  · exact fun hown ctx hctx => hown i { h with stage := stage } ctx hself hctx
  · intro hstage j h' ctx hj hctx
    by_cases hij : i = j
    · subst hij
      obtain rfl := Option.some.inj (hself.symm.trans hj)
      exact hstage ctx hctx
    · rw [put, List.getElem?_set_ne hij] at hj
      exact hs j h' ctx hj hctx

theorem own_step (hstep : s.next a = some t) (hs : s.PresentsOwn) : t.PresentsOwn ↔ s.Coherent a := by
  cases a with
  | save _ _ _ | remove _ =>
    obtain rfl := Option.some.inj hstep
    exact iff_of_true hs trivial
  | hello name =>
    obtain rfl := Option.some.inj hstep
    refine iff_of_true (fun i h ctx hi hctx => ?_) trivial
    rcases List.mem_append.1 (List.mem_of_getElem? hi) with hold | hnew
    · obtain ⟨j, hj⟩ := List.mem_iff_getElem?.1 hold
      exact hs j h ctx hj hctx
    · obtain rfl := List.mem_singleton.1 hnew
      have hstage := sni_load_stage s.store name
      rw [hctx] at hstage
      simp at hstage
  | look i =>
    obtain ⟨h, hi, -, rfl⟩ := next_look hstep
    rw [own_put hs hi]
    -- the one step that can accept a context it did not build
    constructor
    · intro hown h' hi'
      obtain rfl := Option.some.inj (hi.symm.trans hi')
      cases hcache : s.cache h.host with
      | none => exact .inl rfl
      | some ctx => exact .inr (congrArg some (hown ctx (by rw [hcache]; rfl)))
    · intro hcoherent ctx hctx
      rcases hcoherent h hi with hnone | hsome
      · rw [hnone] at hctx
        cases hctx
      · rw [hsome] at hctx
        exact (Stage.accepted.inj hctx).symm
  | build i =>
    obtain ⟨h, hi, -, rfl⟩ := next_build hstep
    exact iff_of_true ((own_put hs hi (.accepted h.ctx)).2 fun ctx hctx => (Stage.accepted.inj hctx).symm) trivial

end Presented

/-- In every state of a run all handshakes accepted present what was most recently
saved for their host when they began, exactly when no lookup finds a context of
anything but what the handshake has read. -/
theorem presents_newest_iff (acts : List Act) :
    (∀ pre post s, acts = pre ++ post → run pre = some s → Presents pre s) ↔
      ∀ pre a post s t, acts = pre ++ a :: post → run pre = some s → s.next a = some t → s.Coherent a := by
  have hown : (∀ pre post s, acts = pre ++ post → run pre = some s → Presents pre s) ↔
      ∀ pre post s, acts = pre ++ post → run pre = some s → s.PresentsOwn := by
    refine forall_congr' fun pre => forall_congr' fun post => forall_congr' fun s => forall_congr' fun _ => ?_
    exact forall_congr' presents_iff
  rw [hown]
  exact @runM_iff_steps TlsProxy Act next start PresentsOwn Coherent nofun (fun s a t h hs => (own_step h hs).2)
    (fun s a t h hs => mt (own_step h hs).1) acts

/-! ## A renewal -/

def renewal : List Act := [
  .save (bytes "app.example.org") (bytes "cert 1") (bytes "key 1"), .hello (some (bytes "App.example.org")), .look 0, .build 0,
  .save (bytes "app.example.org") (bytes "cert 2") (bytes "key 2"), .hello (some (bytes "App.example.org")), .look 1]

/-- The second handshake is shown the first certificate. -/
theorem renewal_not_presented :
    (run renewal).map (fun s => s.handshakes.map Handshake.stage) =
      some [.accepted ⟨bytes "cert 1", bytes "key 1"⟩, .accepted ⟨bytes "cert 1", bytes "key 1"⟩] ∧
    ¬ ∀ pre post s, renewal = pre ++ post → run pre = some s → Presents pre s := by
  have hsecond : (run renewal).bind (fun s => s.handshakes[1]?) = some ⟨bytes "app.example.org", bytes "cert 2",
      bytes "key 2", .accepted ⟨bytes "cert 1", bytes "key 1"⟩⟩ := by decide +kernel
  refine ⟨by decide +kernel, fun h => ?_⟩
  obtain ⟨s, hrun, hi⟩ := Option.bind_eq_some_iff.1 hsecond
  have hctx := (presents_iff hrun).1 (h renewal [] s (List.append_nil _).symm hrun) 1 _ _ hi rfl
  exact absurd hctx (by decide)

end TlsProxy

end Hostely.Exposure
