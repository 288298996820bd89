import Hostely.Tunnel.Registry
/-!
# The connections of the relay

Each connection of an origin has a thread, `origin_thread`, that registers a
hostname, makes a `Mux` on its own stack, puts its address into
`g_origin_muxes` under the descriptor, and takes the hostname back when the
session is over. A public request asks first the registry for a descriptor and
then `g_origin_muxes` for the `Mux`, under another mutex; in between anything
may happen. Nobody ever takes an address out of `g_origin_muxes`.
-/

open Hostely.Lib

namespace Hostely.Tunnel

/-- Where `origin_thread` is. -/
inductive Place where
  /-- It reads and checks the hello line. -/
  | hello
  /-- The hostname was claimed already. -/
  | refused
  /-- Closed without a `Mux`. -/
  | turned_away
  | registered
  /-- `Mux mux(fd, false)` is done. -/
  | constructed
  /-- `g_origin_muxes[fd] = &mux` is done. -/
  | serving
  /-- Out of the loop. -/
  | leaving
  | unregistered
  /-- `close(fd)` is done, `~Mux` is not. -/
  | closed
  | destroyed
deriving DecidableEq, Repr

namespace Place

/-- The descriptor is the connection's own. -/
def is_open : Place → Bool
  | turned_away | closed | destroyed => false
  | _ => true

/-- Between `register_host` and `unregister_fd`. -/
def holds : Place → Bool
  | registered | constructed | serving | leaving => true
  | _ => false

/-- The `Mux` has been made and not yet destroyed. -/
def has_mux : Place → Bool
  | constructed | serving | leaving | unregistered | closed => true
  | _ => false

/-- The address of the `Mux` has been put into `g_origin_muxes`. -/
def stored : Place → Bool
  | serving | leaving | unregistered | closed | destroyed => true
  | _ => false

theorem open_of_holds {p : Place} : p.holds = true → p.is_open = true := by cases p <;> decide

theorem has_mux_of_holds {p : Place} : p.holds = true → p.stored = true → p.has_mux = true := by cases p <;> decide

end Place

structure Origin where
  fd : Int
  host : Bytes
  place : Place
  /-- `dead_` of its `Mux`. -/
  dead : Bool
deriving DecidableEq, Repr

structure Relay where
  registry : Registry
  /-- An address is the number of the connection whose thread has the `Mux`. -/
  g_origin_muxes : Int → Option Nat
  /-- The connections, in the order in which they were accepted. -/
  origins : List Origin
  /-- The requests in front of their second lookup: the host, and the descriptor
  that `find_origin` returned. -/
  requests : List (Bytes × Int)
  g_stop : Bool
  /-- `std::terminate` was called. -/
  terminated : Bool

namespace Relay

def initial : Relay := ⟨.empty, fun _ => none, [], [], false, false⟩

inductive Act where
  /-- Any descriptor that is not open, also one that was closed just now. -/
  | accept (fd : Int)
  | register (i : Nat) (host : Bytes)
  /-- The hello is not what it should be, or does not come. -/
  | reject (i : Nat)
  | construct (i : Nat)
  | store (i : Nat)
  /-- The reader thread or a failing send sets `dead_`. -/
  | die (i : Nat)
  | leave (i : Nat)
  | unregister (i : Nat)
  | close (i : Nat)
  | destroy (i : Nat)
  | stop
  /-- `find_origin` in `serve_public`. -/
  | find (host : Bytes)
  /-- `g_origin_muxes.find` in `serve_public`. -/
  | look (i : Nat)

def put (s : Relay) (i : Nat) (o : Origin) : Relay := { s with origins := s.origins.set i o }

/-- What the thread of connection `o`, number `i`, does. -/
def thread (s : Relay) (i : Nat) (o : Origin) : Act → Option Relay
  | .register _ host =>
    if o.place = .hello then
      match register_host host o.fd s.registry with
      | (true, r) => some { s.put i { o with host := host, place := .registered } with registry := r }
      | (false, _) => some (s.put i { o with place := .refused })
    else none
  | .reject _ => if o.place = .hello then some (s.put i { o with place := .turned_away }) else none
  | .construct _ => if o.place = .registered then some (s.put i { o with place := .constructed }) else none
  | .store _ =>
    if o.place = .constructed then
      some { s.put i { o with place := .serving } with
        g_origin_muxes := Function.update s.g_origin_muxes o.fd (some i) }
    else none
  | .die _ => if o.place.has_mux then some (s.put i { o with dead := true }) else none
  | .leave _ =>
    if o.place = .serving ∧ (o.dead ∨ s.g_stop) then some (s.put i { o with place := .leaving }) else none
  | .unregister _ =>
    if o.place = .leaving then
      some { s.put i { o with place := .unregistered } with registry := unregister_fd o.fd s.registry }
    else none
  | .close _ =>
    match o.place with
    | .refused => some (s.put i { o with place := .turned_away })
    | .unregistered => some (s.put i { o with place := .closed })
    | _ => none
  | .destroy _ =>
    if o.place = .closed then
      -- a session that is dead is destroyed with its reader not joined
      some { s.put i { o with place := .destroyed } with terminated := o.dead }
    else none
  | _ => none

/-- The connection whose thread acts. -/
def Act.origin : Act → Option Nat
  | register i _ | reject i | construct i | store i | die i | leave i | unregister i | close i | destroy i => some i
  | _ => none

/-- The next state, if the act can happen. -/
def next (s : Relay) (a : Act) : Option Relay :=
  if s.terminated then none
  else match a.origin with
    | some i => s.origins[i]?.bind fun o => s.thread i o a
    | none =>
      match a with
      | .accept fd =>
        if 0 ≤ fd ∧ ∀ o ∈ s.origins, o.place.is_open → o.fd ≠ fd then
          some { s with origins := s.origins ++ [⟨fd, [], .hello, false⟩] }
        else none
      | .stop => some { s with g_stop := true }
      | .find host => some { s with requests := s.requests ++ [(host, find_origin host s.registry)] }
      | .look i => some { s with requests := s.requests.eraseIdx i }
      | _ => none

def step (s : Relay) (a : Act) (t : Relay) : Prop := s.next a = some t

/-- What the second lookup of a request finds. -/
def found (s : Relay) (ofd : Int) : Option Nat := s.g_origin_muxes ofd

/-- Connection `i` holds the registration of `h`, and its `Mux` is there. -/
def LiveHolder (s : Relay) (i : Nat) (h : Bytes) : Prop :=
  ∃ o, s.origins[i]? = some o ∧ o.host = h ∧ o.place.holds = true ∧ o.place.has_mux = true ∧
    s.registry.g_hosts h = some o.fd

/-- The request finds the `Mux` of the connection that has the hostname now, or none. -/
def Right (s : Relay) (h : Bytes) (ofd : Int) : Prop := ∀ i, s.found ofd = some i → s.LiveHolder i h

/-- No connection on this descriptor, past or present, has come to store its
`Mux`; or one has that holds the registration of `h`. -/
def Settled (s : Relay) (h : Bytes) (ofd : Int) : Prop :=
  (∀ o ∈ s.origins, o.fd = ofd → o.place.stored = false) ∨
    ∃ o ∈ s.origins, o.fd = ofd ∧ o.host = h ∧ o.place.stored = true ∧ o.place.holds = true

/-! ## What holds in every state -/

section
variable (origins : List Origin)

/-- A descriptor belongs to one open connection. -/
def OpenUnique : Prop :=
  ∀ (i j : Nat) (o o' : Origin), origins[i]? = some o → origins[j]? = some o' →
    o.place.is_open = true → o'.place.is_open = true → o.fd = o'.fd → i = j

/-- A connection with descriptor `f` holds the registration of `h`. -/
def Holder (f : Int) (h : Bytes) : Prop :=
  ∃ (i : Nat) (o : Origin), origins[i]? = some o ∧ o.place.holds = true ∧ o.fd = f ∧ o.host = h

/-- What `g_origin_muxes` has to do with the connections. -/
structure Table (t : Int → Option Nat) : Prop where
  /-- An address is of a connection that stored it there. -/
  entry : ∀ f i, t f = some i → ∃ o, origins[i]? = some o ∧ o.fd = f ∧ o.place.stored = true
  /-- Who stored has an entry under its descriptor, -/
  kept : ∀ (i : Nat) (o : Origin), origins[i]? = some o → o.place.stored = true → (t o.fd).isSome = true
  /-- and it is its own as long as the connection is open. -/
  own : ∀ (i : Nat) (o : Origin), origins[i]? = some o → o.place.stored = true → o.place.is_open = true →
    t o.fd = some i

end

structure Inv (s : Relay) : Prop where
  open_unique : OpenUnique s.origins
  consistent : s.registry.Consistent
  owns : ∀ f h, s.registry.Owns f h ↔ Holder s.origins f h
  table : Table s.origins s.g_origin_muxes

theorem inv_initial : Inv initial where
  open_unique := by intro i j o o' h; cases h
  consistent := Inverse.empty
  owns := by
    intro f h
    constructor
    · rintro ⟨hosts, hi, -⟩
      cases hi
    · rintro ⟨i, o, hi, -⟩
      cases hi
  table := {
    entry := by intro f i h; cases h
    kept := by intro i o h; cases h
    own := by intro i o h; cases h }

/-! ### One connection changes -/

section
variable {origins : List Origin} {i : Nat} {o o' : Origin}

theorem get_set (ho : origins[i]? = some o) (o' : Origin) (j : Nat) (x : Origin) :
    (origins.set i o')[j]? = some x ↔ (j = i ∧ x = o') ∨ (j ≠ i ∧ origins[j]? = some x) := by
  have hi : i < origins.length := (List.getElem?_eq_some_iff.1 ho).1
  rw [List.getElem?_set]
  by_cases hj : i = j
  · subst hj
    simp [hi, eq_comm]
  · simp [hj, Ne.symm hj]

/-- A connection that is new comes behind the others. -/
theorem get_accept (o : Origin) {j : Nat} {x : Origin} :
    (origins ++ [o])[j]? = some x ↔ origins[j]? = some x ∨ (j = origins.length ∧ x = o) := by
  rw [List.getElem?_append]
  split
  · rename_i hj
    exact ⟨.inl, fun h => h.resolve_right fun hx => absurd hx.1 (Nat.ne_of_lt hj)⟩
  · rename_i hj
    rw [List.getElem?_singleton, List.getElem?_eq_none (Nat.le_of_not_lt hj)]
    have hlen : j - origins.length = 0 ↔ j = origins.length := by omega
    simp [hlen, eq_comm]

theorem OpenUnique.set (hu : OpenUnique origins) (ho : origins[i]? = some o) (hfd : o'.fd = o.fd)
    (hopen : o'.place.is_open = true → o.place.is_open = true) : OpenUnique (origins.set i o') := by
  intro j k x y hx hy hxo hyo hf
  rcases (get_set ho o' j x).1 hx with ⟨rfl, rfl⟩ | ⟨hj, hxj⟩ <;>
    rcases (get_set ho _ k y).1 hy with ⟨rfl, rfl⟩ | ⟨hk, hyk⟩
  · rfl
  · exact hu _ _ _ _ ho hyk (hopen hxo) hyo (hfd.symm.trans hf)
  · exact hu _ _ _ _ hxj ho hxo (hopen hyo) (hf.trans hfd)
  · exact hu _ _ _ _ hxj hyk hxo hyo hf

/-- The holders are the connection that changes and others. -/
theorem holder_set (ho : origins[i]? = some o) (o' : Origin) (f : Int) (h : Bytes) :
    Holder (origins.set i o') f h ↔ (o'.place.holds = true ∧ o'.fd = f ∧ o'.host = h) ∨
      ∃ j x, j ≠ i ∧ origins[j]? = some x ∧ x.place.holds = true ∧ x.fd = f ∧ x.host = h := by
  constructor
  · rintro ⟨j, x, hx, hh⟩
    rcases (get_set ho o' j x).1 hx with ⟨rfl, rfl⟩ | ⟨hj, hxj⟩
    · exact .inl hh
    · exact .inr ⟨j, x, hj, hxj, hh⟩
  · rintro (hh | ⟨j, x, hj, hx, hh⟩)
    · exact ⟨i, o', (get_set ho o' i o').2 (.inl ⟨rfl, rfl⟩), hh⟩
    · exact ⟨j, x, (get_set ho o' j x).2 (.inr ⟨hj, hx⟩), hh⟩

theorem holder_iff (ho : origins[i]? = some o) (f : Int) (h : Bytes) :
    Holder origins f h ↔ (o.place.holds = true ∧ o.fd = f ∧ o.host = h) ∨
      ∃ j x, j ≠ i ∧ origins[j]? = some x ∧ x.place.holds = true ∧ x.fd = f ∧ x.host = h := by
  have hself : origins.set i o = origins := by
    obtain ⟨hi, rfl⟩ := List.getElem?_eq_some_iff.1 ho
    exact List.set_getElem_self hi
  rw [← holder_set ho o f h, hself]

/-- A connection that does not store leaves the table as it fits. -/
theorem Table.set {t : Int → Option Nat} (ht : Table origins t) (ho : origins[i]? = some o) (hfd : o'.fd = o.fd)
    (hopen : o'.place.is_open = true → o.place.is_open = true) (hstored : o'.place.stored = o.place.stored) :
    Table (origins.set i o') t where
  entry := by
    intro f j hj
    obtain ⟨x, hx, hf, hst⟩ := ht.entry f j hj
    by_cases hji : j = i
    · subst hji
      obtain rfl := Option.some.inj (ho.symm.trans hx)
      exact ⟨o', (get_set ho o' j o').2 (.inl ⟨rfl, rfl⟩), hfd.trans hf, hstored.trans hst⟩
    · exact ⟨x, (get_set ho o' j x).2 (.inr ⟨hji, hx⟩), hf, hst⟩
  kept := by
    intro j x hx hst
    rcases (get_set ho o' j x).1 hx with ⟨rfl, rfl⟩ | ⟨-, hxj⟩
    · rw [hfd]
      exact ht.kept _ _ ho (hstored.symm.trans hst)
    · exact ht.kept _ _ hxj hst
  own := by
    intro j x hx hst hop
    rcases (get_set ho o' j x).1 hx with ⟨rfl, rfl⟩ | ⟨-, hxj⟩
    · rw [hfd]
      exact ht.own _ _ ho (hstored.symm.trans hst) (hopen hop)
    · exact ht.own _ _ hxj hst hop

/-- A connection that stores takes the entry of its descriptor from whoever had
it; no other open connection has that descriptor. -/
theorem Table.store {t : Int → Option Nat} (ht : Table origins t) (hu : OpenUnique origins) (ho : origins[i]? = some o)
    (hfd : o'.fd = o.fd) (hopen : o.place.is_open = true) (hstored : o'.place.stored = true) :
    Table (origins.set i o') (Function.update t o.fd (some i)) where
  entry := by
    intro f j hj
    by_cases hf : f = o.fd
    · subst hf
      rw [Function.update_self] at hj
      obtain rfl := Option.some.inj hj
      exact ⟨o', (get_set ho o' i o').2 (.inl ⟨rfl, rfl⟩), hfd, hstored⟩
    · rw [Function.update_of_ne hf] at hj
      obtain ⟨x, hx, hxf, hst⟩ := ht.entry f j hj
      have hji : j ≠ i := by
        rintro rfl
        obtain rfl := Option.some.inj (ho.symm.trans hx)
        exact hf hxf.symm
      exact ⟨x, (get_set ho o' j x).2 (.inr ⟨hji, hx⟩), hxf, hst⟩
  kept := by
    intro j x hx hst
    by_cases hf : x.fd = o.fd
    · simp [hf]
    · rw [Function.update_of_ne hf]
      rcases (get_set ho o' j x).1 hx with ⟨rfl, rfl⟩ | ⟨-, hxj⟩
      · exact absurd hfd hf
      · exact ht.kept _ _ hxj hst
  own := by
    intro j x hx hst hop
    rcases (get_set ho o' j x).1 hx with ⟨rfl, rfl⟩ | ⟨hj, hxj⟩
    · rw [hfd, Function.update_self]
    · have hf : x.fd ≠ o.fd := fun hf => hj (hu j i x o hxj ho hop hopen hf)
      rw [Function.update_of_ne hf]
      exact ht.own _ _ hxj hst hop

end

/-! ### The acts of a connection -/

section
variable {s : Relay} {i : Nat} {o : Origin}

/-- A connection moves on and neither registers, stores nor unregisters. -/
theorem Inv.move (hs : s.Inv) (ho : s.origins[i]? = some o) (o' : Origin) (hfd : o'.fd = o.fd) (hhost : o'.host = o.host)
    (hopen : o'.place.is_open = true → o.place.is_open = true) (hstored : o'.place.stored = o.place.stored)
    (hholds : o'.place.holds = o.place.holds) : (s.put i o').Inv where
  open_unique := hs.open_unique.set ho hfd hopen
  consistent := hs.consistent
  owns := by
    intro f h
    refine ((hs.owns f h).trans (holder_iff ho f h)).trans ?_
    rw [← hholds, ← hfd, ← hhost]
    exact (holder_set ho o' f h).symm
  table := hs.table.set ho hfd hopen hstored

/-- Between these two places it does none of that. -/
theorem Inv.move_to (hs : s.Inv) (ho : s.origins[i]? = some o) {p q : Place} (hp : o.place = p)
    (hkeeps : (q.is_open = true → p.is_open = true) ∧ q.stored = p.stored ∧ q.holds = p.holds) :
    (s.put i { o with place := q }).Inv := by
  subst hp
  exact hs.move ho _ rfl rfl hkeeps.1 hkeeps.2.1 hkeeps.2.2

/-- A connection registers a hostname that is free. -/
theorem Inv.register (hs : s.Inv) (ho : s.origins[i]? = some o) (hp : o.place = .hello) (h : Bytes)
    (hfree : s.registry.g_hosts h = none) :
    Inv { s.put i { o with host := h, place := .registered } with registry := (register_host h o.fd s.registry).2 } where
  open_unique := hs.open_unique.set ho rfl (by simp [hp, Place.is_open])
  consistent := register_host_consistent hs.consistent h o.fd
  owns := by
    intro f h'
    have hnot : ¬ o.place.holds = true := by simp [hp, Place.holds]
    refine Iff.trans ?_ (holder_set ho _ f h').symm
    rw [register_host_free hfree]
    refine (lists_insert _ _ _ _ _).trans (or_congr ?_ ?_)
    · exact ⟨fun hh => ⟨rfl, hh.1.symm, hh.2.symm⟩, fun hh => ⟨hh.2.1.symm, hh.2.2.symm⟩⟩
    · exact ((hs.owns f h').trans (holder_iff ho f h')).trans (or_iff_right fun hh => hnot hh.1)
  table := hs.table.set ho rfl (by simp [hp, Place.is_open]) (by simp [hp, Place.stored])

/-- A connection gives its hostname back. -/
theorem Inv.unregister (hs : s.Inv) (ho : s.origins[i]? = some o) (hp : o.place = .leaving) :
    Inv { s.put i { o with place := .unregistered } with registry := unregister_fd o.fd s.registry } where
  open_unique := hs.open_unique.set ho rfl (by simp [hp, Place.is_open])
  consistent := unregister_fd_consistent hs.consistent o.fd
  owns := by
    intro f h
    have hopen : o.place.is_open = true := by simp [hp, Place.is_open]
    rw [unregister_fd_owns, hs.owns]
    refine Iff.trans ?_ (holder_set ho _ f h).symm
    constructor
    · rintro ⟨hf, hh⟩
      rcases (holder_iff ho f h).1 hh with hh | hh
      · exact absurd hh.2.1.symm hf
      · exact .inr hh
    · rintro (hh | ⟨j, x, hj, hx, hh, rfl, hxh⟩)
      · exact absurd hh.1 Bool.false_ne_true
      · refine ⟨fun hf => hj ?_, j, x, hx, hh, rfl, hxh⟩
        exact hs.open_unique j i x o hx ho (Place.open_of_holds hh) hopen hf
  table := hs.table.set ho rfl (by simp [hp, Place.is_open]) (by simp [hp, Place.stored])

theorem Inv.store (hs : s.Inv) (ho : s.origins[i]? = some o) (hp : o.place = .constructed) :
    Inv { s.put i { o with place := .serving } with
      g_origin_muxes := Function.update s.g_origin_muxes o.fd (some i) } where
  open_unique := hs.open_unique.set ho rfl (by simp [hp, Place.is_open])
  consistent := hs.consistent
  owns := by
    intro f h
    refine ((hs.owns f h).trans (holder_iff ho f h)).trans ((holder_set ho _ f h).trans ?_).symm
    simp [hp, Place.holds]
  table := hs.table.store hs.open_unique ho rfl (by simp [hp, Place.is_open]) rfl

/-- A new connection comes on a descriptor that no open connection has. -/
theorem Inv.accept (hs : s.Inv) {fd : Int} (hfree : ∀ o ∈ s.origins, o.place.is_open = true → o.fd ≠ fd) :
    Inv { s with origins := s.origins ++ [⟨fd, [], .hello, false⟩] } where
  open_unique := by
    intro j k x y hx hy hxo hyo hf
    rcases (get_accept _).1 hx with hx | ⟨rfl, rfl⟩ <;> rcases (get_accept _).1 hy with hy | ⟨rfl, rfl⟩
    · exact hs.open_unique j k x y hx hy hxo hyo hf
    · exact absurd hf (hfree x (List.mem_of_getElem? hx) hxo)
    · exact absurd hf.symm (hfree y (List.mem_of_getElem? hy) hyo)
    · rfl
  consistent := hs.consistent
  owns := by
    intro f h
    refine (hs.owns f h).trans ⟨?_, ?_⟩
    · rintro ⟨j, x, hx, hh⟩
      exact ⟨j, x, (get_accept _).2 (.inl hx), hh⟩
    · rintro ⟨j, x, hx, hh, hxf⟩
      rcases (get_accept _).1 hx with hx | ⟨-, rfl⟩
      · exact ⟨j, x, hx, hh, hxf⟩
      · cases hh
  table := {
    entry := by
      intro f j hj
      obtain ⟨x, hx, hh⟩ := hs.table.entry f j hj
      exact ⟨x, (get_accept _).2 (.inl hx), hh⟩
    kept := by
      intro j x hx hst
      rcases (get_accept _).1 hx with hx | ⟨-, rfl⟩
      · exact hs.table.kept j x hx hst
      · cases hst
    own := by
      intro j x hx hst hop
      rcases (get_accept _).1 hx with hx | ⟨-, rfl⟩
      · exact hs.table.own j x hx hst hop
      · cases hst }

/-- What a thread does keeps the invariant. -/
theorem inv_thread {a : Act} {t : Relay} (hs : s.Inv) (ho : s.origins[i]? = some o) (h : s.thread i o a = some t) :
    t.Inv := by
  cases a with
  | register j host =>
    simp only [thread] at h
    split at h
    · rename_i hp
      cases hfree : s.registry.g_hosts host with
      | none =>
        have hreg := hs.register ho hp host hfree
        rw [register_host_free hfree] at h hreg
        cases h
        exact hreg
      | some f =>
        rw [register_host_owned (Option.isSome_of_eq_some hfree)] at h
        cases h
        exact hs.move_to ho hp (by decide)
    · cases h
  | die j =>
    simp only [thread] at h
    split at h
    · cases h
      exact hs.move ho _ rfl rfl id rfl rfl
    · cases h
  | leave j =>
    simp only [thread] at h
    split at h
    · rename_i hp
      cases h
      exact hs.move_to ho hp.1 (by decide)
    · cases h
  | store j =>
    simp only [thread] at h
    split at h
    · cases h
      exact hs.store ho ‹_›
    · cases h
  | unregister j =>
    simp only [thread] at h
    split at h
    · cases h
      exact hs.unregister ho ‹_›
    · cases h
  | close j =>
    simp only [thread] at h
    split at h
    · rename_i hp
      cases h
      exact hs.move_to ho hp (by decide)
    · rename_i hp
      cases h
      exact hs.move_to ho hp (by decide)
    · cases h
  | destroy j =>
    simp only [thread] at h
    split at h
    · rename_i hp
      cases h
      have hmoved := hs.move_to (q := .destroyed) ho hp (by decide)
      exact ⟨hmoved.open_unique, hmoved.consistent, hmoved.owns, hmoved.table⟩
    · cases h
  | reject j | construct j =>
    simp only [thread] at h
    split at h
    · rename_i hp
      cases h
      exact hs.move_to ho hp (by decide)
    · cases h
  | accept _ | stop | find _ | look _ => cases h

end

theorem inv_step {s t : Relay} {a : Act} (hs : s.Inv) (h : s.step a t) : t.Inv := by
  unfold step next at h
  split at h
  · cases h
  · split at h
    · obtain ⟨o, ho, h⟩ := Option.bind_eq_some_iff.1 h
      exact inv_thread hs ho h
    · split at h
      · split at h
        · rename_i hfree
          cases h
          exact hs.accept hfree.2
        · cases h
      -- a request changes nothing that the invariant speaks of, nor does the signal
      · cases h
        exact ⟨hs.open_unique, hs.consistent, hs.owns, hs.table⟩
      · cases h
        exact ⟨hs.open_unique, hs.consistent, hs.owns, hs.table⟩
      · cases h
        exact ⟨hs.open_unique, hs.consistent, hs.owns, hs.table⟩
      · cases h

theorem reachable_inv {s : Relay} (hr : Reaches step (· = initial) s) : s.Inv := by
  refine Reaches.inv (I := Inv) ?_ (fun _ _ _ => inv_step) hr
  rintro _ rfl
  exact inv_initial

/-! ## What a request finds -/

theorem Inv.right_iff {s : Relay} (hs : s.Inv) (h : Bytes) (ofd : Int) : s.Right h ofd ↔ s.Settled h ofd := by
  constructor
  · intro hright
    cases hf : s.found ofd with
    | none =>
      left
      intro o ho hfd
      obtain ⟨i, hi⟩ := List.getElem?_of_mem ho
      cases hst : o.place.stored with
      | false => rfl
      | true =>
        have hkept := hs.table.kept i o hi hst
        rw [hfd] at hkept
        exact absurd hf (Option.isSome_iff_ne_none.1 hkept)
    | some i =>
      obtain ⟨o, ho, hh, hholds, -, -⟩ := hright i hf
      obtain ⟨x, hx, hfd, hst⟩ := hs.table.entry ofd i hf
      obtain rfl := Option.some.inj (ho.symm.trans hx)
      exact .inr ⟨o, List.mem_of_getElem? ho, hfd, hh, hst, hholds⟩
  · rintro (hnone | ⟨o, ho, rfl, rfl, hst, hholds⟩) i hf
    · obtain ⟨o, ho, hfd, hst⟩ := hs.table.entry ofd i hf
      rw [hnone o (List.mem_of_getElem? ho) hfd] at hst
      cases hst
    · obtain ⟨j, hj⟩ := List.getElem?_of_mem ho
      obtain rfl := Option.some.inj ((hs.table.own j o hj hst (Place.open_of_holds hholds)).symm.trans hf)
      have howner := (hs.consistent o.host o.fd).2 ((hs.owns o.fd o.host).2 ⟨j, o, hj, hholds, rfl, rfl⟩)
      exact ⟨o, hj, rfl, hholds, Place.has_mux_of_holds hholds hst, howner⟩

/-- In every state of every run, a request that is about to ask for the `Mux` gets
the one of the connection that has the hostname, or none, exactly if nobody ever
stored one under the descriptor, or the connection that has the hostname now has. -/
theorem lookup_right_iff {s : Relay} (hr : Reaches step (· = initial) s) (h : Bytes) (ofd : Int) :
    s.Right h ofd ↔ s.Settled h ofd :=
  (reachable_inv hr).right_iff h ofd

/-- What a run on fixed acts ends with. -/
theorem run_eq {as : List Act} {s : Relay} {α : Type} {f : Relay → α} {x : α} (hs : as.foldlM next initial = some s)
    (h : (as.foldlM next initial).map f = some x) : f s = x := by
  rw [hs] at h
  exact Option.some.inj h

/-- An origin that serves a request. -/
def toyServe : List Act := [.accept 5, .register 0 (bytes "a"), .construct 0, .store 0, .find (bytes "a")]

theorem lookup_right_serving :
    ∃ s, toyServe.foldlM next initial = some s ∧ s.requests = [(bytes "a", 5)] ∧ s.Right (bytes "a") 5 := by
  have hrun : (toyServe.foldlM next initial).isSome = true := by decide +kernel
  obtain ⟨s, hs⟩ := Option.isSome_iff_exists.1 hrun
  have hrequests : s.requests = [(bytes "a", 5)] := run_eq hs (by decide +kernel)
  have horigins : s.origins = [⟨5, bytes "a", .serving, false⟩] := run_eq hs (by decide +kernel)
  have hreach : Reaches step (· = initial) s := Reaches.foldlM (fun _ _ _ => id) (.init rfl) hs
  refine ⟨s, hs, hrequests, (lookup_right_iff hreach _ _).2 (.inr ⟨⟨5, bytes "a", .serving, false⟩, ?_, rfl, rfl, rfl, rfl⟩)⟩
  rw [horigins]
  exact List.mem_singleton.2 rfl

/-- The origin is gone; the next connection gets its descriptor and registers, and
a request comes before it has stored its `Mux`. -/
def toyReuse : List Act :=
  [.accept 5, .register 0 (bytes "a"), .construct 0, .store 0, .die 0, .leave 0, .unregister 0, .close 0,
    .accept 5, .register 1 (bytes "a"), .find (bytes "a")]

/-- The request finds the dead `Mux` of the first connection. -/
theorem stale_mux_found :
    ∃ s, Reaches step (· = initial) s ∧ (bytes "a", 5) ∈ s.requests ∧ s.found 5 = some 0 ∧ ¬ s.Right (bytes "a") 5 := by
  have hrun : (toyReuse.foldlM next initial).isSome = true := by decide +kernel
  obtain ⟨s, hs⟩ := Option.isSome_iff_exists.1 hrun
  have hrequests : s.requests = [(bytes "a", 5)] := run_eq hs (by decide +kernel)
  have horigins : s.origins = [⟨5, bytes "a", .closed, true⟩, ⟨5, bytes "a", .registered, false⟩] :=
    run_eq hs (by decide +kernel)
  have hfound : s.found 5 = some 0 := run_eq (f := fun s => s.found 5) hs (by decide +kernel)
  refine ⟨s, Reaches.foldlM (fun _ _ _ => id) (.init rfl) hs, ?_, hfound, fun hright => ?_⟩
  · rw [hrequests]
    exact List.mem_singleton.2 rfl
  · obtain ⟨o, ho, -, hholds, -⟩ := hright 0 hfound
    rw [horigins] at ho
    obtain rfl := Option.some.inj ho
    cases hholds

end Relay

end Hostely.Tunnel
