import Hostely.Apps.LoadCompose
import Hostely.Apps.RoundTrip
/-!
# A service in a compose file

A mapping is a list of keys, each a line and the lines below it. What the lines
of a key are read as is said for every file they stand in; a mapping of such
keys, nested in another one, is again read as a key. `Around` is a compose file
with one key of one service left open.
-/

open Hostely.Lib

namespace Hostely.Apps

/-! ## The keys of a mapping -/

/-- The next line, if there is one, is a key of the same mapping or of an outer one. -/
def Ends (indent : Nat) (tail : List Line) : Prop :=
  ∀ l, tail.head? = some l → l.indent ≤ indent ∧ is_dash l.text = false

/-- Before these lines, the line and the ones below it are read as the key with
the value, in whatever file and mapping. -/
structure ReadsKey (indent : Nat) (l : Line) (below tail : List Line) (key : Bytes) (value : Node) : Prop where
  indented : l.indent = indent
  dash : is_dash l.text = false
  split : ∃ val, split_kv l.text = some (key, val)
  reads : ∀ {lines : List Line} {fuel : Nat} {n : Entries} {p : Parser}, lines.drop p.pos = below ++ tail →
    Parses (parse_kv_into lines fuel n l.text p) (assign key value n) (p.pos + below.length)

/-- A key that is read in the same way before whatever follows its mapping. -/
structure KeyBlock (indent : Nat) where
  line : Line
  below : List Line
  key : Bytes
  value : Node
  reads : ∀ {tail}, Ends indent tail → ReadsKey indent line below tail key value

/-- A key with its value on the line. -/
def KeyBlock.scalar (l : Line) (key val : Bytes) (hdash : is_dash l.text = false)
    (hsplit : split_kv l.text = some (key, val)) (hval : val ≠ []) : KeyBlock l.indent where
  line := l
  below := []
  key := key
  value := .scalar (unquote val)
  reads := fun _ => {
    indented := rfl
    dash := hdash
    split := ⟨val, hsplit⟩
    reads := fun {_ fuel _ p} _ => by
      cases fuel with
      | zero => exact .inl (by rw [parse_kv_into])
      | succ fuel => exact .inr ⟨p, parse_kv_scalar hsplit hval, rfl⟩ }

section
variable {indent inner : Nat}

def block_entries (blocks : List (KeyBlock indent)) : Entries := blocks.map fun b => (b.key, b.value)

def all_lines (blocks : List (KeyBlock indent)) : List Line := blocks.flatMap fun b => b.line :: b.below

/-- The entries, in the order in which they are written. -/
def assign_all (entries n : Entries) : Entries := entries.foldl (fun m e => assign e.1 e.2 m) n

/-- Before these lines, the lines are read as a mapping with the entries. -/
def ReadsKeys (indent : Nat) (ls tail : List Line) (entries : Entries) : Prop :=
  ∀ ⦃lines : List Line⦄ ⦃fuel : Nat⦄ ⦃n : Entries⦄ ⦃p : Parser⦄, lines.drop p.pos = ls ++ tail →
    Parses (parse_map lines fuel indent n p) (.map (assign_all entries n)) (p.pos + ls.length)

theorem ends_all_lines {blocks : List (KeyBlock indent)} {tail : List Line} (h : Ends indent tail) :
    Ends indent (all_lines blocks ++ tail) := by
  cases blocks with
  | nil => exact h
  | cons b blocks =>
    intro l hl
    obtain rfl : b.line = l := Option.some.inj hl
    have hread : ReadsKey indent b.line b.below [] b.key b.value := b.reads fun _ h => by cases h
    exact ⟨hread.indented.le, hread.dash⟩

theorem ReadsKey.ends {l : Line} {below tail : List Line} {key : Bytes} {value : Node}
    (h : ReadsKey indent l below tail key value) (rest : List Line) : Ends indent (l :: rest) := by
  intro l' hl'
  obtain rfl : l = l' := Option.some.inj hl'
  exact ⟨h.indented.le, h.dash⟩

theorem ReadsKeys.nil {tail : List Line} (h : ∀ l, tail.head? = some l → l.indent < indent) :
    ReadsKeys indent [] tail [] := by
  intro lines fuel n p hp
  cases fuel with
  | zero => exact .inl (by rw [parse_map])
  | succ fuel => exact .inr ⟨p, parse_map_stop fun l hl => ne_of_lt (h l ((line_at hp).symm.trans hl)), rfl⟩

theorem ReadsKeys.cons {l : Line} {below rest tail : List Line} {key : Bytes} {value : Node} {entries : Entries}
    (h : ReadsKey indent l below (rest ++ tail) key value) (hrest : ReadsKeys indent rest tail entries) :
    ReadsKeys indent (l :: below ++ rest) tail ((key, value) :: entries) := by
  intro lines fuel n p hp
  cases fuel with
  | zero => exact .inl (by rw [parse_map])
  | succ fuel =>
    rw [List.append_assoc, List.cons_append] at hp
    rw [parse_map_take (line_at hp) h.indented h.dash]
    refine (h.reads (drop_take hp)).bind fun q hq => ?_
    have hq' : lines.drop q.pos = rest ++ tail := by
      rw [hq, ← List.drop_drop, drop_take hp, List.drop_left]
    have hpos : p.pos + (l :: below ++ rest).length = q.pos + rest.length := by
      have htake : p.take.pos = p.pos + 1 := rfl
      simp only [List.cons_append, List.length_cons, List.length_append]
      omega
    rw [hpos]
    exact hrest hq'

theorem ReadsKeys.blocks (blocks : List (KeyBlock indent)) {ls tail : List Line} {entries : Entries}
    (hends : Ends indent (ls ++ tail)) (h : ReadsKeys indent ls tail entries) :
    ReadsKeys indent (all_lines blocks ++ ls) tail (block_entries blocks ++ entries) := by
  induction blocks with
  | nil => exact h
  | cons b blocks ih =>
    have hb : ReadsKey indent b.line b.below (all_lines blocks ++ ls ++ tail) b.key b.value := by
      rw [List.append_assoc]
      exact b.reads (ends_all_lines hends)
    have hlines : all_lines (b :: blocks) ++ ls = b.line :: b.below ++ (all_lines blocks ++ ls) := by
      simp [all_lines]
    rw [hlines]
    exact ReadsKeys.cons hb ih

/-- The keys of a mapping around one of them. -/
theorem ReadsKey.among (before after : List (KeyBlock indent)) {l : Line} {below tail : List Line} {key : Bytes}
    {value : Node} (h : ReadsKey indent l below (all_lines after ++ tail) key value)
    (hdash : Ends indent tail) (htail : ∀ l, tail.head? = some l → l.indent < indent) :
    ReadsKeys indent (all_lines before ++ (l :: below ++ all_lines after)) tail
      (block_entries before ++ (key, value) :: block_entries after) := by
  have hafter : ReadsKeys indent (all_lines after) tail (block_entries after) := by
    have hnil : ReadsKeys indent (all_lines after ++ []) tail (block_entries after ++ []) :=
      ReadsKeys.blocks after (by simpa using hdash) (ReadsKeys.nil htail)
    simpa using hnil
  exact ReadsKeys.blocks before (h.ends _) (ReadsKeys.cons h hafter)

/-- A mapping below a key. -/
theorem ReadsKeys.under {first l : Line} {rest tail : List Line} {key : Bytes} {entries : Entries}
    (h : ReadsKeys inner (first :: rest) tail entries) (hfirst : first.indent = inner)
    (hkey : ∃ kv, split_kv first.text = some kv) (hdash : is_dash first.text = false) (hinner : indent < inner)
    (hl : l.indent = indent) (hsplit : split_kv l.text = some (key, [])) (hldash : is_dash l.text = false) :
    ReadsKey indent l (first :: rest) tail key (.map (assign_all entries [])) where
  indented := hl
  dash := hldash
  split := ⟨_, hsplit⟩
  reads := fun {lines fuel n p} hp => by
    cases fuel with
    | zero => exact .inl (by rw [parse_kv_into])
    | succ fuel =>
      obtain ⟨kv, hkv⟩ := hkey
      obtain ⟨kv', hcolon, -⟩ := Option.map_eq_some_iff.1 hkv
      have hpos : 0 < first.indent := by omega
      have hchild : starts_child first = true := by simp [starts_child, hpos, looks_like_kv_of_split hcolon]
      rw [parse_kv_child hsplit (line_at hp) hchild, if_neg (by simp [hdash]), hfirst]
      exact (h hp).bind fun q hq => .inr ⟨q, rfl, hq⟩

/-- The first line of a mapping that has this key. -/
theorem ReadsKey.first_line {l : Line} {below tail : List Line} {key : Bytes} {value : Node}
    (h : ReadsKey indent l below tail key value) (before : List (KeyBlock indent)) (rest : List Line) :
    ∃ first more, all_lines before ++ l :: rest = first :: more ∧ first.indent = indent ∧
      (∃ kv, split_kv first.text = some kv) ∧ is_dash first.text = false := by
  cases before with
  | nil => exact ⟨l, rest, rfl, h.indented, h.split.imp' _ fun _ => id, h.dash⟩
  | cons b before =>
    have hb : ReadsKey indent b.line b.below [] b.key b.value := b.reads fun _ h => by cases h
    exact ⟨b.line, b.below ++ (all_lines before ++ l :: rest), by simp [all_lines], hb.indented,
      hb.split.imp' _ fun _ => id, hb.dash⟩

/-- A key among the keys of a mapping below another key. -/
theorem ReadsKey.inside (before after : List (KeyBlock inner)) {l outer : Line} {below tail : List Line} {key name : Bytes}
    {value : Node} (h : ReadsKey inner l below (all_lines after ++ tail) key value) (hends : Ends indent tail)
    (hinner : indent < inner) (houter : outer.indent = indent) (hsplit : split_kv outer.text = some (name, []))
    (hdash : is_dash outer.text = false) :
    ReadsKey indent outer (all_lines before ++ (l :: below ++ all_lines after)) tail name
      (.map (assign_all (block_entries before ++ (key, value) :: block_entries after) [])) := by
  have htail : ∀ l, tail.head? = some l → l.indent < inner := fun l hl => (hends l hl).1.trans_lt hinner
  have hinside : Ends inner tail := fun l hl => ⟨(htail l hl).le, (hends l hl).2⟩
  have hkeys := ReadsKey.among before after h hinside htail
  obtain ⟨first, more, hlines, hfirst, hkv, hfdash⟩ := h.first_line before (below ++ all_lines after)
  rw [List.cons_append] at hkeys ⊢
  rw [hlines] at hkeys ⊢
  exact hkeys.under hfirst hkv hfdash hinner houter hsplit hdash

end

/-! ## A compose file with one key open -/

/-- A compose file around the lines of one key of one service. The mappings above
the key have it, the service and `services` as the last keys of their names. -/
structure Around (key : Bytes) where
  root_at : Nat
  service_at : Nat
  key_at : Nat
  service_deeper : root_at < service_at
  key_deeper : service_at < key_at
  services_text : Bytes
  services_split : split_kv services_text = some (bytes "services", [])
  services_dash : is_dash services_text = false
  name : Bytes
  name_text : Bytes
  name_split : split_kv name_text = some (name, [])
  name_dash : is_dash name_text = false
  root_before : List (KeyBlock root_at)
  root_after : List (KeyBlock root_at)
  services_last : bytes "services" ∉ (block_entries root_after).map Prod.fst
  services_before : List (KeyBlock service_at)
  services_after : List (KeyBlock service_at)
  name_last : name ∉ (block_entries services_after).map Prod.fst
  keys_before : List (KeyBlock key_at)
  keys_after : List (KeyBlock key_at)
  key_last : key ∉ (block_entries keys_after).map Prod.fst

namespace Around
variable {key : Bytes} (a : Around key)

def above : List Line :=
  all_lines a.root_before ++ ⟨a.root_at, a.services_text⟩ ::
    (all_lines a.services_before ++ ⟨a.service_at, a.name_text⟩ :: all_lines a.keys_before)

def behind : List Line := all_lines a.keys_after ++ (all_lines a.services_after ++ all_lines a.root_after)

def lines (ls : List Line) : List Line := a.above ++ (ls ++ a.behind)

/-- The entries of the service, of `services` and of the file, with this value
for the key. -/
def body (value : Node) : Entries :=
  assign_all (block_entries a.keys_before ++ (key, value) :: block_entries a.keys_after) []

def services (value : Node) : Entries :=
  assign_all (block_entries a.services_before ++ (a.name, .map (a.body value)) :: block_entries a.services_after) []

def root (value : Node) : Entries :=
  assign_all (block_entries a.root_before ++ (bytes "services", .map (a.services value)) :: block_entries a.root_after) []

variable {a} {l : Line} {below : List Line} {value : Node}

theorem ends_nil {indent : Nat} : Ends indent [] := fun _ h => by cases h

theorem root_ends (a : Around key) : Ends a.root_at (all_lines a.root_after) := by
  have h : Ends a.root_at (all_lines a.root_after ++ []) := ends_all_lines ends_nil
  rwa [List.append_nil] at h

theorem service_ends (a : Around key) : Ends a.service_at (all_lines a.services_after ++ all_lines a.root_after) :=
  ends_all_lines fun l hl => ⟨(a.root_ends l hl).1.trans a.service_deeper.le, (a.root_ends l hl).2⟩

theorem behind_ends (a : Around key) : Ends a.key_at a.behind :=
  ends_all_lines fun l hl => ⟨(a.service_ends l hl).1.trans a.key_deeper.le, (a.service_ends l hl).2⟩

/-- The lines of the key in their place are read as its value in its place. -/
theorem reads (h : ReadsKey a.key_at l below a.behind key value) :
    ∃ p, parse_root (a.lines (l :: below)) = .ok (.map (a.root value), p) := by
  have hservice : ReadsKey a.service_at ⟨a.service_at, a.name_text⟩ _ _ a.name (.map (a.body value)) :=
    h.inside a.keys_before a.keys_after a.service_ends a.key_deeper rfl a.name_split a.name_dash
  have hservices : ReadsKey a.root_at ⟨a.root_at, a.services_text⟩ _ _ (bytes "services") (.map (a.services value)) :=
    hservice.inside a.services_before a.services_after a.root_ends a.service_deeper rfl a.services_split a.services_dash
  rw [← List.append_nil (all_lines a.root_after)] at hservices
  have hroot := hservices.among a.root_before a.root_after ends_nil fun l hl => by cases hl
  obtain ⟨first, more, hlines, hfirst, -, -⟩ := hservices.first_line a.root_before
    (all_lines a.services_before ++ (⟨a.service_at, a.name_text⟩ :: (all_lines a.keys_before ++
      (l :: below ++ all_lines a.keys_after)) ++ all_lines a.services_after) ++ all_lines a.root_after)
  have hall : a.lines (l :: below) = first :: more := by
    rw [← hlines]
    simp [lines, above, behind]
  have hindent : (((a.lines (l :: below)).head?.map Line.indent).getD 0) = a.root_at := by
    rw [hall]
    exact hfirst
  obtain ⟨i, hparse⟩ : ∃ i, Parses (parse_root (a.lines (l :: below))) (.map (a.root value)) i := by
    rw [parse_root, hindent]
    refine ⟨_, hroot (p := ⟨0, []⟩) ?_⟩
    simp [lines, above, behind]
  rcases hparse with hfuel | ⟨p, hok, -⟩
  · exact absurd hfuel parse_root_ne_fuel
  · exact ⟨p, hok⟩

/-! ## What is loaded -/

/-- With another value for the key only the service changes. -/
theorem services_eq (a : Around key) (v w : Node) :
    a.services w = replaceKey Prod.fst (a.name, .map (a.body w)) (a.services v) := by
  unfold services assign_all
  exact foldl_assign_replaceKey (.map (a.body v)) (.map (a.body w)) a.name_last List.Pairwise.nil

theorem mem_services (a : Around key) (v : Node) : (a.name, .map (a.body v)) ∈ a.services v := by
  unfold services assign_all
  exact mem_of_lookup (lookup_foldl_last (.map (a.body v)) a.name_last)

theorem body_lookup (a : Around key) (v : Node) : (a.body v).lookup key = some v := by
  unfold body assign_all
  exact lookup_foldl_last v a.key_last

theorem body_lookup_ne (a : Around key) (v w : Node) {k : Bytes} (h : k ≠ key) :
    (a.body w).lookup k = (a.body v).lookup k := by
  unfold body assign_all
  rw [foldl_assign_replaceKey v w a.key_last List.Pairwise.nil, lookup_replaceKey w h]

theorem read_services_eq (path : Bytes) (env : Env) (a : Around key) (value : Node) :
    read_services path env (.map (a.root value)) = (a.services value).mapM (load_service env) := by
  have hlookup : (a.root value).lookup (bytes "services") = some (.map (a.services value)) := by
    unfold root assign_all
    exact lookup_foldl_last (.map (a.services value)) a.services_last
  simp only [read_services, Node.entries, hlookup]
  cases hload : (a.services value).mapM (load_service env) with
  | error e => rfl
  | ok services =>
    have hnonempty : services ≠ [] := by
      rintro rfl
      have hnames := mapM_names (fun _ _ => load_service_name) hload
      have hmem := List.mem_map_of_mem (f := Prod.fst) (a.mem_services value)
      rw [← hnames] at hmem
      cases hmem
    exact if_neg hnonempty

theorem load_lines_eq (path : Bytes) (env : Env) (h : ReadsKey a.key_at l below a.behind key value) :
    load_lines path env (a.lines (l :: below)) =
      (a.services value).mapM (load_service env) >>= fun services => .ok ⟨path, services⟩ := by
  obtain ⟨p, hparse⟩ := reads h
  have hne : a.lines (l :: below) ≠ [] := by simp [lines]
  rw [load_lines, if_neg hne, hparse, ← read_services_eq]
  rfl

/-- A file that loads has loaded the service. -/
theorem service_loads {path : Bytes} {env : Env} {out : ComposeFile} (h : ReadsKey a.key_at l below a.behind key value)
    (hout : load_lines path env (a.lines (l :: below)) = .ok out) :
    ∃ s, load_service env (a.name, .map (a.body value)) = .ok s := by
  rw [load_lines_eq path env h] at hout
  obtain ⟨services, hservices, -⟩ := bind_eq_ok hout
  exact mapM_ok_each hservices (a.mem_services value)

/-- Two spellings of the key, for which the service loads or fails alike: the
file loads or fails alike, and to the same services exactly when the service is
the same. -/
theorem load_lines_same (path : Bytes) (env : Env) {l' : Line} {below' : List Line} {value' : Node}
    (h : ReadsKey a.key_at l below a.behind key value) (h' : ReadsKey a.key_at l' below' a.behind key value')
    (htogether : Together (load_service env (a.name, .map (a.body value))) (load_service env (a.name, .map (a.body value')))) :
    Together (load_lines path env (a.lines (l :: below))) (load_lines path env (a.lines (l' :: below'))) ∧
    ∀ out, load_lines path env (a.lines (l :: below)) = .ok out →
      (load_lines path env (a.lines (l' :: below')) = .ok out ↔
        load_service env (a.name, .map (a.body value')) = load_service env (a.name, .map (a.body value))) := by
  have hascending : Ascending (a.services value) := by
    unfold services assign_all
    exact foldl_assign_ascending _ List.Pairwise.nil
  have hold {e : Bytes × Node} (he : e ∈ a.services value) (hname : e.1 = a.name) : e = (a.name, .map (a.body value)) :=
    key_unique Prod.fst hascending.nodup he (a.mem_services value) hname
  -- the services of the second file are those of the first, loaded by `g`
  obtain ⟨g, hg, hname, hother⟩ : ∃ g, (a.services value').mapM (load_service env) = (a.services value).mapM g ∧
      g (a.name, .map (a.body value)) = load_service env (a.name, .map (a.body value')) ∧
      ∀ e, e.1 ≠ a.name → g e = load_service env e := by
    refine ⟨load_service env ∘ fun e => if e.1 = a.name then (a.name, .map (a.body value')) else e, ?_, ?_, ?_⟩
    · rw [services_eq a value value', replaceKey, List.mapM_map]
    · rw [Function.comp, if_pos rfl]
    · intro e he
      rw [Function.comp, if_neg he]
  rw [load_lines_eq path env h, load_lines_eq path env h', hg]
  have hall : Together ((a.services value).mapM (load_service env)) ((a.services value).mapM g) := by
    refine Together.mapM fun e he => ?_
    by_cases hn : e.1 = a.name
    · rw [hold he hn, hname]
      exact htogether
    · rw [hother e hn]
      exact .refl _
  refine ⟨hall.map _, fun out hout => ?_⟩
  obtain ⟨loaded, hloaded, hret⟩ := bind_eq_ok hout
  obtain rfl := Except.ok.inj hret
  have hsame : ((a.services value).mapM g >>= fun services => Except.ok (ComposeFile.mk path services)) =
      .ok ⟨path, loaded⟩ ↔ (a.services value).mapM g = .ok loaded := by
    constructor
    · intro h
      obtain ⟨services, hservices, hret⟩ := bind_eq_ok h
      rwa [← (ComposeFile.mk.inj (Except.ok.inj hret)).2]
    · intro h
      rw [h]
      rfl
  rw [hsame, mapM_eq_iff hloaded]
  constructor
  · intro hevery
    rw [← hname]
    exact hevery _ (a.mem_services value)
  · intro hone e he
    by_cases hn : e.1 = a.name
    · rw [hold he hn, hname, hone]
    · exact hother e hn

end Around

end Hostely.Apps
