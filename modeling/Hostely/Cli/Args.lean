import Hostely.Lib.Text
/-!
# The command line

What `from_argv` makes of the tokens behind the program's name, and the grammar it
reads: an option takes the token behind it as its value when that is no option.
-/

open Hostely.Lib

namespace Hostely.Cli

/-- `Option` in the source. -/
structure ParsedOption where
  name : Bytes
  value : Bytes := []
  present : Bool := false
deriving DecidableEq

structure ParsedArgs where
  options_ : List ParsedOption := []
  positionals_ : List Bytes := []
deriving DecidableEq

/-- Where the name begins in a token, and whether the option is a long one. -/
def strip_dashes (token : Bytes) : Nat × Bool :=
  if 2 ≤ token.length ∧ token[0]? = some 45 ∧ token[1]? = some 45 then (2, true)
  else if 2 ≤ token.length ∧ token[0]? = some 45 then (1, false)
  else (0, false)

/-- The loop over the tokens that are left. -/
def read_tokens : List Bytes → ParsedArgs → ParsedArgs
  | [], out => out
  | token :: rest, out =>
    if token = bytes "--" then { out with positionals_ := out.positionals_ ++ rest }
    else
      let start := (strip_dashes token).1
      let name_part := token.drop start
      -- nothing was stripped
      if start = 0 then read_tokens rest { out with positionals_ := out.positionals_ ++ [token] }
      else match name_part.findIdx? (· = 61) with
        | some eq =>
          read_tokens rest { out with options_ := out.options_ ++ [⟨name_part.take eq, name_part.drop (eq + 1), true⟩] }
        | none => match rest with
          | next :: more =>
            if (2 ≤ next.length ∧ next[0]? = some 45) ∧ next ≠ bytes "-" then
              read_tokens (next :: more) { out with options_ := out.options_ ++ [⟨name_part, [], true⟩] }
            else read_tokens more { out with options_ := out.options_ ++ [⟨name_part, next, true⟩] }
          | [] => { out with options_ := out.options_ ++ [⟨name_part, [], true⟩] }

/-- The first argument is the program's name. -/
def from_argv (argv : List Bytes) : ParsedArgs := read_tokens (argv.drop 1) {}

def ParsedArgs.has (args : ParsedArgs) (name : Bytes) : Bool := args.options_.any (·.name == name)

def ParsedArgs.get (args : ParsedArgs) (name : Bytes) : Option Bytes := (args.options_.find? (·.name == name)).map (·.value)

def ParsedArgs.command (args : ParsedArgs) : Bytes := args.positionals_.headD []

def ParsedArgs.operands (args : ParsedArgs) : List Bytes := args.positionals_.drop 1

/-! ## Tokens -/

/-- The look of an option, `-v` or `--port`. -/
def IsOption (token : Bytes) : Prop := 2 ≤ token.length ∧ token[0]? = some 45

instance : DecidablePred IsOption := fun token => inferInstanceAs (Decidable (2 ≤ token.length ∧ token[0]? = some 45))

def name_part (token : Bytes) : Bytes := token.drop (strip_dashes token).1

/-- An option without a value of its own, which may take the next token. -/
def TakesValue (token : Bytes) : Prop := IsOption token ∧ token ≠ bytes "--" ∧ 61 ∉ name_part token

theorem strip_dashes_iff {token : Bytes} : (strip_dashes token).1 = 0 ↔ ¬ IsOption token := by
  unfold strip_dashes IsOption
  split
  · rename_i h
    exact ⟨fun hstart => (by cases hstart), fun hnot => absurd ⟨h.1, h.2.1⟩ hnot⟩
  · split
    · rename_i h
      exact ⟨fun hstart => (by cases hstart), fun hnot => absurd h hnot⟩
    · rename_i h
      exact ⟨fun _ => h, fun _ => rfl⟩

theorem dash_not_option {token : Bytes} (h : IsOption token) : token ≠ bytes "-" := by
  rintro rfl
  exact absurd h (by decide)

/-- Of two dashes and a name, the name is the name. -/
theorem name_part_long {name : Bytes} (h : name ≠ []) :
    IsOption (bytes "--" ++ name) ∧ bytes "--" ++ name ≠ bytes "--" ∧ name_part (bytes "--" ++ name) = name := by
  have hdashes : bytes "--" = [45, 45] := by decide
  rw [hdashes]
  refine ⟨⟨Nat.le_add_left 2 _, rfl⟩, fun heq => h (List.append_right_eq_self.1 heq), ?_⟩
  have hstrip : strip_dashes ([45, 45] ++ name) = (2, true) := if_pos ⟨Nat.le_add_left 2 _, rfl, rfl⟩
  rw [name_part, hstrip]
  rfl

/-! ## What the loop does with a token -/

section
variable {token : Bytes} {rest : List Bytes}

theorem read_stop (out : ParsedArgs) : read_tokens (bytes "--" :: rest) out = { out with positionals_ := out.positionals_ ++ rest } := by
  unfold read_tokens
  rw [if_pos rfl]

theorem read_positional (h : ¬ IsOption token) (out : ParsedArgs) :
    read_tokens (token :: rest) out = read_tokens rest { out with positionals_ := out.positionals_ ++ [token] } := by
  have hstop : token ≠ bytes "--" := by
    rintro rfl
    exact h (by decide)
  rw [read_tokens, if_neg hstop]
  dsimp only
  rw [if_pos (strip_dashes_iff.2 h)]

theorem read_joined {name value : Bytes} (h : IsOption token) (hstop : token ≠ bytes "--")
    (hname : name_part token = name ++ 61 :: value) (heq : 61 ∉ name) (out : ParsedArgs) :
    read_tokens (token :: rest) out = read_tokens rest { out with options_ := out.options_ ++ [⟨name, value, true⟩] } := by
  have hstart : (strip_dashes token).1 ≠ 0 := fun hstart => strip_dashes_iff.1 hstart h
  unfold name_part at hname
  rw [read_tokens, if_neg hstop]
  dsimp only
  rw [if_neg hstart, hname, findIdx?_before heq]
  dsimp only
  rw [List.take_left, List.drop_append, List.drop_of_length_le (Nat.le_succ _)]
  simp

/-- The part that reads an option without `=`. -/
theorem read_takes (h : TakesValue token) (out : ParsedArgs) : read_tokens (token :: rest) out =
    match rest with
    | next :: more =>
      if IsOption next then read_tokens rest { out with options_ := out.options_ ++ [⟨name_part token, [], true⟩] }
      else read_tokens more { out with options_ := out.options_ ++ [⟨name_part token, next, true⟩] }
    | [] => { out with options_ := out.options_ ++ [⟨name_part token, [], true⟩] } := by
  obtain ⟨hoption, hstop, heq⟩ := h
  have hstart : (strip_dashes token).1 ≠ 0 := fun hstart => strip_dashes_iff.1 hstart hoption
  have hnone : (name_part token).findIdx? (· = 61) = none := by
    rw [List.findIdx?_eq_none_iff]
    exact fun d hd => decide_eq_false fun he => heq (he ▸ hd)
  unfold name_part at hnone ⊢
  rw [read_tokens, if_neg hstop]
  dsimp only
  rw [if_neg hstart, hnone]
  cases rest with
  | nil => rfl
  | cons next more =>
    have hlook : ((2 ≤ next.length ∧ next[0]? = some 45) ∧ next ≠ bytes "-") ↔ IsOption next :=
      ⟨fun h => h.1, fun h => ⟨h, dash_not_option h⟩⟩
    dsimp only
    rw [if_congr hlook rfl rfl]

theorem read_valued {next : Bytes} (h : TakesValue token) (hnext : ¬ IsOption next) (out : ParsedArgs) :
    read_tokens (token :: next :: rest) out =
      read_tokens rest { out with options_ := out.options_ ++ [⟨name_part token, next, true⟩] } := by
  rw [read_takes h]
  exact if_neg hnext

theorem read_flag (h : TakesValue token) (hrest : ∀ next ∈ rest.head?, IsOption next) (out : ParsedArgs) :
    read_tokens (token :: rest) out = read_tokens rest { out with options_ := out.options_ ++ [⟨name_part token, [], true⟩] } := by
  rw [read_takes h]
  cases rest with
  | nil => rfl
  | cons next more => exact if_pos (hrest next rfl)

end

/-! ## The grammar -/

def ParsedArgs.append (a b : ParsedArgs) : ParsedArgs := ⟨a.options_ ++ b.options_, a.positionals_ ++ b.positionals_⟩

def given (name value : Bytes) : ParsedArgs := ⟨[⟨name, value, true⟩], []⟩

/-- What a command line means. -/
inductive Means : List Bytes → ParsedArgs → Prop
  | nothing : Means [] {}
  | stop {rest : List Bytes} : Means (bytes "--" :: rest) ⟨[], rest⟩
  | positional {token : Bytes} {rest : List Bytes} {args : ParsedArgs} : ¬ IsOption token → Means rest args →
      Means (token :: rest) (ParsedArgs.append ⟨[], [token]⟩ args)
  | joined {token name value : Bytes} {rest : List Bytes} {args : ParsedArgs} : IsOption token → token ≠ bytes "--" →
      name_part token = name ++ 61 :: value → 61 ∉ name → Means rest args → Means (token :: rest) ((given name value).append args)
  | valued {token value : Bytes} {rest : List Bytes} {args : ParsedArgs} : TakesValue token → ¬ IsOption value → Means rest args →
      Means (token :: value :: rest) ((given (name_part token) value).append args)
  | flag {token : Bytes} {rest : List Bytes} {args : ParsedArgs} : TakesValue token → (∀ next ∈ rest.head?, IsOption next) →
      Means rest args → Means (token :: rest) ((given (name_part token) []).append args)

theorem append_assoc (a b c : ParsedArgs) : (a.append b).append c = a.append (b.append c) := by
  unfold ParsedArgs.append
  rw [List.append_assoc, List.append_assoc]

theorem Means.read {tokens : List Bytes} {args : ParsedArgs} (h : Means tokens args) (out : ParsedArgs) :
    read_tokens tokens out = out.append args := by
  have hoption (out : ParsedArgs) (name value : Bytes) :
      { out with options_ := out.options_ ++ [⟨name, value, true⟩] } = out.append (given name value) := by
    simp [ParsedArgs.append, given]
  induction h generalizing out with
  | nothing => simp [read_tokens, ParsedArgs.append]
  | stop => rw [read_stop]; simp [ParsedArgs.append]
  | positional htoken _ ih => rw [read_positional htoken, ih]; simp [ParsedArgs.append]
  | joined htoken hstop hname heq _ ih => rw [read_joined htoken hstop hname heq, hoption, ih, append_assoc]
  | valued htoken hvalue _ ih => rw [read_valued htoken hvalue, hoption, ih, append_assoc]
  | flag htoken hrest _ ih => rw [read_flag htoken hrest, hoption, ih, append_assoc]

theorem means_cons {token : Bytes} {rest : List Bytes} (hrest : ∃ args, Means rest args) (htail : ∃ args, Means rest.tail args) :
    ∃ args, Means (token :: rest) args := by
  obtain ⟨args, hrest⟩ := hrest
  by_cases htoken : IsOption token
  · by_cases hstop : token = bytes "--"
    · exact hstop ▸ ⟨_, .stop⟩
    · by_cases heq : 61 ∈ name_part token
      · obtain ⟨name, value, hname, hbefore⟩ := List.eq_append_cons_of_mem heq
        exact ⟨_, .joined htoken hstop hname hbefore hrest⟩
      · cases rest with
        | nil => exact ⟨_, .flag ⟨htoken, hstop, heq⟩ (fun _ h => by cases h) hrest⟩
        | cons next more =>
          obtain ⟨args, hmore⟩ := htail
          by_cases hnext : IsOption next
          · exact ⟨_, .flag ⟨htoken, hstop, heq⟩ (fun _ h => Option.some.inj h ▸ hnext) hrest⟩
          · exact ⟨_, .valued ⟨htoken, hstop, heq⟩ hnext hmore⟩
  · exact ⟨_, .positional htoken hrest⟩

/-- Every command line means something, and by `Means.read` only one thing. -/
theorem exists_meaning (tokens : List Bytes) : ∃ args, Means tokens args := by
  have both : (∃ args, Means tokens args) ∧ ∃ args, Means tokens.tail args := by
    induction tokens with
    | nil => exact ⟨⟨_, .nothing⟩, ⟨_, .nothing⟩⟩
    | cons token rest ih => exact ⟨means_cons ih.1 ih.2, ih.1⟩
  exact both.1

theorem Means.parsed {tokens : List Bytes} {args : ParsedArgs} (h : Means tokens args) (program : Bytes) :
    from_argv (program :: tokens) = args := h.read {}

theorem from_argv_iff {program : Bytes} {tokens : List Bytes} {args : ParsedArgs} :
    from_argv (program :: tokens) = args ↔ Means tokens args := by
  constructor
  · rintro rfl
    obtain ⟨args, h⟩ := exists_meaning tokens
    exact (h.parsed program).symm ▸ h
  · exact fun h => h.parsed program

/-! ## Lines in two parts -/

/-- The first part ends in an option whose value begins the second. -/
def Separates (before after : List Bytes) : Prop :=
  ∃ option ∈ before.getLast?, ∃ value ∈ after.head?, TakesValue option ∧ ¬ IsOption value

theorem separates_cons {token : Bytes} {before after : List Bytes} (h : ¬ Separates (token :: before) after) : ¬ Separates before after := by
  rintro ⟨option, hlast, hvalue⟩
  refine h ⟨option, ?_, hvalue⟩
  cases before with
  | nil => cases hlast
  | cons next more => rwa [List.getLast?_cons_cons]

theorem Means.append {before after : List Bytes} {a b : ParsedArgs} (ha : Means before a) (hb : Means after b)
    (hstop : bytes "--" ∉ before) (hsplit : ¬ Separates before after) : Means (before ++ after) (a.append b) := by
  induction ha with
  | nothing => exact hb
  | stop => exact absurd List.mem_cons_self hstop
  | positional htoken _ ih =>
    rw [append_assoc]
    exact .positional htoken (ih (fun h => hstop (List.mem_cons_of_mem _ h)) (separates_cons hsplit))
  | joined htoken hne hname heq _ ih =>
    rw [append_assoc]
    exact .joined htoken hne hname heq (ih (fun h => hstop (List.mem_cons_of_mem _ h)) (separates_cons hsplit))
  | valued htoken hvalue _ ih =>
    rw [append_assoc]
    exact .valued htoken hvalue
      (ih (fun h => hstop (List.mem_cons_of_mem _ (List.mem_cons_of_mem _ h))) (separates_cons (separates_cons hsplit)))
  | @flag token rest args htoken hrest _ ih =>
    rw [append_assoc]
    refine .flag htoken (fun next hnext => ?_) (ih (fun h => hstop (List.mem_cons_of_mem _ h)) (separates_cons hsplit))
    cases rest with
    | nil => exact Decidable.byContradiction fun hvalue => hsplit ⟨token, rfl, next, hnext, htoken, hvalue⟩
    | cons first more => exact hrest next hnext

/-! ## Options by name -/

section
variable {name : Bytes} {before after : List Bytes} {args : ParsedArgs}

theorem long_takes (hname : name ≠ []) (heq : 61 ∉ name) : TakesValue (bytes "--" ++ name) := by
  obtain ⟨hoption, hstop, hpart⟩ := name_part_long hname
  exact ⟨hoption, hstop, hpart.symm ▸ heq⟩

theorem flag_means (hname : name ≠ []) (heq : 61 ∉ name) (hafter : ∀ next ∈ after.head?, IsOption next) (h : Means after args) :
    Means ((bytes "--" ++ name) :: after) ((given name []).append args) := by
  have hmeans := Means.flag (long_takes hname heq) hafter h
  rwa [(name_part_long hname).2.2] at hmeans

/-- What begins with an option is no value. -/
theorem not_separates {token : Bytes} (h : IsOption token) (more : List Bytes) : ¬ Separates before (token :: more) := by
  rintro ⟨option, -, value, hvalue, -, hnot⟩
  exact hnot (Option.some.inj hvalue ▸ h)

end

end Hostely.Cli
