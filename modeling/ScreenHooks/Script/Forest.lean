/-
Scripts as nested groups.

A forest is a sequence of tokens and of groups, a group being a pair of
brackets with a forest inside. Brackets that have no partner are counted and
left out, so every list of tokens gives a forest.

* **`append_nil`**, **`append_assoc`**, **`length_append`** — sequences behave
  as lists do;
* **`take_append_drop`** — cutting loses nothing.
-/
import ScreenHooks.Script.Token

namespace ScreenHooks.Script

/-- A sequence of tokens and groups. -/
inductive Forest where
  | nil
  | leaf (token : Token) (rest : Forest)
  | group (opening : Token) (inner : Forest) (closing : Token) (rest : Forest)
  deriving DecidableEq

namespace Forest

instance : Inhabited Forest := ⟨.nil⟩

/-! ### Sequences -/

/-- One sequence after another. -/
def append : Forest → Forest → Forest
  | nil, b => b
  | leaf t rest, b => leaf t (append rest b)
  | group o inner c rest, b => group o inner c (append rest b)

instance : Append Forest := ⟨append⟩

/-- The number of tokens and groups at the top. -/
def length : Forest → Nat
  | nil => 0
  | leaf _ rest => rest.length + 1
  | group _ _ _ rest => rest.length + 1

/-- The first tokens and groups. -/
def take : Nat → Forest → Forest
  | 0, _ => nil
  | _ + 1, nil => nil
  | n + 1, leaf t rest => leaf t (take n rest)
  | n + 1, group o inner c rest => group o inner c (take n rest)

/-- What follows the first tokens and groups. -/
def drop : Nat → Forest → Forest
  | 0, f => f
  | _ + 1, nil => nil
  | n + 1, leaf _ rest => drop n rest
  | n + 1, group _ _ _ rest => drop n rest

/-- Whether the sequence is empty. -/
def isNil : Forest → Bool
  | nil => true
  | _ => false

@[simp] theorem nil_append (b : Forest) : (nil : Forest) ++ b = b := rfl

@[simp] theorem leaf_append (t : Token) (a b : Forest) : leaf t a ++ b = leaf t (a ++ b) := rfl

@[simp] theorem group_append (o c : Token) (i a b : Forest) :
    group o i c a ++ b = group o i c (a ++ b) := rfl

@[simp] theorem append_nil (a : Forest) : a ++ (nil : Forest) = a := by
  induction a with
  | nil => rfl
  | leaf t rest ih => simp [ih]
  | group o inner c rest _ ih => simp [ih]

theorem append_assoc (a b c : Forest) : a ++ b ++ c = a ++ (b ++ c) := by
  induction a with
  | nil => rfl
  | leaf t rest ih => simp [ih]
  | group o inner z rest _ ih => simp [ih]

theorem length_append (a b : Forest) : (a ++ b).length = a.length + b.length := by
  induction a with
  | nil => simp [length]
  | leaf t rest ih => simp [length, ih]; omega
  | group o inner z rest _ ih => simp [length, ih]; omega

theorem take_append_drop (n : Nat) (f : Forest) : f.take n ++ f.drop n = f := by
  induction n generalizing f with
  | zero => rfl
  | succ n ih =>
    cases f with
    | nil => rfl
    | leaf t rest => simp [take, drop, ih]
    | group o inner c rest => simp [take, drop, ih]

theorem length_drop (n : Nat) (f : Forest) : (f.drop n).length = f.length - n := by
  induction n generalizing f with
  | zero => rfl
  | succ n ih =>
    cases f with
    | nil => simp [drop, length]
    | leaf t rest => simp [drop, length, ih]
    | group o inner c rest => simp [drop, length, ih]

/-! ### Texts -/

/-- The forest as it stands in the script. -/
def source : Forest → String
  | nil => ""
  | leaf t rest => t.source ++ rest.source
  | group o inner c rest => o.source ++ inner.source ++ c.source ++ rest.source

/-- The forest as it stands in the script, without what precedes its first
token. -/
def text : Forest → String
  | nil => ""
  | leaf t rest => t.text ++ rest.source
  | group o inner c rest => o.text ++ inner.source ++ c.source ++ rest.source

/-- The first token, be it a leaf or an opening bracket. -/
def first? : Forest → Option Token
  | nil => none
  | leaf t _ => some t
  | group o _ _ _ => some o

/-- The text of the first tree if it is a token. -/
def word? : Forest → Option String
  | leaf t _ => some t.text
  | _ => none

/-- Whether the first tree is a group of the given brackets. -/
def startsGroup (bracket : Bracket) : Forest → Bool
  | group o _ _ _ => o.kind = .opening bracket
  | _ => false

/-- Whether the first token starts a line. -/
def startsLine (f : Forest) : Bool := (f.first?.map Token.startsLine).getD false

/-- The comments before the first token. -/
def comments (f : Forest) : List String := (f.first?.map Token.comments).getD []

/-! ### Building -/

/-- An open group: its bracket, and what stood before it, last first. -/
structure Pending where
  opening : Token
  before : Forest → Forest

/-- A forest, with the number of brackets that have no partner. -/
structure Built where
  forest : Forest
  stray : Nat

/-- Gives up the groups that are left open: the contents of each join what
stands around it. -/
def giveUp : List Pending → (Forest → Forest) → Nat → Built
  | [], before, stray => ⟨before .nil, stray⟩
  | pending :: open_, before, stray =>
    giveUp open_ (fun rest => pending.before (before rest)) (stray + 1)

/-- Groups the tokens. `before` puts what stands so far in front of the rest. -/
def build : List Token → List Pending → (Forest → Forest) → Nat → Built
  | [], open_, before, stray => giveUp open_ before stray
  | t :: ts, open_, before, stray =>
    match t.kind with
    | .opening _ => build ts (⟨t, before⟩ :: open_) id stray
    | .closing bracket =>
      match open_ with
      | pending :: outer =>
        if pending.opening.kind = .opening bracket then
          build ts outer (fun rest => pending.before (.group pending.opening (before .nil) t rest))
            stray
        -- brackets of different kinds: the closing one is passed over
        else build ts open_ before (stray + 1)
      | [] => build ts [] before (stray + 1)
    | _ => build ts open_ (fun rest => before (.leaf t rest)) stray

/-- The forest of a list of tokens. -/
def ofTokens (tokens : List Token) : Built := build tokens [] id 0

end Forest

end ScreenHooks.Script
