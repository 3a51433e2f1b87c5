/-
TOML documents.

A document is read statement by statement into a tree of nodes that remembers
how each table came to be, because that decides what may still be added to it:
a header may complete a table that only headers below it implied, a dotted key
may extend tables that no header of their own has, and values, including arrays
and inline tables, are closed. The result has the form of a JSON object.

* **`within_nil`**, **`define_fresh`** — where a pair without dots goes.
-/
import ScreenHooks.Toml.Scalar
import ScreenHooks.Toml.Text

namespace ScreenHooks.Toml

/-! ### Nodes -/

/-- How a table came to be. -/
inductive Origin where
  /-- By a header of its own. -/
  | header
  /-- By the header of a table below it. -/
  | implied
  /-- By a dotted key. -/
  | dotted
  deriving DecidableEq

/-- What a key stands for while the document is being read. -/
inductive Node where
  | value (value : Json)
  | table (origin : Origin) (entries : List (String × Node))
  /-- The tables of an array of tables, the newest first. -/
  | tables (items : List (List (String × Node)))

/-- The keys of a table with what they stand for. -/
abbrev Entries := List (String × Node)

mutual

/-- The value of a node. -/
def Node.toJson : Node → Json
  | .value value => value
  | .table _ entries => .object (membersOf entries)
  | .tables items => .array (objectsOf items).reverse

/-- The members of a table. -/
def membersOf : List (String × Node) → List (String × Json)
  | [] => []
  | (key, node) :: rest => (key, node.toJson) :: membersOf rest

/-- The values of an array of tables. -/
def objectsOf : List (List (String × Node)) → List Json
  | [] => []
  | entries :: rest => .object (membersOf entries) :: objectsOf rest

end

/-! ### Changes below a path -/

/-- Changes the entries of the table at a path. Tables on the way that do not
exist are made; of an array of tables the newest is meant. A dotted key does
not pass a table that has a header. -/
def within (dotted : Bool) (change : Origin → Entries → Option Entries) :
    List String → Origin → Entries → Option Entries
  | [], origin, entries => change origin entries
  | key :: path, _, entries =>
    match entries.lookup key with
    | none =>
      let origin : Origin := if dotted then .dotted else .implied
      (within dotted change path origin []).map fun below =>
        Table.put entries key (.table origin below)
    | some (.table origin below) =>
      if dotted && origin = .header then none
      else (within dotted change path origin below).map fun below =>
        Table.put entries key (.table origin below)
    | some (.tables (newest :: older)) =>
      (within dotted change path .header newest).map fun newest =>
        Table.put entries key (.tables (newest :: older))
    | some _ => none

/-- Adds a value under a key that is not there yet. A dotted key adds to tables
of dotted keys only. -/
def define (key : List String) (value : Json) : Origin → Entries → Option Entries :=
  let last := key.getLast?.getD ""
  within true (fun origin entries =>
    if 1 < key.length ∧ origin ≠ .dotted then none
    else if (entries.lookup last).isSome then none
    else some (entries ++ [(last, .value value)])) key.dropLast

/-- Opens the table of a header. -/
def openTable (key : List String) (entries : Entries) : Option Entries :=
  let last := key.getLast?.getD ""
  within false (fun _ entries =>
    match entries.lookup last with
    | none => some (entries ++ [(last, .table .header [])])
    | some (.table .implied below) => some (Table.put entries last (.table .header below))
    | some _ => none) key.dropLast .header entries

/-- Opens a new table of an array of tables. -/
def openItem (key : List String) (entries : Entries) : Option Entries :=
  let last := key.getLast?.getD ""
  within false (fun _ entries =>
    match entries.lookup last with
    | none => some (entries ++ [(last, .tables [[]])])
    | some (.tables items) => some (Table.put entries last (.tables ([] :: items)))
    | some _ => none) key.dropLast .header entries

/-! ### Values -/

/-- How many arrays and inline tables may be inside each other. -/
def maxDepth : Nat := 80

mutual

/-- Reads a value; the second argument counts the containers that may still be
opened inside each other. -/
def readValue : Nat → Nat → List Char → Option (Json × List Char)
  | 0, _, _ => none
  | fuel + 1, depth, cs =>
    match cs with
    | '"' :: _ => (readString cs).map fun (text, rest) => (.string text, rest)
    | '\'' :: _ => (readString cs).map fun (text, rest) => (.string text, rest)
    | '[' :: r =>
      if depth = 0 then none
      else (readItems fuel (depth - 1) (skipFill false r)).map
        fun (items, rest) => (.array items, rest)
    | '\x7b' :: r =>
      if depth = 0 then none
      else match skipSpace r with
        | '\x7d' :: rest => some (.object [], rest)
        | r => (readPairs fuel (depth - 1) [] r).map
          fun (entries, rest) => (.object (membersOf entries), rest)
    | _ => readScalar cs

/-- Reads the items of an array up to its bracket. -/
def readItems : Nat → Nat → List Char → Option (List Json × List Char)
  | 0, _, _ => none
  | _ + 1, _, ']' :: rest => some ([], rest)
  | fuel + 1, depth, cs =>
    match readValue fuel depth cs with
    | none => none
    | some (item, r) =>
      match skipFill false r with
      | ',' :: r => (readItems fuel depth (skipFill false r)).map
        fun (items, rest) => (item :: items, rest)
      | ']' :: rest => some ([item], rest)
      | _ => none

/-- Reads the pairs of an inline table up to its brace. -/
def readPairs : Nat → Nat → Entries → List Char → Option (Entries × List Char)
  | 0, _, _, _ => none
  | fuel + 1, depth, entries, cs =>
    match readKey cs with
    | some (key, '=' :: r) =>
      match readValue fuel depth (skipSpace r) with
      | none => none
      | some (value, r) =>
        match define key value .header entries, skipSpace r with
        | some entries, ',' :: r => readPairs fuel depth entries (skipSpace r)
        | some entries, '\x7d' :: rest => some (entries, rest)
        | _, _ => none
    | _ => none

end

/-! ### Statements -/

/-- A document as far as it has been read. -/
structure Draft where
  entries : Entries := []
  /-- The table that the next pairs go to. -/
  current : List String := []

/-- Reads a pair of a key and a value. -/
def Draft.readPair (draft : Draft) (cs : List Char) : Option (Draft × List Char) := do
  match ← readKey cs with
  | (key, '=' :: r) =>
    let (value, rest) ← readValue (2 * r.length + 2) maxDepth (skipSpace r)
    let entries ← within false (define key value) draft.current .header draft.entries
    return ({ draft with entries }, rest)
  | _ => none

/-- Reads a header or a pair. -/
def Draft.readStatement (draft : Draft) : List Char → Option (Draft × List Char)
  | '[' :: '[' :: r => do
    match ← readKey r with
    | (key, ']' :: ']' :: rest) => return (⟨← openItem key draft.entries, key⟩, rest)
    | _ => none
  | '[' :: r => do
    match ← readKey r with
    | (key, ']' :: rest) => return (⟨← openTable key draft.entries, key⟩, rest)
    | _ => none
  | cs => draft.readPair cs

/-- Reads statements, each of which ends its line, up to the end of the text. -/
def readStatements : Nat → Draft → List Char → Option Draft
  | 0, _, _ => none
  | fuel + 1, draft, cs =>
    match skipFill false cs with
    | [] => some draft
    | cs => do
      let (draft, r) ← draft.readStatement cs
      readStatements fuel draft (← endLine? r)

/-- The members of a TOML document. -/
def read? (text : String) : Option (List (String × Json)) :=
  (readStatements (text.length + 1) {} text.toList).map fun draft => membersOf draft.entries

/-! ### Laws -/

theorem within_nil (dotted : Bool) (change : Origin → Entries → Option Entries) (origin : Origin)
    (entries : Entries) : within dotted change [] origin entries = change origin entries := rfl

theorem define_fresh (key : String) (value : Json) (origin : Origin) (entries : Entries)
    (h : entries.lookup key = none) :
    define [key] value origin entries = some (entries ++ [(key, .value value)]) := by
  simp [define, within, h]

end ScreenHooks.Toml
