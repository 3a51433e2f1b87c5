/-
Lines of generated script text.

The shapes that generated modules share: the header, braced name lists,
imports and re-exports.
-/
import ScreenHooks.Text.Quoted

namespace ScreenHooks.Hook

/-- The first line of every module that a run writes anew. -/
def generatedHeader : String := "// AUTO-GENERATED FILE - DO NOT EDIT"

/-- Items in one pair of braces. -/
def braced (items : List String) : String :=
  "\x7b " ++ String.intercalate ", " items ++ " \x7d"

/-- An import of names; the specifier is given as a quoted literal. -/
def importLine (names : List String) (literal : String) : String :=
  "import " ++ braced names ++ " from " ++ literal ++ ";"

/-- An import of types. -/
def importTypeLine (names : List String) (literal : String) : String :=
  "import type " ++ braced names ++ " from " ++ literal ++ ";"

/-- A re-export of names. -/
def exportLine (names : List String) (literal : String) : String :=
  "export " ++ braced names ++ " from " ++ literal ++ ";"

/-- A re-export of types. -/
def exportTypeLine (names : List String) (literal : String) : String :=
  "export type " ++ braced names ++ " from " ++ literal ++ ";"

/-- The text of lines without a line break after the last. -/
def joinLines (lines : List String) : String := String.intercalate "\n" lines

/-- The text of lines, each with its line break. -/
def endLines (lines : List String) : String := joinLines (lines ++ [""])

end ScreenHooks.Hook
