/-
What the program prints about runs and screens.

There is a summary for people, with or without colours, and a JSON text for
programs. Artifacts that did not change are not in the summary.

* **`paint_off`** — without colours a text is printed as it is.
-/
import ScreenHooks.Json.Printer
import ScreenHooks.Run.Generator

namespace ScreenHooks.Command

open Output Run

/-! ### Colours -/

/-- How a text is set off. -/
inductive Style where
  | green
  | yellow
  | cyan
  | red
  | dimmed
  | bold
  deriving DecidableEq

/-- The terminal codes that start and end a style. -/
def Style.codes : Style → String × String
  | green => ("32", "39")
  | yellow => ("33", "39")
  | cyan => ("36", "39")
  | red => ("31", "39")
  | dimmed => ("2", "0")
  | bold => ("1", "0")

/-- A text in a style, if colours are on. -/
def paint (colours : Bool) (style : Style) (text : String) : String :=
  if colours then "\x1b[" ++ style.codes.1 ++ "m" ++ text ++ "\x1b[" ++ style.codes.2 ++ "m"
  else text

theorem paint_off (style : Style) (text : String) : paint false style text = text := rfl

/-! ### Summaries -/

/-- The width of the first column. -/
def labelWidth : Nat := 12

/-- A text moved to the right end of the first column; the codes of its style
count. -/
def alignRight (text : String) : String :=
  String.ofList (List.replicate (labelWidth - text.length) ' ') ++ text

/-- The style of an outcome. -/
def styleOf : WriteOutcome → Style
  | .created => .green
  | .updated => .yellow
  | .preserved => .cyan
  | _ => .dimmed

/-- The line of an artifact. -/
def artifactLine (colours : Bool) (record : Record) : String :=
  alignRight (paint colours (styleOf record.outcome) record.outcome.label) ++ " " ++
    record.path.text

/-- The line of a screen that was left out. -/
def skippedLine (colours : Bool) (skipped : Skipped) : String :=
  alignRight "skipped" ++ " " ++ paint colours .red skipped.name ++ ": " ++ skipped.reason

/-- The line with the counts. -/
def headline (report : Report) : String :=
  let count (outcome : WriteOutcome) := toString (report.count outcome)
  toString report.screens.length ++ " screens: " ++ count .created ++ " created, " ++
    count .updated ++ " updated, " ++ count .unchanged ++ " unchanged, " ++
    count .preserved ++ " preserved, " ++ toString report.skipped.length ++ " skipped" ++
    (if report.dryRun then " (dry run)" else "")

/-- Lines, each with its end. -/
def unlines (lines : List String) : String := String.join (lines.map (· ++ "\n"))

/-- The summary of a run. -/
def summary (colours : Bool) (report : Report) : String :=
  let changed := report.artifacts.filter fun record => record.outcome ≠ .unchanged
  unlines (changed.map (artifactLine colours) ++ report.skipped.map (skippedLine colours) ++
    [paint colours .bold (headline report)])

/-- The line of a screen. -/
def screenLine (colours : Bool) : Prepared → String
  | .ok screen =>
    paint colours .bold screen.unit.name ++ " (" ++ screen.unit.kebab ++ ") default=" ++
      (if screen.unit.defaultExport then "true" else "false") ++
      " methods=" ++ toString screen.interfaces.methods.length ++
      " interfaces=" ++ toString screen.interfaces.published.toList.length
  | .error (name, e) => name ++ " skipped: " ++ e.message

/-! ### JSON -/

/-- A report as a value. -/
def reportValue (report : Report) : Json :=
  .object [
    ("dry_run", .bool report.dryRun),
    ("screens", .ofStrings report.screens),
    ("artifacts", .array (report.artifacts.map fun record =>
      .object [("path", .string record.path.text), ("outcome", .string record.outcome.key)])),
    ("skipped", .array (report.skipped.map fun skipped =>
      .object [("name", .string skipped.name), ("reason", .string skipped.reason)]))]

/-- A screen as a value. -/
def screenValue : Prepared → Json
  | .ok screen => .object [
      ("name", .string screen.unit.name),
      ("kebab", .string screen.unit.kebab),
      ("default_export", .bool screen.unit.defaultExport),
      ("methods", .ofStrings (screen.interfaces.methods.map (·.name))),
      ("interfaces", .ofStrings screen.interfaces.published.toList)]
  | .error (name, e) => .object [("name", .string name), ("skipped", .string e.message)]

end ScreenHooks.Command
