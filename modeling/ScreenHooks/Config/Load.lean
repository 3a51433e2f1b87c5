/-
Loading the configuration.

The first layer is a file: the one that is asked for, which has to exist, or
else the first of the usual ones in the working directory, if there is one. Its
extension tells its format. The second layer is the environment.

* **`load_missing`** — a file that is asked for has to exist.
-/
import ScreenHooks.Config.Decode
import ScreenHooks.Config.Environment
import ScreenHooks.Disk.Walk
import ScreenHooks.Json.Reader
import ScreenHooks.Text.Lossy
import ScreenHooks.Toml.Document

namespace ScreenHooks

/-- Why there is no configuration. -/
inductive ConfigError where
  /-- The file that was asked for is not there. -/
  | notFound (path : Path)
  /-- The file cannot be read. -/
  | unloadable
  /-- A field has a value of the wrong type. -/
  | unparsable
  deriving DecidableEq

/-- The text of a configuration error. -/
def ConfigError.message : ConfigError → String
  | notFound path => "Config file not found: " ++ path.text
  | unloadable => "Failed to load configuration"
  | unparsable => "Failed to parse configuration"

namespace Config

/-- The name of the configuration file that is made for a new package. -/
def fileName : String := "hookgen.toml"

/-- The configuration files that are looked for in the working directory. -/
def usualFiles : List Path := [⟨fileName⟩, ⟨".hookgen.toml"⟩, ⟨"hookgen.json"⟩]

/-- The configuration file, if there is one. -/
def findFile (d : Disk) (home : Option String) (explicit : Option Path) :
    Except ConfigError (Option Path) :=
  match explicit with
  | none => .ok (usualFiles.find? d.isFile)
  | some path =>
    let path := expandHome home path
    if d.isFile path then .ok (some path) else .error (.notFound path)

/-- The text of a file without its byte order mark. -/
def fileText? (d : Disk) (path : Path) : Option String :=
  let text? := match d.locate path with
    | .ok (_, .file (.text text)) => some text
    | .ok (_, .file (.binary bytes)) => some (Text.decodeLossy bytes)
    | _ => none
  text?.map fun text => match text.toList with
    | '\ufeff' :: r => String.ofList r
    | _ => text

/-- A number that is no integer of 64 bits is a double. -/
def asDouble (n : Int) : Float :=
  let f := Decimal.nearest n.natAbs 0
  if n < 0 then -f else f

mutual

/-- A value whose integers have 64 bits. -/
def narrow : Json → Json
  | .number (.integer n) =>
    if Toml.fits n then .number (.integer n) else .number (.double (asDouble n))
  | .array items => .array (narrowItems items)
  | .object members => .object (narrowMembers members)
  | value => value

/-- Items whose integers have 64 bits. -/
def narrowItems : List Json → List Json
  | [] => []
  | item :: rest => narrow item :: narrowItems rest

/-- Members whose integers have 64 bits. -/
def narrowMembers : List (String × Json) → List (String × Json)
  | [] => []
  | (key, value) :: rest => (key, narrow value) :: narrowMembers rest

end

/-- The layer of a file. -/
def fileLayer? (d : Disk) (path : Path) : Option (List (String × Json)) := do
  let text ← fileText? d path
  match path.extension? with
  | some "toml" => Toml.read? text
  | some "json" => ((← Json.read? text).asObject?).map narrowMembers
  | _ => none

/-- The configuration of a run. -/
def load (d : Disk) (environment : Environment) (explicit : Option Path) :
    Except ConfigError Config := do
  let fileLayer ← match ← findFile d environment.home? explicit with
    | none => pure []
    | some path => match fileLayer? d path with
      | some members => pure members
      | none => throw .unloadable
  match decode? (stack [fileLayer, environment.layer]) with
  | some config => return config
  | none => throw .unparsable

theorem load_missing (d : Disk) (environment : Environment) (path : Path)
    (h : d.isFile (expandHome environment.home? path) = false) :
    load d environment (some path) =
      .error (.notFound (expandHome environment.home? path)) := by
  simp only [load, findFile, h]
  rfl

end Config

end ScreenHooks
