import Stencil.Command.Variables
import Stencil.Render.Renderer
import Stencil.Toml.Value

/-! The configuration of the command line tool.

It is built up in layers, each over the ones before it: what is built in, the user's file and the
file of the directory (or one file in place of both), and the environment. How files are found and
read, how one layer is laid over another, and what values are taken for a number, say, is left to a
`Configuration.Package`; `Configuration.ofToml` takes every value that the tool needs out of the
resulting tree. -/
namespace Stencil

structure Configuration where
  settings : Settings := {}
  /-- The delimiters as they are given, which need not be usable ones. -/
  leftDelimiter : Text := Delimiters.standard.left
  rightDelimiter : Text := Delimiters.standard.right
  escape : Text := Delimiters.standard.escape
  noColor : Bool := false
  format : Text := "human"

namespace Configuration

/-! ### Sections -/

/-- The values by section and name. -/
def sections (c : Configuration) : List (Text × List (Text × Json)) :=
  [("render",
      [("indent_unit", .int c.settings.indentUnit), ("left_delimiter", .string c.leftDelimiter),
        ("right_delimiter", .string c.rightDelimiter), ("escape", .string c.escape),
        ("debug", .bool c.settings.debug),
        ("max_include_depth", .int c.settings.maxIncludeDepth)]),
    ("output", [("no_color", .bool c.noColor), ("format", .string c.format)]),
    ("templates", [("suffix", .string c.settings.suffix)])]

def json (c : Configuration) : Json :=
  .members (c.sections.map fun (name, values) => (name, .members values))

def valueText : Json → Text
  | .string s => Toml.quoted s
  | j => j.text

/-- The text of a configuration file with these values. -/
def text (c : Configuration) : Text :=
  let line : Text × Json → Text := fun (name, v) => name ++ " = " ++ valueText v ++ "\n"
  let sectionText : Text × List (Text × Json) → Text := fun (name, values) =>
    "[" ++ name ++ "]\n" ++ values.flatMap line
  Text.join "\n" (c.sections.map sectionText)

/-- The text of the value with a name like `render.debug`. -/
def get? (c : Configuration) (name : Text) : Option Text :=
  match Text.splitOn '.' name with
  | [s, key] => do
    let (_, values) ← c.sections.find? (·.1 = s)
    let (_, v) ← values.find? (·.1 = key)
    match v with
    | .string t => some t
    | v => some v.text
  | _ => none

/-! ### Values -/

/-- A package that reads the layers of a configuration. -/
structure Package where
  /-- The names that a file is looked for under. -/
  names : Path → List Path
  /-- The values of a file, if it is written as it should be. -/
  document? : Bytes → Option Toml
  /-- Values over those of the layers before. -/
  overFile : Toml → Toml → Toml
  /-- The values of the environment over those of the layers before. The name of a variable that
  sets one begins with a mark and has two underscores behind the section. -/
  overVariables : Text → Toml → Variables.Environment → Toml
  number? : Toml → Option Nat
  flag? : Toml → Option Bool
  text? : Toml → Option Text

def ofJsonValue : Json → Toml
  | .string t => .string t
  | .bool b => .bool b
  | .int n => .integer n
  | _ => .table []

/-- The tree of the values. -/
def toml (c : Configuration) : Toml :=
  .table (c.sections.map fun (name, values) =>
    (name, .table (values.map fun (name, v) => (name, ofJsonValue v))))

/-- Reads a value that has to be there. -/
def read {α : Type} (tree : Toml) (as : Toml → Option α) (s name : Text) : Except Text α :=
  match ((tree.get? s).bind (·.get? name)).bind as with
  | some a => .ok a
  | none => .error ("Invalid configuration: invalid value for " ++ s ++ "." ++ name)

def ofToml (p : Package) (tree : Toml) : Except Text Configuration := do
  let settings : Settings :=
    { indentUnit := ← read tree p.number? "render" "indent_unit"
      debug := ← read tree p.flag? "render" "debug"
      maxIncludeDepth := ← read tree p.number? "render" "max_include_depth"
      suffix := ← read tree p.text? "templates" "suffix" }
  return {
    settings
    leftDelimiter := ← read tree p.text? "render" "left_delimiter"
    rightDelimiter := ← read tree p.text? "render" "right_delimiter"
    escape := ← read tree p.text? "render" "escape"
    noColor := ← read tree p.flag? "output" "no_color"
    format := ← read tree p.text? "output" "format" }

def variableMark : Text := "KILN_"

/-- The values of some files, the later ones counting, and an environment. -/
def layered (p : Package) (files : List Toml) (e : Variables.Environment) : Toml :=
  p.overVariables variableMark (files.foldl p.overFile ({} : Configuration).toml) e

/-! ### Settings -/

/-- The settings for a renderer. The command line can switch debugging on. -/
def renderSettings (c : Configuration) (debug : Bool) : Except Error Settings := do
  let delimiters ← (Delimiters.ofParts c.leftDelimiter c.rightDelimiter c.escape).mapError
    fun d => Error.input (.delimiters d.message)
  let settings := { c.settings with delimiters, debug := debug || c.settings.debug }
  settings.check
  return settings

end Configuration
end Stencil
