import Stencil.Scope
import Stencil.Script.Directive

/-! The settings of a renderer.

`Settings.check` refuses settings that no template could be rendered with; of several faults it
names the first, in the order of the fields. -/
namespace Stencil

/-- A function that the host offers to templates. A failure is a message. -/
abbrev HostFunction := List Json → Except Text Json

structure Settings where
  delimiters : Delimiters := .standard
  indentUnit : Nat := defaultIndentUnit
  /-- Whether failures come with diagnostics. -/
  debug : Bool := false
  /-- How deep includes may be nested. -/
  maxIncludeDepth : Nat := 64
  /-- What is tried, after a dot, behind a path that does not exist. -/
  suffix : Text := "tpl"
  /-- Variables of every template, under those of its own scope. -/
  globals : Scope := .empty
  functions : Table HostFunction := .empty

namespace Settings

/-- The names that every script defines itself. -/
def reservedNames : List Text :=
  ["print", "include", "str", "len", "json", "locals", "__print", "__include"]

def checkFunctionName (name : Text) : Except Error Unit :=
  if reservedNames.contains name then .error (.reservedFunction name)
  else if isVariableName name then .ok ()
  else .error (.validation ("builtin name '" ++ name ++ "' is not an identifier"))

def check (s : Settings) : Except Error Unit := do
  if let .error fault := checkIndentUnit s.indentUnit then throw (.input fault)
  if s.maxIncludeDepth = 0 then throw (.validation "max_include_depth must be at least 1")
  if s.suffix.head? = some '.' then
    throw (.validation ("template suffix '" ++ s.suffix ++ "' must not start with a dot"))
  s.functions.names.forM checkFunctionName

end Settings
end Stencil
