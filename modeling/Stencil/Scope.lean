import Stencil.Error
import Stencil.Json
import Stencil.Text.WordChar

/-! The variables that a template is rendered with.

A scope is a table of JSON values. `isVariableName` tells the names that a script can use as
variables; `tryInsert` and `mergeStrings` check them, the table's own operations do not. -/
namespace Stencil

/-- The words of the script language that name no variable. -/
def reservedWords : List Text :=
  ["and", "break", "do", "else", "elseif", "end", "false", "for", "function", "goto", "if", "in",
    "local", "nil", "not", "or", "repeat", "return", "then", "true", "until", "while"]

/-- A name of ASCII letters, digits and underscores that starts with no digit and is no word of
the script language. -/
def isVariableName (name : Text) : Bool :=
  match name with
  | [] => false
  | c :: cs =>
    (isAsciiLetter c || c == '_')
      && cs.all (fun c => isAsciiLetter c || isAsciiDigit c || c == '_')
      && !reservedWords.contains name

abbrev Scope := Table Json

namespace Scope

/-- The scope with a variable set, if the name is one for a variable. -/
def tryInsert (s : Scope) (name : Text) (value : Json) : Except InputError Scope :=
  if isVariableName name then .ok (s.insert name value) else .error (.variableName name)

/-- Sets string variables in order, up to the first name that is none for a variable. -/
def mergeStrings (s : Scope) : List (Text × Text) → Scope × Except InputError Unit
  | [] => (s, .ok ())
  | (name, value) :: rest =>
    match s.tryInsert name (.string value) with
    | .ok s => mergeStrings s rest
    | .error e => (s, .error e)

end Scope
end Stencil
