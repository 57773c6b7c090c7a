import Stencil.Path
import Stencil.Delimiters

/-! What can go wrong, and how it is told.

`InputError` is a fault in what was written: a template, a setting or a variable name. `Error` is
everything that a rendering can end in; a failure inside an included template is wrapped once for
each template on the way, and `Error.frames` and `Error.innermost` take that chain apart.

Every error has one message, a category and a list of suggestions. -/
namespace Stencil

/-! ### Faults in what was written -/

inductive InputError
  /-- A line that is neither blank, placeholder, code nor text. -/
  | unclassified (template : Text) (line : Nat) (content : Text)
  /-- A `print` or `include` call that is not closed on its line. -/
  | unbalancedCall (template : Text) (line : Nat) (content : Text)
  | delimiters (reason : Text)
  | indentUnit (value : Text)
  | variableName (name : Text)
deriving Repr, DecidableEq

inductive Category
  | template
  | validation
  | notFound
  | execution
  | internal
deriving Repr, DecidableEq

namespace InputError

def message : InputError → Text
  | unclassified template line content =>
    "Template syntax error in " ++ template ++ " at line " ++ Text.ofNat line
      ++ ": cannot classify '" ++ content ++ "'"
  | unbalancedCall template line content =>
    "Unbalanced call in " ++ template ++ " at line " ++ Text.ofNat line
      ++ ": no closing parenthesis in '" ++ content ++ "'"
  | delimiters reason => "Invalid delimiter configuration: " ++ reason
  | indentUnit value =>
    "Invalid indent unit " ++ value ++ ": expected a width between 1 and 16"
  | variableName name => "Invalid scope variable name '" ++ name ++ "'"

def suggestions : InputError → List Text
  | unclassified _ _ content =>
    ["Offending content: " ++ content,
      "Placeholders must be closed on the same line: <% expr %>",
      "Write <%% for a literal delimiter"]
  | unbalancedCall _ _ content =>
    ["Check the parentheses in: " ++ content,
      "print(...) and include(...) calls must close on the same line"]
  | delimiters reason =>
    ["Details: " ++ reason,
      "Delimiters and the escape marker must be non-empty and distinct"]
  | indentUnit _ => ["Use a directive such as <% __indent__ = 2 on the first line"]
  | variableName name =>
    ["'" ++ name ++ "' cannot be used as a variable name",
      "Use letters, digits and underscores, starting with a letter"]

def category : InputError → Category
  | unclassified .. | unbalancedCall .. => .template
  | delimiters _ | indentUnit _ | variableName _ => .validation

end InputError

/-! ### Where and how a script failed -/

/-- A place in a template and in the script made from it. -/
structure Location where
  template : Text
  sourceLine : Option Nat
  compiledLine : Option Nat
deriving Repr, DecidableEq

def Location.text (l : Location) : Text :=
  let line := fun (label : Text) (n : Option Nat) =>
    match n with
    | some n => label ++ Text.ofNat n
    | none => []
  l.template ++ line ", template line " l.sourceLine ++ line ", compiled line " l.compiledLine

/-- What is added to a failure in debug mode. -/
structure Diagnostics where
  attributes : List (Text × Text)
  /-- The script with line numbers. -/
  listing : Text
deriving Repr, DecidableEq

def Diagnostics.text (d : Diagnostics) : Text :=
  let line : Text × Text → Text := fun (name, value) => "\n  " ++ name ++ " = " ++ value
  let attributes : Text :=
    if d.attributes = [] then []
    else "\n\nerror attributes:" ++ (d.attributes.map line).flatten
  attributes ++ "\n\ncompiled source:\n" ++ d.listing

/-- A script that did not run to its end. -/
structure ExecutionFailure where
  location : Location
  /-- The class of error that the script language reports. -/
  kind : Text
  native : Text
  diagnostics : Option Diagnostics
deriving Repr, DecidableEq

namespace ExecutionFailure

def message (f : ExecutionFailure) : Text :=
  f.location.text ++ ": " ++ f.kind ++ ": " ++ f.native
    ++ (f.diagnostics.map Diagnostics.text).getD []

/-- An `end` or `until` where no block was left to close. -/
def closesTooManyBlocks (f : ExecutionFailure) : Bool :=
  f.kind == "SyntaxError".toList && f.native.contains "<eof>"
    && (f.native.contains "near 'end'" || f.native.contains "near 'until'")

def suggestions (f : ExecutionFailure) : List Text :=
  let closers : Text :=
    "Blocks close on dedent: an explicit end or until must be indented "
      ++ "like the line that opened the block"
  let rest : List Text := ["Run with --debug to see the compiled source"]
  ("Look at " ++ f.location.text) :: (if f.closesTooManyBlocks then closers :: rest else rest)

end ExecutionFailure

/-! ### Errors -/

inductive Error
  | input (fault : InputError)
  | templateNotFound (attempted : List Path)
  | filesystem (path : Path) (reason : Text)
  | execution (failure : ExecutionFailure)
  /-- A failure inside a template that was included at `location`. -/
  | nestedInclude (location : Location) (inner : Error)
  | includeDepthExceeded (limit : Nat) (path : Path)
  | reservedFunction (name : Text)
  | validation (reason : Text)
  | filesUnavailable
deriving Repr, DecidableEq, Inhabited

namespace Error

def message : Error → Text
  | input fault => fault.message
  | templateNotFound attempted =>
    "no suitable template found (tried " ++ Text.join ", " attempted ++ ")"
  | filesystem path reason => "Filesystem error at " ++ path ++ ": " ++ reason
  | execution failure => failure.message
  | nestedInclude location inner => location.text ++ ": include failed\n" ++ inner.message
  | includeDepthExceeded limit path =>
    "include depth limit of " ++ Text.ofNat limit ++ " exceeded while including '" ++ path ++ "'"
  | reservedFunction name => "builtin name '" ++ name ++ "' is reserved"
  | validation reason => "Validation failed: " ++ reason
  | filesUnavailable => "In-memory filesystem lock poisoned"

def suggestions : Error → List Text
  | input fault => fault.suggestions
  | templateNotFound attempted =>
    ["Looked for: " ++ Text.join ", " attempted,
      "Include paths are relative to the including template",
      "The .tpl suffix may be omitted"]
  | filesystem path _ =>
    ["Failed to access: " ++ path, "Check that the file exists and is readable"]
  | execution failure => failure.suggestions
  | nestedInclude _ inner => inner.suggestions
  | includeDepthExceeded _ _ =>
    ["A template probably includes itself, directly or indirectly",
      "Raise render.max_include_depth if the nesting is intended"]
  | reservedFunction name =>
    ["Rename the builtin '" ++ name
      ++ "'; print, include, str, len, json and locals are built in"]
  | validation _ => ["Check the error details above"]
  | filesUnavailable => ["This is likely a bug, please report it"]

def category : Error → Category
  | input fault => fault.category
  | templateNotFound _ => .notFound
  | filesystem _ _ | filesUnavailable => .internal
  | execution _ | includeDepthExceeded _ _ => .execution
  | nestedInclude _ inner => inner.category
  | reservedFunction _ | validation _ => .validation

/-- The places of the includes, outermost first. -/
def frames : Error → List Location
  | nestedInclude location inner => location :: inner.frames
  | _ => []

/-- The error of the template that failed itself. -/
def innermost : Error → Error
  | nestedInclude _ inner => inner.innermost
  | e => e

end Error

instance : Coe InputError Error := ⟨Error.input⟩

end Stencil
