import Stencil.Lua.Exchange
import Stencil.Lua.Library.Call
import Stencil.Lua.Position
import Stencil.Text.Lines

/-! The functions that a template is written with.

`print` and `include` write a text, each line of it indented that has something on it, and an end
of line behind it. An included text loses one end of line first, so that it takes the place of the
line that included it. -/
namespace Stencil.Lua

namespace TemplateFunction

def named : List (Text × TemplateFunction) :=
  [("print", print), ("__print", printIndented), ("include", includeFile),
    ("__include", includeIndented), ("str", str), ("len", len), ("json", json),
    ("locals", locals)].map fun (n, f) => (n.toList, f)

end TemplateFunction

/-- What a script reaches outside itself. -/
structure Context (σ : Type) where
  host : Host σ
  scope : Scope
  functions : Table HostFunction

/-! ### Written text -/

def isLineEnd (c : Char) : Bool := c == '\n' || c == '\r'

/-- The text with an indentation before each line that has more than its end. -/
def indentLines (indent t : Text) : Text :=
  Text.mapLines (fun line => if line.all isLineEnd then line else indent ++ line) t

/-- The text without one end of line at its end. -/
def chomp (t : Text) : Text := t.dropLineFeed.dropReturn

structure WriteOptions where
  lineEnd : Text := "\n"
  isIndented : Bool := true
  /-- Takes the place of the indentation of the call. -/
  indent : Option Text := none
deriving Repr, DecidableEq

/-- The indentation of what a call with some indentation writes. -/
def WriteOptions.indentation (o : WriteOptions) (ofCall : Text) : Text :=
  if o.isIndented then o.indent.getD ofCall else []

variable {σ α : Type} (invoke : Invoke σ)

def writeLines (o : WriteOptions) (ofCall t : Text) : Eval σ Unit :=
  Eval.write (indentLines (o.indentation ofCall) t ++ o.lineEnd)

/-! ### Failures -/

/-- The cause of a failure, or of a raised value that has become one. -/
def causeOf (raised : Value) : Eval σ FailureCause := do
  match ← told invoke maxShown raised with
  | .inl f => return f.cause
  | .inr text => return .native "RuntimeError" (stripLocation (splitTraceback text).1) []

/-- What is raised in the course of a native function is a failure of that function. -/
def guarded (act : Eval σ α) : Eval σ α := do
  let frames := (← get).frames
  tryCatch act fun raised => do
    let cause ← causeOf invoke raised
    modify fun m => { m with frames }
    Eval.fail cause

def exchanged (r : Except Mismatch α) : Eval σ α :=
  match r with
  | .ok a => return a
  | .error e => Eval.failWith e.message

/-! ### Arguments -/

def conversionText (found expected : Text) : Text :=
  "error converting Lua " ++ found ++ " to " ++ expected

/-- The number of bytes before the first one that is in no character. -/
def validLength (s : Bytes) : Nat :=
  Text.utf8Size (((Bytes.decode none s).takeWhile Option.isSome).filterMap id)

/-- The text that a value is or, as a number, is written with. -/
def textOf (v : Value) : Except Text Text :=
  match v.bytes? with
  | none => .error (conversionText v.kindName "String" ++ " (expected string or number)")
  | some s =>
    match s.text? with
    | some t => .ok t
    | none => .error (conversionText "string" "String" ++ " (invalid utf-8 sequence of 1 bytes from index "
        ++ Text.ofNat (validLength s) ++ ")")

/-- A value that has to be a text; the label says where it is from. -/
def requireText (label : Text) (v : Value) : Eval σ Text :=
  match textOf v with
  | .ok t => return t
  | .error message => Eval.failWith (label ++ message)

def textArgument (c : Call) (i : Nat) : Eval σ Text :=
  requireText ("bad argument #" ++ Text.ofNat (i + 1) ++ ": ") (c.value i)

def optionalText (v : Value) : Eval σ (Option Text) :=
  if v.isNil then return none else return some (← requireText [] v)

def writeOptions (v : Value) : Eval σ WriteOptions := do
  match v with
  | .nil => return {}
  | .string s => return { lineEnd := s.text }
  | .table _ =>
    let option := fun (name : Text) => guarded invoke (index invoke ⟨v, none⟩ (.ofText name))
    let lineEnd ← optionalText (← option "eol")
    let isIndented ← option "indent"
    let indent ← optionalText (← option "indent_space")
    return {
      lineEnd := lineEnd.getD "\n"
      isIndented := isIndented.isNil || isIndented.isTrue
      indent }
  | _ => Eval.failWith ("options must be an eol string or a table, got " ++ v.kindName)

/-! ### The functions -/

def globalsTable : Eval σ Object := Eval.object globals

/-- The text of a value: a table is written as JSON, and what is no string as the script's own
`tostring` has it. -/
def toText (v : Value) : Eval σ Text := do
  match v with
  | .string s => return s.text
  | .table _ => return (← exchanged ((← get).json v)).text
  | _ =>
    let f := (← globalsTable).getText "tostring"
    if f.isFunction then
      requireText [] (first (← guarded invoke (invoke f [v] none)))
    else Eval.failWith (conversionText f.kindName "function")

def printWith (ofCall : Text) (arguments : List Value) : Eval σ Unit := do
  let t ← match arguments with
    | [] => pure []
    | v :: _ => toText invoke v
  writeLines (← writeOptions invoke (first (arguments.drop 1))) ofCall t

def includeWith (context : Context σ) (ofCall path : Text) (scope options : Value) :
    Eval σ Unit := do
  let scope ← if scope.isNil then pure .empty else exchanged ((← get).scope scope)
  let options ← writeOptions invoke options
  let rendered : Except Error Text ← (monadLift (context.host path scope).run : Eval σ _)
  match rendered with
  | .ok t => writeLines options ofCall (chomp t)
  | .error e => Eval.fail (.included e)

def callTemplate (context : Context σ) (f : TemplateFunction) (c : Call) :
    Eval σ (List Value) := do
  match f with
  | .print =>
    printWith invoke [] c.arguments
    return []
  | .printIndented =>
    printWith invoke (← textArgument c 0) (c.arguments.drop 1)
    return []
  | .includeFile =>
    includeWith invoke context [] (← textArgument c 0) (c.value 1) (c.value 2)
    return []
  | .includeIndented =>
    let indent ← textArgument c 0
    includeWith invoke context indent (← textArgument c 1) (c.value 2) (c.value 3)
    return []
  | .str => return [.ofText (← toText invoke (c.value 0))]
  | .len =>
    match c.value 0 with
    | .string s => return [.int s.text.length]
    | .table id => return [.int (← Eval.object id).length]
    | v => Eval.failWith ("object of type '" ++ v.kindName ++ "' has no len()")
  | .json => return [.ofText (← exchanged ((← get).json (c.value 0))).text]
  | .locals => return [← ofJson (.members context.scope.entries)]

/-- Calls a function of the host with JSON values. -/
def callHost (context : Context σ) (name : Text) (c : Call) : Eval σ (List Value) := do
  let m ← get
  let arguments ← exchanged (c.arguments.mapM m.json)
  match context.functions.get? name with
  | none => return []
  | some f =>
    match f arguments with
    | .ok result => return [← ofJson result]
    | .error message => Eval.failWith (stripLocation (splitTraceback message).1)

end Stencil.Lua
