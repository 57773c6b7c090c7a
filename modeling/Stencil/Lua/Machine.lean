import Stencil.Lua.Object
import Stencil.Lua.Position
import Stencil.Render.Runtime

/-! The state of a running script.

A `Machine` holds what the variables, tables and functions of a script are numbers of, the calls
that are under way, and what has been written. `Eval` is an effect on a machine, and on a state
outside, that may end in a value that was raised. -/
namespace Stencil.Lua

/-- The variables that some code sees, each by the number of its cell. -/
structure Env where
  chunk : Text
  locals : List (Text × Nat)
  /-- The variables of the functions around the one that runs. -/
  captured : List (Text × Nat)
  /-- The arguments beyond the parameters. -/
  rest : List Value

structure Closure where
  body : Function
  env : Env

/-- What a script calls the place of a value, for error messages. -/
structure Naming where
  kind : Text
  name : Text

/-- A call under way. -/
structure Frame where
  /-- The script that the running function is from, if it is from one. -/
  chunk : Option Text
  line : Nat
  function : Value
  /-- What the caller has for a name of the function. -/
  naming : Option Naming

def Frame.place (f : Frame) : Option Place := f.chunk.map (⟨·, f.line⟩)

/-- A failure of a native function. -/
structure NativeFailure where
  /-- The calls that were under way, innermost first. -/
  calls : List Level
  cause : FailureCause

structure Machine where
  cells : Array Value := #[]
  objects : Array Object := #[]
  closures : Array Closure := #[]
  failures : Array NativeFailure := #[]
  /-- Innermost first. -/
  frames : List Frame := []
  /-- Latest first. -/
  written : List Text := []

abbrev Eval (σ : Type) := ExceptT Value (StateT Machine (StateM σ))

def Naming.text : Option Naming → Text
  | some n => " (" ++ n.kind ++ " '" ++ n.name ++ "')"
  | none => []

/-- Calls a function, which the caller may have a name for. -/
abbrev Invoke (σ : Type) := Value → List Value → Option Naming → Eval σ (List Value)

/-- The tables that every machine begins with: the global variables and the metatable of strings. -/
def globals : Nat := 0

def stringMetatable : Nat := 1

/-- The tables in which a function is looked for that has to be called something: the global
variables and the libraries. -/
def libraries : List (Text × Nat) :=
  [("_G", globals), ("string", 2), ("table", 3), ("math", 4), ("utf8", 5)]

namespace Machine

variable {σ : Type}

def output (m : Machine) : Text := m.written.reverse.flatten

def position (f : Frame) : Text :=
  match f.chunk with
  | some chunk => chunk ++ ":" ++ Text.ofNat f.line ++ ": "
  | none => []

/-- The position of the call that is so many calls out. -/
def positionAt (m : Machine) (level : Nat) : Text := ((m.frames[level]?).map position).getD []

/-- The name of a function in the table of a library. -/
def libraryName? (m : Machine) (f : Value) : Option Text :=
  libraries.findSome? fun (library, id) =>
    (((m.objects[id]?).getD {}).nameOf? f).map fun name =>
      if id = globals then name else library ++ "." ++ name

/-- What the function of a call is called: by a name that everyone can see, else by the one that the
caller had for it, else by the line that it begins on. -/
def functionName (m : Machine) (f : Frame) : Text :=
  match m.libraryName? f.function, f.naming, f.function, f.chunk with
  | some name, _, _, _ => "function '" ++ name ++ "'"
  | none, some n, _, _ => n.kind ++ " '" ++ n.name ++ "'"
  | none, none, .closure id, some chunk =>
    match m.closures[id]? with
    | some ⟨.mk _ _ _ line, _⟩ =>
      if line = 0 then "main chunk" else "function <" ++ chunk ++ ":" ++ Text.ofNat line ++ ">"
    | none => "?"
  | none, none, _, _ => "?"

/-- The machine with its innermost function at a line. -/
def atLine (m : Machine) (line : Nat) : Machine :=
  { m with
    frames := match m.frames with
      | f :: rest => { f with line } :: rest
      | [] => [] }

/-- The calls under way, innermost first. -/
def calls (m : Machine) : List Level := m.frames.map fun f => ⟨f.place, m.functionName f⟩

end Machine

namespace Eval

variable {σ α : Type}

/-! ### Variables, tables and functions -/

def newCell (v : Value) : Eval σ Nat :=
  modifyGet fun m => (m.cells.size, { m with cells := m.cells.push v })

def readCell (id : Nat) : Eval σ Value := return ((← get).cells[id]?).getD .nil

def writeCell (id : Nat) (v : Value) : Eval σ Unit :=
  modify fun m => { m with cells := m.cells.setIfInBounds id v }

def newTable (o : Object) : Eval σ Nat :=
  modifyGet fun m => (m.objects.size, { m with objects := m.objects.push o })

def object (id : Nat) : Eval σ Object := return ((← get).objects[id]?).getD {}

def changeObject (id : Nat) (f : Object → Object) : Eval σ Unit :=
  modify fun m => { m with objects := m.objects.modify id f }

def newClosure (c : Closure) : Eval σ Nat :=
  modifyGet fun m => (m.closures.size, { m with closures := m.closures.push c })

/-! ### Calls -/

def enter (f : Frame) : Eval σ Unit := modify fun m => { m with frames := f :: m.frames }

def leave : Eval σ Unit := modify fun m => { m with frames := m.frames.drop 1 }

/-- The function that runs has come to a line. -/
def atLine (line : Nat) : Eval σ Unit := modify (·.atLine line)

def write (t : Text) : Eval σ Unit := modify fun m => { m with written := t :: m.written }

/-! ### Errors -/

/-- Raises a message with the position of the call that is so many calls out. -/
def raiseAt (level : Nat) (message : Text) : Eval σ α := do
  throw (.ofText ((← get).positionAt level ++ message))

/-- Raises a message about what the running function does. -/
def raise (message : Text) : Eval σ α := raiseAt 0 message

/-- Raises a message about how the running native function was called. -/
def complain (message : Text) : Eval σ α := raiseAt 1 message

/-- Fails in the running native function. -/
def fail (cause : FailureCause) : Eval σ α := do
  let id ← modifyGet fun m =>
    (m.failures.size, { m with failures := m.failures.push ⟨m.calls, cause⟩ })
  throw (.failure id)

/-- The failure with a number. -/
def failure (id : Nat) : Eval σ NativeFailure :=
  return ((← get).failures[id]?).getD ⟨[], .native "RuntimeError" [] []⟩

def failWith (message : Text) : Eval σ α := fail (.native "RuntimeError" message [])

end Eval
end Stencil.Lua
