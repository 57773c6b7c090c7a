import Stencil.Lua.Engine
import Stencil.Lua.Evaluation
import Stencil.Lua.Library
import Stencil.Lua.Parser

/-! Running scripts.

`invoke` ties evaluation and the libraries together, by the number of calls that may still be
nested. A script is run after a few lines that make it an error to read a global variable that was
never set. `interpreter` is the result, an engine for the part of the language that is modelled
here, and `runtime` is what a renderer runs scripts with. -/
namespace Stencil.Lua

variable {σ : Type}

/-! ### Calls -/

/-- Calls a function inside a frame of its own. -/
def framed {α : Type} (f : Frame) (act : Eval σ α) : Eval σ α := do
  Eval.enter f
  let a ← act
  Eval.leave
  return a

/-- A call that is still to be made. -/
structure PendingCall where
  function : Value
  arguments : List Value
  naming : Option Naming

/-- Makes a call; the call that a function of the script ends in takes the place of its own, and is
not known by a name. -/
def step (invoke : Invoke σ) (context : Context σ) (p : PendingCall) :
    Eval σ (PendingCall ⊕ List Value) := do
  match p.function with
  | .native f =>
    let c := f.called p.naming p.arguments
    return .inr (← framed ⟨none, 0, p.function, p.naming⟩ (callNative invoke context f c))
  | .closure id =>
    match (← get).closures[id]? with
    | none => return .inr []
    | some c =>
      Eval.enter ⟨some c.env.chunk, 0, p.function, p.naming⟩
      match ← execFunction invoke c p.arguments with
      | .tail (.closure id) arguments _ =>
        Eval.leave
        return .inl ⟨.closure id, arguments, none⟩
      | .tail f arguments naming =>
        let values ← invoke f arguments naming
        Eval.leave
        return .inr values
      | .result values =>
        Eval.leave
        return .inr values
      | _ =>
        Eval.leave
        return .inr []
  | v =>
    match ← metafield v "__call" with
    | .nil => refuse "call" ⟨v, p.naming⟩
    | h => return .inr (← invoke h (v :: p.arguments) p.naming)

def complete (invoke : Invoke σ) (context : Context σ) :
    Nat → PendingCall → Eval σ (List Value)
  | 0, _ => return []
  | n + 1, p => do
    match ← step invoke context p with
    | .inl p => complete invoke context n p
    | .inr values => return values

/-- How deeply calls may be nested; implementations that count the values on a stack may allow
more. -/
def maxDepth : Nat := 20000

/-- Calls a function, with so many calls inside each other. -/
def invoke (context : Context σ) : Nat → Invoke σ
  | 0 => fun _ _ _ => Eval.raise "stack overflow"
  | depth + 1 => fun f arguments naming =>
    complete (invoke context depth) context maxRounds ⟨f, arguments, naming⟩

/-! ### Scripts -/

/-- A script as a function of further arguments. -/
def loadChunk (name : Text) (body : List Statement) : Eval σ Value := do
  let cell ← Eval.newCell (.table globals)
  let env : Env := ⟨name, [], [(globalsName, cell)], []⟩
  return .closure (← Eval.newClosure ⟨.mk [] true body 0, env⟩)

/-- Makes it an error to read a global variable that is not declared. -/
def strictGlobals : Text := "
local declared = ...
setmetatable(_G, \x7b
    __index = function(_, name)
        if declared[name] then
            return nil
        end
        error(\"name '\" .. tostring(name) .. \"' is not defined\", 2)
    end,
\x7d)
"

/-- The table whose keys are the variables of a scope. -/
def declaredTable (scope : Scope) : Object :=
  scope.names.foldl (fun o name => o.setText name (.bool true)) {}

def runChunk (context : Context σ) (name : Text) (body : List Statement)
    (arguments : List Value) : Eval σ Unit := do
  let _ ← invoke context maxDepth (← loadChunk name body) arguments none

/-- Everything that comes before the script itself. -/
def prepare (context : Context σ) : Eval σ Unit := do
  installLanguage
  installTemplate context
  let declared ← Eval.newTable (declaredTable context.scope)
  if let .ok body := parse strictGlobals then
    runChunk context strictName body [.table declared]

/-! ### Reports -/

/-- What is reported of a script that cannot be read. -/
def ParseError.report (e : ParseError) : Report :=
  match e.complaint with
  | .tooDeep => .raised none e.complaint.message none
  | c => .unreadable e.line c.message (Text.before? endShown c.message).isSome

/-- The place of the innermost call that a message begins with the position of, and the message
without it. -/
def placed? (calls : List Level) (message : Text) : Option (Place × Text) :=
  calls.findSome? fun call => do
    let place ← call.place
    let rest ← Text.after? place.position message
    return (place, rest)

/-- What is reported of a message that was raised in the course of calls. The function that tells
them stands before them. -/
def Report.ofMessage (calls : List Level) (message : Text) : Report :=
  let told := some (⟨none, "?"⟩ :: calls)
  match placed? calls message with
  | some (place, rest) => .raised (some place) rest told
  | none => .raised none message told

/-- Reads the code of a script and runs it. -/
def runScript (context : Context σ) (code : Text) : Eval σ (Option Report) := do
  prepare context
  match parse code with
  | .error e => return some e.report
  | .ok body =>
    runChunk context scriptName body []
    return none

/-- What is reported of a value that a script has raised. -/
def reportOf (context : Context σ) (raised : Value) : Eval σ Report := do
  let calls := (← get).calls
  match ← told (invoke context maxDepth) maxShown raised with
  | .inl f => return .failed (some f.calls) f.cause
  | .inr message => return .ofMessage calls message

/-- Runs the code of a script, and reports why it did not run to its end. -/
def runCode (context : Context σ) (code : Text) : Eval σ (Option Report) :=
  tryCatch (runScript context code) fun raised => do return some (← reportOf context raised)

/-! ### The interpreter -/

/-- The engine that runs scripts as these modules say. -/
def interpreter : Engine σ where
  run r host := do
    match ← ((runCode ⟨host, r.scope, r.functions⟩ r.code).run).run {} with
    | (.ok none, m) => return .ok m.output
    | (.ok (some report), _) => return .error report
    | (.error _, _) => return .error (.stopped "RuntimeError" [])
  load code := ((parse code).mapError ParseError.report).map fun _ => ()

def runtime : Runtime σ := interpreter.runtime

def execute : Request → Host σ → StateM σ (Except ScriptFailure Text) := runtime.execute

end Stencil.Lua
