import Stencil.Files
import Stencil.Render.Runtime

/-! A runtime that plays recorded scripts.

What a script does is given by rules: the first rule whose text occurs in the code says which
actions to play. The state holds the files and a log of everything that the renderer asked for, so
that the conversation between the renderer and its surroundings can be looked at. -/
namespace Stencil.Playback

inductive Action
  | write (text : Text)
  /-- Writes a variable as JSON, or `nil` when it is not set. -/
  | variable (name : Text)
  | include (path : Path) (scope : Scope) (line : Option Nat)
  /-- Writes the result of a host function as JSON. -/
  | call (function : Text) (arguments : List Json) (line : Option Nat)
  | fail (kind message : Text) (attributes : List (Text × Text)) (line : Option Nat)

structure Rule where
  /-- Part of the code of the scripts that the rule is for. -/
  code : Text
  actions : List Action

/-- What a renderer has asked for. -/
inductive Event
  | exists (path : Path) (answer : Bool)
  | load (path : Path)
  | execute (code : Text) (scope : Scope) (functions : List Text)
  | check (code : Text)

structure State where
  files : Files
  /-- Latest first. -/
  log : List Event

def record (e : Event) : StateM State Unit := modify fun s => { s with log := e :: s.log }

def loader : Loader State where
  exists? path := do
    let answer := (← get).files.exists? path
    record (.exists path answer)
    return answer
  load path := do
    record (.load path)
    (← get).files.load path

def actions (rules : List Rule) (code : Text) : List Action :=
  ((rules.find? fun rule => code.contains rule.code).map Rule.actions).getD []

def native (kind message : Text) (line : Option Nat) : ScriptFailure :=
  ⟨line, .native kind message []⟩

/-- What an action writes. -/
def play (r : Request) (host : Host State) : Action → ExceptT ScriptFailure (StateM State) Text
  | .write text => return text
  | .variable name =>
    return match r.scope.get? name with
      | some value => value.text
      | none => "nil"
  | .include path scope line => do
    match ← (host path scope).run with
    | .ok output => return output
    | .error e => throw ⟨line, .included e⟩
  | .call function arguments line =>
    match r.functions.get? function with
    | none => throw (native "RuntimeError" ("no builtin " ++ function) line)
    | some f =>
      match f arguments with
      | .ok value => return value.text
      | .error message => throw (native "RuntimeError" message line)
  | .fail kind message attributes line => throw ⟨line, .native kind message attributes⟩

/-- The failure that the first failing action of a list stands for. -/
def firstFailure? : List Action → Option ScriptFailure
  | [] => none
  | .fail kind message attributes line :: _ => some ⟨line, .native kind message attributes⟩
  | _ :: rest => firstFailure? rest

def runtime (rules : List Rule) : Runtime State where
  execute r host := do
    record (.execute r.code r.scope r.functions.names)
    let played : ExceptT ScriptFailure (StateM State) (List Text) :=
      (actions rules r.code).mapM (play r host)
    return (← played.run).map List.flatten
  check code := do
    record (.check code)
    match firstFailure? (actions rules code) with
    | some f => return .error f
    | none => return .ok ()

end Stencil.Playback
