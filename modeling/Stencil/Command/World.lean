import Stencil.Command.Variables
import Stencil.Path
import Stencil.Render.Runtime
import Stencil.Text.Utf8

/-! What the tool is run in.

The surroundings of a run are a value: what is known of the files and of the standard input is
looked up in it, and so is what the two streams do with the texts that are written to them.
`World.ask` notes what is not known yet, so that whoever runs the tool can find it out and run it
once more; a run that has asked for nothing unknown is the real one. -/
namespace Stencil.Command

/-! ### Sources -/

inductive Source
  | file (path : Path)
  | standardInput
deriving Repr, DecidableEq

/-- What is found at a source. -/
inductive Entry
  | file (contents : Bytes)
  /-- A file that cannot be read, and what the system says. -/
  | unreadable (cause : Text)
  | directory
  | absent
deriving Repr, DecidableEq

def Entry.isFile : Entry → Bool
  | file _ | unreadable _ => true
  | directory | absent => false

/-! ### Streams -/

/-- A stream that fails at a text has taken some of its characters, and the system says why. -/
structure Refusal where
  taken : Nat
  cause : Text
deriving Repr, DecidableEq

/-- What becomes of a text that is written to a stream behind those that it has taken: the stream
takes it whole, or fails. -/
abbrev Sink := Text → Text → Option Refusal

namespace Sink

/-- A stream that takes every text. -/
def working : Sink := fun _ _ => none

/-- What a stream takes of a text. -/
def part (s : Sink) (before t : Text) : Text :=
  match s before t with
  | none => t
  | some refusal => t.take refusal.taken

end Sink

structure Streams where
  output : Sink := Sink.working
  messages : Sink := Sink.working

/-! ### Surroundings -/

structure Surroundings where
  environment : Variables.Environment
  /-- The directory that the tool is run in. -/
  directory : Path
  find : Source → Option Entry
  streams : Streams := {}

/-- The surroundings of a run with its arguments. -/
structure World extends Surroundings where
  arguments : List Text

/-- The sources that were asked for and are not known, latest first. -/
abbrev Asked := List Source

namespace Surroundings

def ask (w : Surroundings) (s : Source) : StateM Asked Entry := do
  match w.find s with
  | some entry => return entry
  | none =>
    modify (s :: ·)
    return .absent

/-- What is found at the first of some paths that a file is at. -/
def firstFile (w : Surroundings) : List Path → StateM Asked Entry
  | [] => return .absent
  | path :: rest => do
    let entry ← w.ask (.file path)
    if entry.isFile then return entry else firstFile w rest

/-- Templates of the surroundings. -/
def loader (w : Surroundings) : Loader Asked where
  exists? path := return (← w.ask (.file path)).isFile
  load path := do
    let fail := fun (reason : Text) =>
      throw (Error.filesystem path ("Failed to read template: " ++ reason))
    match ← (w.ask (.file path) : StateM Asked Entry) with
    | .absent => fail "No such file or directory (os error 2)"
    | .directory => fail "Is a directory (os error 21)"
    | .unreadable cause => fail cause
    | .file contents =>
      match contents.text? with
      | some t => return t
      | none => fail "stream did not contain valid UTF-8"

end Surroundings
end Stencil.Command
