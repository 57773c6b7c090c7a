import Stencil.Command.Run

/-! The tool on the machine it is called on.

`Command.run` decides what happens; here its questions about files and the standard input are
answered, and its outcome is carried out. Whether the output can be written is found out by writing
it; if it cannot, the run is the one whose stream refuses it. -/
namespace Stencil.Main

open Command

def bytesOf (contents : ByteArray) : Bytes := contents.toList

def byteArray (t : Text) : ByteArray := ⟨t.bytes.toArray⟩

/-- What is found at a source now. -/
def look : Source → IO Entry
  | .standardInput => do return .file (bytesOf (← (← IO.getStdin).readBinToEnd))
  | .file path => do
    match ← (IO.FS.readBinFile (String.ofList path)).toBaseIO with
    | .ok contents => return .file (bytesOf contents)
    | .error (.inappropriateType ..) => return .directory
    | .error (.permissionDenied ..) => return .unreadable "Permission denied (os error 13)"
    | .error _ => return .absent

/-- The variables that the process was given. -/
def environment : IO Variables.Environment := do
  match ← (IO.FS.readBinFile "/proc/self/environ").toBaseIO with
  | .error _ => return []
  | .ok contents =>
    return ((bytesOf contents).splitOn 0).filterMap fun entry => Text.splitFirst? '=' (Bytes.text entry)

/-- The outcome of a run, with every source looked up once when it is first asked for. -/
partial def settle (world : World) (known : List (Source × Entry)) : IO Outcome := do
  let find := fun source => (known.find? (·.1 = source)).map Prod.snd
  let (outcome, asked) := (run { world with find }).run []
  if asked.isEmpty then return outcome
  let found ← asked.eraseDups.mapM fun source => do return (source, ← look source)
  settle world (found ++ known)

def save (path : Path) (t : Text) : IO Unit := do
  match path.parent? with
  | none | some [] => pure ()
  | some directory => IO.FS.createDirAll (String.ofList directory)
  IO.FS.writeBinFile (String.ofList path) (byteArray t)

/-- Writes a text to a stream; the result is what is wrong with the stream. -/
def put (stream : IO.FS.Stream) (t : Text) : IO (Option Text) := do
  let write : IO Unit := do
    stream.write (byteArray t)
    stream.flush
  match ← write.toBaseIO with
  | .ok () => return none
  | .error e => return some (toString e).toList

/-- Tells the messages of a run. -/
def finish (outcome : Outcome) : IO UInt32 := do
  match ← put (← IO.getStderr) outcome.messages with
  | none => return outcome.code.toUInt32
  | some _ => return brokenOff.toUInt32

end Stencil.Main

open Stencil Command Main in
def main (arguments : List String) : IO UInt32 := do
  let world : World :=
    { arguments := arguments.map String.toList
      environment := ← environment
      directory := (← IO.currentDir).toString.toList
      find := fun _ => none }
  let outcome ← settle world []
  for (path, t) in outcome.writes do save path t
  match ← put (← IO.getStdout) outcome.output with
  | none => finish outcome
  | some cause =>
    finish (← settle { world with streams := { output := fun _ _ => some ⟨0, cause⟩ } } [])
