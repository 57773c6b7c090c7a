import Stencil.Text.WordChar
import Stencil.Text.Blank

/-! Positions in messages.

A message of the script language begins with the name of the script and a line. `chunkLine?` finds
the first such position in a text, `stripLocation` takes one off the start of a message, and
`splitTraceback` takes off the list of calls that a message ends in. -/
namespace Stencil.Lua

/-- The name of the scripts that templates are compiled to. -/
def scriptName : Text := "kiln"

/-- The name of what is run before a script. -/
def strictName : Text := "strict"

/-- A line of a script. -/
structure Place where
  chunk : Text
  line : Nat
deriving Repr, DecidableEq

/-- What a message begins with that tells a place. -/
def Place.position (p : Place) : Text := p.chunk ++ ":" ++ Text.ofNat p.line ++ ": "

/-- What stands before the line number of a position. -/
def positionMark : Text := scriptName ++ [':']

/-- Line numbers are 64-bit words. -/
def lineLimit : Nat := 0x10000000000000000

/-- The line of a position that a text starts with. -/
def lineAt? (t : Text) : Option Nat := do
  let rest ← Text.after? positionMark t
  let digits := rest.takeWhile isAsciiDigit
  if digits ≠ [] ∧ (rest.dropWhile isAsciiDigit).head? = some ':'
      ∧ Text.digitsValue digits < lineLimit then
    some (Text.digitsValue digits)
  else none

/-- The line of the first position in a text, which follows some character; a position does not
begin inside a word. -/
def lineIn? : Option Char → Text → Option Nat
  | _, [] => none
  | previous, c :: cs =>
    let here := if (previous.map isWordChar).getD false then none else lineAt? (c :: cs)
    here.or (lineIn? (some c) cs)

def chunkLine? (t : Text) : Option Nat := lineIn? none t

/-- A message without the position at its start. -/
def stripLocation (message : Text) : Text :=
  match Text.after? positionMark message with
  | none => message
  | some rest =>
    match rest.takeWhile isAsciiDigit, rest.dropWhile isAsciiDigit with
    | _ :: _, ':' :: text => Text.trimStart text
    | _, _ => message

def tracebackMark : Text := "stack traceback:"

/-- A call in a list of calls. -/
structure Level where
  /-- Where the function was that was called, if it is one of a script. -/
  place : Option Place
  /-- What the function is called. -/
  name : Text
deriving Repr, DecidableEq

/-- How a list of calls tells where one was. -/
def Level.placeText (l : Level) : Text :=
  match l.place with
  | some p => p.chunk ++ ":" ++ Text.ofNat p.line ++ ":"
  | none => "[C]:"

/-- How a list of calls tells one. -/
def Level.text (l : Level) : Text := "\n\t" ++ l.placeText ++ " in " ++ l.name

/-- The calls that are told of many: the first 10 and the last 11. -/
def toldCalls (calls : List Text) : List Text :=
  if calls.length ≤ 22 then calls
  else
    let skipped : Text := "\n\t...\t(skipping " ++ Text.ofNat (calls.length - 22) ++ " levels)"
    calls.take 10 ++ skipped :: calls.drop (calls.length - 11)

/-- A list of calls. -/
def traceback (calls : List Level) : Text :=
  tracebackMark ++ (toldCalls (calls.map Level.text)).flatten

/-- A message and the list of calls behind it. -/
def splitTraceback (message : Text) : Text × Option Text :=
  match Text.cut? ('\n' :: tracebackMark) message with
  | some (before, rest) => (before, some (Text.trimEnd (tracebackMark ++ rest)))
  | none => (message, none)

end Stencil.Lua
