import Stencil.Lua.Significance
import Stencil.Text.WordChar

/-! Blocks of script code, judged by single lines.

No line is parsed. A line opens a block when its code, strings and comments put aside, ends in a
word that begins a block body or in a function header; and it takes a block over when it starts
with a word that continues or closes a block of that kind. -/
namespace Stencil

inductive BlockKind
  /-- `if … then`, `elseif … then` and `else`. -/
  | conditional
  /-- `for … do`, `while … do` and `do`. -/
  | loop
  /-- A function header with its parameter list. -/
  | function
  /-- `repeat`. -/
  | repetition
deriving Repr, DecidableEq

namespace BlockKind

/-- The statement that closes a block which the template leaves by its indentation alone. A
`repeat` needs a condition and is gone through once. -/
def closer : BlockKind → Text
  | repetition => "until true"
  | _ => "end"

/-- Code that ends in a parameter list after `function`, with or without a name between. -/
def endsInFunctionHeader (code : Text) : Bool :=
  match code.reverse with
  | ')' :: head =>
    match head.dropWhile (· != '(') with
    | '(' :: before =>
      let before := Text.trimEnd before.reverse
      let unnamed := before.dropEndWhile fun c => isLetterOrDigit c || c ∈ ['_', '.', ':']
      before.endsWithWord "function"
        || (unnamed.length < before.length && unnamed.trimEnd.endsWithWord "function")
    | _ => false
  | _ => false

/-- The kind of block that a line of code opens. -/
def opening? (line : Text) : Option BlockKind :=
  let code := Lua.significantPrefix line
  if code.endsWithWord "then" || code.endsWithWord "else" then some conditional
  else if code.endsWithWord "do" then some loop
  else if code.endsWithWord "repeat" then some repetition
  else if endsInFunctionHeader code then some function
  else none

/-- Whether a line of code continues or closes a block of this kind itself. -/
def takenOverBy (kind : BlockKind) (line : Text) : Bool :=
  if line.startsWithWord "else" || line.startsWithWord "elseif" then kind == conditional
  else if line.startsWithWord "until" then kind == repetition
  else if line.startsWithWord "end" then kind != repetition
  else false

end BlockKind
end Stencil
