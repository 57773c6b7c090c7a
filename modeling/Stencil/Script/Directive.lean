import Stencil.Error
import Stencil.Text.Blank
import Stencil.Text.WordChar

/-! The indent unit that a template asks for.

A template may begin, after blank lines and indentation, with an assignment of a number to
`__indent__` in code. The number is the indent unit of its script; it counts decimal digits of any
script, but only ASCII digits are a value. -/
namespace Stencil

def minIndentUnit : Nat := 1

def maxIndentUnit : Nat := 16

def defaultIndentUnit : Nat := 4

def checkIndentUnit (unit : Nat) : Except InputError Nat :=
  if minIndentUnit ≤ unit ∧ unit ≤ maxIndentUnit then .ok unit
  else .error (.indentUnit (Text.ofNat unit))

namespace Directive

/-- The digits of the assignment, in a text that starts with the left delimiter. -/
def digitsHere? (d : Delimiters) (t : Text) : Option Text := do
  let code ← Text.after? d.left t
  let value ← Text.after? "__indent__" code.trimStart
  let number ← Text.after? "=" value.trimStart
  let digits := number.trimStart.takeWhile isDecimalDigit
  if digits = [] then none else some digits

/-- The digits of the assignment, after any blank lines and indentation of spaces and tabs. -/
def digits? (d : Delimiters) (source : Text) : Option Text :=
  match digitsHere? d source with
  | some digits => some digits
  | none =>
    match source with
    | '\r' :: '\n' :: rest => digits? d rest
    | c :: rest => if c = ' ' ∨ c = '\t' ∨ c = '\n' then digits? d rest else none
    | [] => none

/-- Numbers of scripts are words of 64 bits. -/
def maxNumber : Nat := 0xFFFFFFFFFFFFFFFF

/-- The indent unit that a source asks for, if it does. -/
def unit? (d : Delimiters) (source : Text) : Except InputError (Option Nat) :=
  match digits? d source with
  | none => .ok none
  | some digits =>
    if digits.all isAsciiDigit && Text.digitsValue digits ≤ maxNumber then
      some <$> checkIndentUnit (Text.digitsValue digits)
    else .error (.indentUnit digits)

end Directive
end Stencil
