import Stencil.Proofs.Lua.Token
import Stencil.Scope
import Stencil.Script.Compile

/-! Scripts with a block structure.

A `Program` is a script as templates are compiled to: lines that print a text or a variable, loops
over integers and conditionals on a variable, each statement on a line of its own and every block
closed by its own line. A program has a code and a meaning that is given by recursion (`eval`). The
modules behind this one go from the one to the other: what the tokens of the code are, how they are
read, and what is printed when that is run. -/
namespace Stencil.Lua

/-! ### Programs -/

/-- An integer as a script spells it: a numeral with or without a minus sign. -/
structure Literal where
  negative : Bool
  numeral : Text
  /-- What the numeral stands for. -/
  value : Int64
  isNumeral : IsNumeral numeral
  reads : Number.readUnsigned? numeral = some (.int value)

namespace Literal

def text (l : Literal) : Text := if l.negative then '-' :: l.numeral else l.numeral

/-- The integer; the sign wraps as it does in the script language. -/
def toInt64 (l : Literal) : Int64 := if l.negative then -l.value else l.value

end Literal

/-- A sequence of statements; a constructor is the first of them, and `rest` are the others. -/
inductive Program
  | done
  | print (content : Text) (endLine : Bool) (rest : Program)
  /-- Prints the value of a variable. -/
  | write (name : Text) (rest : Program)
  /-- A loop over the integers from one to another. -/
  | count (name : Text) (start limit : Literal) (body rest : Program)
  | when (condition : Text) (body rest : Program)
  | choose (condition : Text) (body otherwise rest : Program)

def countHeader (name : Text) (start limit : Literal) : Text :=
  "for " ++ name ++ " = " ++ start.text ++ ", " ++ limit.text ++ " do"

def whenHeader (condition : Text) : Text := "if " ++ condition ++ " then"

namespace Program

/-- The integers that a loop counts through. -/
def range (start limit : Int) : List Int :=
  (List.range (limit + 1 - start).toNat).map fun (k : Nat) => start + k

/-- What the program prints, given the conditions and the values of the loop variables. -/
def eval (holds : Text → Bool) (values : Text → Int) : Program → Text
  | done => []
  | print content endLine rest =>
    content ++ (if endLine then ['\n'] else []) ++ rest.eval holds values
  | write name rest => Number.integerText (values name) ++ rest.eval holds values
  | count name start limit body rest =>
    ((range start.toInt64.toInt limit.toInt64.toInt).flatMap fun i =>
      body.eval holds fun n => if n = name then i else values n) ++ rest.eval holds values
  | when condition body rest =>
    (if holds condition then body.eval holds values else []) ++ rest.eval holds values
  | choose condition body otherwise rest =>
    (if holds condition then body.eval holds values else otherwise.eval holds values)
      ++ rest.eval holds values

/-- The lines of the code, each with its depth of blocks. -/
def lines (depth : Nat) : Program → List (Nat × Text)
  | done => []
  | print content endLine rest => (depth, printLiteral content endLine) :: rest.lines depth
  | write name rest => (depth, printExpr name false) :: rest.lines depth
  | count name start limit body rest =>
    (depth, countHeader name start limit) ::
      (body.lines (depth + 1) ++ (depth, "end".toList) :: rest.lines depth)
  | when condition body rest =>
    (depth, whenHeader condition) ::
      (body.lines (depth + 1) ++ (depth, "end".toList) :: rest.lines depth)
  | choose condition body otherwise rest =>
    (depth, whenHeader condition) ::
      (body.lines (depth + 1) ++ (depth, "else".toList) ::
        (otherwise.lines (depth + 1) ++ (depth, "end".toList) :: rest.lines depth))

def code (unit : Nat) (p : Program) : Text :=
  Text.join "\n" ((p.lines 0).map fun (depth, text) => indentText unit depth ++ text)

/-- The number of lines. -/
def height : Program → Nat
  | done => 0
  | print _ _ rest | write _ rest => rest.height + 1
  | count _ _ _ body rest | when _ body rest => body.height + rest.height + 2
  | choose _ body otherwise rest => body.height + otherwise.height + rest.height + 3

/-- Every name is one for a variable, the conditions are from a list, and every variable that is
printed is that of a loop around it, which hides nothing that the script needs. -/
def Closed (conditions : List Text) : List Text → Program → Prop
  | _, done => True
  | counters, print _ _ rest => rest.Closed conditions counters
  | counters, write name rest => name ∈ counters ∧ rest.Closed conditions counters
  | counters, count name _ _ body rest =>
    (isVariableName name = true ∧ name ∉ conditions ∧
      name ∉ ["print".toList, "str".toList, "_ENV".toList]) ∧
    body.Closed conditions (name :: counters) ∧ rest.Closed conditions counters
  | counters, when condition body rest =>
    condition ∈ conditions ∧ body.Closed conditions counters ∧ rest.Closed conditions counters
  | counters, choose condition body otherwise rest =>
    condition ∈ conditions ∧ body.Closed conditions counters ∧
      otherwise.Closed conditions counters ∧ rest.Closed conditions counters

end Program

end Stencil.Lua
