import Stencil.Line.Form
import Stencil.Script.Basic
import Stencil.Script.Call
import Stencil.Script.Directive
import Stencil.Script.Nesting
import Stencil.Template

/-! From a template to its script.

`Item.ofLine` reads a line by itself: what it prints, or what code it is and how it takes part in
the block structure. All that can fail fails there. `Item.statements` then lays the items out, one
after the other, with the open blocks and the blank lines that wait for the next line that is not
blank, which decides their depth. -/
namespace Stencil

/-! ### Statements that print -/

def printLiteral (text : Text) (endLine : Bool) : Text :=
  if endLine then "print(" ++ Lua.quote text ++ ")" else "print(" ++ Lua.quote text ++ ", \"\")"

def printExpr (expr : Text) (endLine : Bool) : Text :=
  if endLine then "print(str(" ++ expr ++ ") .. \"\\n\", \"\")"
  else "print(str(" ++ expr ++ "), \"\")"

def Fragment.statement (d : Delimiters) (endLine : Bool) : Fragment → Text
  | literal text => printLiteral text endLine
  | escaped before => printLiteral (before ++ d.left) endLine
  | placeholder expr => printExpr expr endLine

/-- One statement for each fragment; the last one ends the line if the line is ended. -/
def fragmentStatements (d : Delimiters) (terminated : Bool) : List Fragment → List Text
  | [] => []
  | [last] => [last.statement d terminated]
  | fragment :: rest => fragment.statement d false :: fragmentStatements d terminated rest

/-! ### Lines -/

/-- What a line contributes to a script. -/
inductive Item
  | blank (statement : Text)
  /-- The statements of a placeholder or text line. -/
  | output (indent : Text) (statements : List Text)
  | code (indent code : Text) (line : CodeLine)
deriving Repr, DecidableEq

namespace Item

def ofForm (d : Delimiters) (template : Text) (line : Line) : Form → Except InputError Item
  | .blank content => .ok (blank (printLiteral content line.terminated))
  | .placeholder indent expr => .ok (output indent [printExpr expr false])
  | .text indent fragments => .ok (output indent (fragmentStatements d line.terminated fragments))
  | .code indent text =>
    match CodeLine.ofCode? text with
    | some parsed => .ok (code indent text parsed)
    | none => .error (.unbalancedCall template line.number text)

/-- Reads a line of the template with this description. -/
def ofLine (d : Delimiters) (template : Text) (line : Line) : Except InputError Item :=
  match Form.ofLine d line.content with
  | .ok form => ofForm d template line form
  | .error offending => .error (.unclassified template line.number offending.content)

/-! ### Layout -/

/-- Where the layout stands between two lines. -/
structure State where
  nesting : Nesting
  /-- The statements of blank lines that wait for their depth. -/
  held : List Text
deriving Repr, DecidableEq

def State.start : State := ⟨[], []⟩

def realAt (depth : Nat) (text : Text) : Statement := ⟨depth, text, .real⟩

def closing (c : ClosedBlock) : Statement := ⟨c.depth, c.block.kind.closer, .phantom⟩

/-- The blocks that have to be closed before a code line. The line takes over the outermost block
that it would close when that block stands at the line's own indentation and the line continues or
closes a block of its kind. -/
def closedBefore (closed : List ClosedBlock) (indent code : Text) : List ClosedBlock :=
  match closed.getLast? with
  | some outermost =>
    if outermost.block.width = indent.length ∧ outermost.block.kind.takenOverBy code then
      closed.dropLast
    else closed
  | none => closed

/-- A statement for the line and phantoms for what it has beyond that. -/
def realThenPhantoms (depth : Nat) : List Text → List Statement
  | [] => []
  | first :: rest => realAt depth first :: rest.map (⟨depth, ·, .phantom⟩)

/-- The statements that an item adds, and where the layout stands after it. -/
def lay (s : State) : Item → List Statement × State
  | blank statement => ([], { s with held := s.held ++ [statement] })
  | output indent statements =>
    let place := s.nesting.placement indent
    (place.closed.map closing ++ s.held.map (realAt place.depth)
        ++ realThenPhantoms place.depth statements,
      ⟨s.nesting.afterLine indent none, []⟩)
  | code indent text line =>
    let place := s.nesting.placement indent
    ((closedBefore place.closed indent text).map closing ++ s.held.map (realAt place.depth)
        ++ [realAt place.depth (line.statement place.leftover)],
      ⟨s.nesting.afterLine indent (BlockKind.opening? text), []⟩)

/-- The statements at the end of a template: every open block is closed, and blank lines that
still wait go to the outermost level. -/
def finish (s : State) : List Statement :=
  s.nesting.closeAll.map closing ++ s.held.map (realAt 0)

def statementsFrom (s : State) : List Item → List Statement
  | [] => finish s
  | item :: items =>
    let (now, next) := lay s item
    now ++ statementsFrom next items

def statements (items : List Item) : List Statement := statementsFrom .start items

end Item

/-- The script of a template, at the unit that its directive asks for or else at `unit`. -/
def Template.compile (d : Delimiters) (unit : Nat) (t : Template) : Except InputError Script := do
  let asked ← Directive.unit? d t.source
  let items ← (Line.ofSource t.source).mapM (Item.ofLine d t.description)
  return ⟨asked.getD unit, Item.statements items⟩

end Stencil
