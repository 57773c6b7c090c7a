import Stencil.Script.LineMap
import Stencil.Text.Lines
import Stencil.Text.Blank

/-! Scripts.

A script is a list of statements, one a line, each at a depth of blocks. Its code and its line map
are both computed from that list, so that a line of the code is the statement that the map counts
there; only blanks at the end of the code are dropped. -/
namespace Stencil

structure Statement where
  depth : Nat
  text : Text
  kind : LineKind
deriving Repr, DecidableEq

structure Script where
  /-- Spaces for each level of depth. -/
  indentUnit : Nat
  statements : List Statement
deriving Repr, DecidableEq

def indentText (unit depth : Nat) : Text := Text.spaces (unit * depth)

def Statement.line (unit : Nat) (s : Statement) : Text := indentText unit s.depth ++ s.text

/-- The lines of some code, numbered. -/
def numberedListing (code : Text) : Text :=
  let lines := code.displayLines
  let width := (Text.ofNat (max lines.length 1)).length
  Text.join "\n" <| lines.zipIdx.map fun (line, index) =>
    Text.padLeft width (Text.ofNat (index + 1)) ++ " | " ++ line

namespace Script

def lines (s : Script) : List Text := s.statements.map (Statement.line s.indentUnit)

def code (s : Script) : Text := (Text.join "\n" s.lines).trimEnd

def lineMap (s : Script) : LineMap := LineMap.ofLines (s.statements.map Statement.kind)

def listing (s : Script) : Text := numberedListing s.code

end Script
end Stencil
