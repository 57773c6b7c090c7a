import Stencil.Script.Block

/-! Block structure from indentation.

`Nesting` holds the open blocks, innermost first. A line closes every block that is not
indented less than the line itself, and the number of blocks that remain is the depth of its
statement. Indentation is compared by its number of characters; a tab counts as one. -/
namespace Stencil

structure OpenBlock where
  /-- The indentation of the line that opened the block. -/
  indent : Text
  kind : BlockKind
deriving Repr, DecidableEq

def OpenBlock.width (b : OpenBlock) : Nat := b.indent.length

/-- A block that a line has closed, with the depth of the statement that opened it. -/
structure ClosedBlock where
  depth : Nat
  block : OpenBlock
deriving Repr, DecidableEq

/-- The open blocks, innermost first. -/
abbrev Nesting := List OpenBlock

/-- Where a line goes. -/
structure Placement where
  depth : Nat
  /-- The blocks that the line closes, innermost first. -/
  closed : List ClosedBlock
  /-- The indentation of the line beyond that of the innermost block still open. -/
  leftover : Text
deriving Repr, DecidableEq

namespace Nesting

def depth (n : Nesting) : Nat := n.length

/-- All open blocks with the depth of each. -/
def closeAll : Nesting → List ClosedBlock
  | [] => []
  | block :: outer => ⟨outer.length, block⟩ :: closeAll outer

/-- The blocks that stay open at a line of this width. -/
def enclosing (n : Nesting) (width : Nat) : Nesting := n.dropWhile (width ≤ ·.width)

/-- Where a line with this indentation goes. -/
def placement (n : Nesting) (indent : Text) : Placement :=
  let outer := n.enclosing indent.length
  { depth := outer.depth
    closed := n.closeAll.takeWhile (indent.length ≤ ·.block.width)
    leftover := indent.drop ((outer.head?.map OpenBlock.width).getD 0) }

/-- The open blocks after a line with this indentation, which may open a block of its own. -/
def afterLine (n : Nesting) (indent : Text) (opens : Option BlockKind) : Nesting :=
  let outer := n.enclosing indent.length
  match opens with
  | some kind => ⟨indent, kind⟩ :: outer
  | none => outer

end Nesting
end Stencil
