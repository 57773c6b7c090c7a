import Stencil.Text.Lines
import Stencil.Text.Blank

/-! The physical lines of a template source.

A carriage return before the line feed belongs to the terminator, and so does one at the end of a
last line that has no line feed; any other carriage return stays in the content. -/
namespace Stencil

structure Line where
  /-- Counted from 1. -/
  number : Nat
  /-- The line without its terminator. -/
  content : Text
  /-- Whether a line feed ended the line. -/
  terminated : Bool
  last : Bool
deriving Repr, DecidableEq

/-- The lines of a source, in order. -/
def Line.ofSource (source : Text) : List Line :=
  let raw := source.rawLines
  raw.zipIdx.map fun ((content, terminated), index) =>
    { number := index + 1
      content := content.dropReturn
      terminated
      last := index + 1 == raw.length }

end Stencil
