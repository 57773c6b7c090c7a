/-! From the lines of a script back to the lines of its template.

A real line is the first statement of a template line. Every other statement, a further piece of
a text line or an implicit closing, is a phantom, and an entry records where it stands. A script
line maps to the number of real lines up to it. -/
namespace Stencil

inductive LineKind
  | real
  | phantom
deriving Repr, DecidableEq

/-- The number of lines of each kind, up to and including a phantom. -/
structure Shift where
  real : Nat
  phantom : Nat
deriving Repr, DecidableEq

/-- The line of the script that the phantom is. -/
def Shift.position (s : Shift) : Nat := s.real + s.phantom

structure LineMap where
  real : Nat
  phantom : Nat
  /-- One for each phantom, in order. -/
  entries : List Shift
deriving Repr, DecidableEq

namespace LineMap

def empty : LineMap := ⟨0, 0, []⟩

def total (m : LineMap) : Nat := m.real + m.phantom

/-- The map with one more line at the end. -/
def record (m : LineMap) : LineKind → LineMap
  | .real => { m with real := m.real + 1 }
  | .phantom =>
    { m with
      phantom := m.phantom + 1
      entries := m.entries ++ [⟨m.real, m.phantom + 1⟩] }

def ofLines (kinds : List LineKind) : LineMap := kinds.foldl record empty

/-- The number of phantoms to take off a line number, given those before the first entry. -/
def shiftFrom (line : Nat) : Nat → List Shift → Nat
  | before, [] => before
  | before, e :: rest =>
    if e.position = line then e.phantom
    else if line < e.position then before
    else shiftFrom line e.phantom rest

/-- The template line that a line of the script comes from. -/
def sourceLine (m : LineMap) (line : Nat) : Nat := line - shiftFrom line 0 m.entries

end LineMap
end Stencil
