import Stencil.Text.Basic

/-! Physical lines.

A line ends at a line feed; a text that does not end in one has a last line without terminator,
and a final line feed starts no further line. `rawLines` keeps every other character, and
`unlines_rawLines` says that the text can be put together again from it. -/
namespace Stencil.Text

/-- The lines of a text, each with whether a line feed ended it. -/
def rawLines : Text → List (Text × Bool)
  | [] => []
  | c :: cs =>
    if c = '\n' then ([], true) :: rawLines cs
    else match rawLines cs with
      | [] => [([c], false)]
      | (line, ended) :: lines => (c :: line, ended) :: lines

def unlines (lines : List (Text × Bool)) : Text :=
  (lines.map fun l => l.1 ++ if l.2 then ['\n'] else []).flatten

theorem unlines_rawLines (t : Text) : unlines (rawLines t) = t := by
  induction t with
  | nil => rfl
  | cons c cs ih =>
    unfold rawLines
    split
    · next h => simpa [unlines, h] using ih
    · split
      · next h => rw [h] at ih; simp [unlines] at ih; simp [unlines, ← ih]
      · next line ended lines h => rw [h] at ih; simpa [unlines] using ih

/-- A text without one carriage return at its end. -/
def dropReturn (t : Text) : Text := (before? ['\r'] t).getD t

/-- The text without one line feed at its end. -/
def dropLineFeed (t : Text) : Text := (before? ['\n'] t).getD t

/-- The lines of a script for display: a carriage return belongs to the terminator after it, and
stays where a line has none. -/
def displayLines (t : Text) : List Text :=
  (rawLines t).map fun (line, ended) => if ended then dropReturn line else line

/-- Each line, its terminator included, passed through a function. -/
def mapLines (f : Text → Text) (t : Text) : Text :=
  ((rawLines t).map fun (line, ended) => f (line ++ if ended then ['\n'] else [])).flatten

end Stencil.Text
