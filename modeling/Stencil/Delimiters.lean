import Stencil.Text.Basic

/-! The delimiters a template is written in.

`Delimiters.ofParts` is the only way to a value: the three parts are not empty, the two
delimiters differ, and no part holds a line feed. A rejected triple is described by
`Delimiters.Defect`. -/
namespace Stencil

structure Delimiters where
  left : Text
  right : Text
  /-- Written after the left delimiter to make it literal. -/
  escape : Text
  left_ne : left ≠ []
  right_ne : right ≠ []
  escape_ne : escape ≠ []
  left_ne_right : left ≠ right
  one_line : '\n' ∉ left ∧ '\n' ∉ right ∧ '\n' ∉ escape

namespace Delimiters

/-- Why three parts are no delimiters. -/
inductive Defect
  | emptyPart
  | sameDelimiters (delimiter : Text)
  | severalLines

def Defect.message : Defect → Text
  | emptyPart => "delimiters and escape marker must not be empty"
  | sameDelimiters d => "left and right delimiters are both '" ++ d ++ "'"
  | severalLines => "delimiters cannot span lines"

def ofParts (left right escape : Text) : Except Defect Delimiters :=
  if hne : left ≠ [] ∧ right ≠ [] ∧ escape ≠ [] then
    if hlr : left = right then .error (.sameDelimiters left)
    else if hline : '\n' ∉ left ∧ '\n' ∉ right ∧ '\n' ∉ escape then
      .ok ⟨left, right, escape, hne.1, hne.2.1, hne.2.2, hlr, hline⟩
    else .error .severalLines
  else .error .emptyPart

/-- `<%`, `%>` and `%`. -/
def standard : Delimiters where
  left := ['<', '%']
  right := ['%', '>']
  escape := ['%']
  left_ne := by decide
  right_ne := by decide
  escape_ne := by decide
  left_ne_right := by decide
  one_line := by decide

instance : Inhabited Delimiters := ⟨standard⟩

/-- What stands for a literal left delimiter. -/
def escapedLeft (d : Delimiters) : Text := d.left ++ d.escape

def describe (d : Delimiters) : Text :=
  d.left ++ " expr " ++ d.right ++ " (escape " ++ d.escape ++ ")"

end Delimiters
end Stencil
