import Stencil.Text.Basic

/-! White space.

`isBlank` is the Unicode property White_Space, 25 characters; indentation, blank lines and the
trimming of expressions all go by it. The narrower ASCII class is the one in which a trailing
blank of script code is looked for. -/
namespace Stencil

/-- The Unicode property White_Space. -/
def isBlank (c : Char) : Bool :=
  let n := c.toNat
  (0x09 ≤ n && n ≤ 0x0D) || n == 0x20 || n == 0x85 || n == 0xA0 || n == 0x1680
    || (0x2000 ≤ n && n ≤ 0x200A) || n == 0x2028 || n == 0x2029 || n == 0x202F
    || n == 0x205F || n == 0x3000

/-- Space, tab, line feed, form feed and carriage return. -/
def isAsciiBlank (c : Char) : Bool :=
  c == ' ' || c == '\t' || c == '\n' || c == '\x0C' || c == '\r'

namespace Text

def trimStart (t : Text) : Text := t.dropWhile isBlank

def trimEnd (t : Text) : Text := t.dropEndWhile isBlank

def trim (t : Text) : Text := trimEnd (trimStart t)

/-- The blanks that a text starts with. -/
def indentation (t : Text) : Text := t.takeWhile isBlank

theorem indentation_append_trimStart (t : Text) : indentation t ++ trimStart t = t :=
  List.takeWhile_append_dropWhile

def isBlankLine (t : Text) : Bool := t.all isBlank

end Text
end Stencil
