import Stencil.Lua.Significance

/-! Text as a string literal.

A literal has no line break in it, so that a statement takes one line of a script: content with
a control character other than the tab is written with escapes. All other content is written as
it is, in the plainest form that can hold it: single quotes, double quotes, or a long bracket of
the lowest level whose closing first occurs right after the content. -/
namespace Stencil.Lua

def needsEscape (c : Char) : Bool := (c.toNat < 0x20 && c != '\t') || c.toNat == 0x7F

/-- A decimal escape has three digits, so that a digit after it is not read as part of it. -/
def decimalEscape (c : Char) : Text :=
  let digits := Text.ofNat c.toNat
  '\\' :: (Text.repeated '0' (3 - digits.length) ++ digits)

def escapeChar (c : Char) : Text :=
  if c = '\\' then ['\\', '\\']
  else if c = '"' then ['\\', '"']
  else if c = '\r' then ['\\', 'r']
  else if c = '\n' then ['\\', 'n']
  else if needsEscape c then decimalEscape c
  else [c]

def escapedLiteral (content : Text) : Text := '"' :: (content.flatMap escapeChar ++ ['"'])

def longLiteral (level : Nat) (content : Text) : Text :=
  '[' :: (Text.repeated '=' level ++ '[' :: (content ++ longClosing level))

/-- The content, put into a long bracket of this level, does not end it early. -/
def fitsLevel (content : Text) (level : Nat) : Bool :=
  Text.cut? (longClosing level) (content ++ longClosing level) == some (content, [])

/-- The lowest level that fits; the length of the content always does. -/
def longLevel (content : Text) : Nat :=
  ((List.range content.length).find? (fitsLevel content)).getD content.length

/-- The literal that denotes `content`. -/
def quote (content : Text) : Text :=
  if content.any needsEscape then escapedLiteral content
  else if '\\' ∉ content ∧ '\'' ∉ content then '\'' :: (content ++ ['\''])
  else if '\\' ∉ content ∧ '"' ∉ content then '"' :: (content ++ ['"'])
  else longLiteral (longLevel content) content

end Stencil.Lua
