import Stencil.Text.Blank

/-! Which characters of a line of code stand outside strings and comments.

A string or comment that begins at a character hides every character up to its end; a line
comment, and a string or long bracket that is not closed on the line, hide the rest. `afterHidden?`
finds that end, `significance` marks every character, and two readers go by the marks: the code
without what trails it (`significantPrefix`), and the parenthesis that closes another
(`closingParen?`). -/
namespace Stencil.Lua

/-! ### Strings and comments -/

/-- The level of an opening long bracket and what follows the bracket. -/
def longOpening? : Text → Option (Nat × Text)
  | '[' :: cs =>
    match cs.dropWhile (· == '=') with
    | '[' :: rest => some ((cs.takeWhile (· == '=')).length, rest)
    | _ => none
  | _ => none

def longClosing (level : Nat) : Text := ']' :: (Text.repeated '=' level ++ [']'])

/-- What follows a long bracket whose opening has been read. -/
def afterLong? (level : Nat) (inside : Text) : Option Text :=
  (Text.cut? (longClosing level) inside).map Prod.snd

/-- What follows a short string whose opening quote has been read. -/
def afterShort? (quote : Char) : Text → Option Text
  | [] => none
  | [c] => if c = quote then some [] else none
  | c :: e :: cs =>
    if c = '\\' then afterShort? quote cs
    else if c = quote then some (e :: cs)
    else afterShort? quote (e :: cs)

/-- What follows the string or comment that begins the text, or the empty rest if it has no end.
None when the text begins with neither. -/
def afterHidden? : Text → Option Text
  | '\'' :: cs => some ((afterShort? '\'' cs).getD [])
  | '"' :: cs => some ((afterShort? '"' cs).getD [])
  | '-' :: '-' :: cs =>
    match longOpening? cs with
    | some (level, inside) => some ((afterLong? level inside).getD [])
    | none => some []
  | cs =>
    (longOpening? cs).map fun (level, inside) => (afterLong? level inside).getD []

/-- The number of characters of the string or comment that begins the text. -/
def hiddenLength (t : Text) : Nat :=
  match afterHidden? t with
  | some rest => t.length - rest.length
  | none => 0

/-! ### Marks -/

/-- The marks of a text of which the first `hidden` characters are known to be hidden. -/
def marks : Nat → Text → List Bool
  | _, [] => []
  | hidden + 1, _ :: cs => false :: marks hidden cs
  | 0, c :: cs =>
    match hiddenLength (c :: cs) with
    | 0 => true :: marks 0 cs
    | hidden + 1 => false :: marks hidden cs

/-- For each character whether it stands outside strings and comments. -/
def significance (code : Text) : List Bool := marks 0 code

theorem length_marks (hidden : Nat) (t : Text) : (marks hidden t).length = t.length := by
  induction t generalizing hidden with
  | nil => cases hidden <;> rfl
  | cons c cs ih =>
    cases hidden with
    | succ n => simp [marks, ih]
    | zero => unfold marks; split <;> simp [ih]

@[simp] theorem length_significance (code : Text) :
    (significance code).length = code.length := length_marks 0 code

def marked (code : Text) : List (Char × Bool) := code.zip (significance code)

/-! ### The end of the code -/

/-- The code up to its last significant character that is not an ASCII blank. -/
def significantPrefix (code : Text) : Text :=
  let trailing := fun (c, significant) => !significant || isAsciiBlank c
  ((marked code).reverse.dropWhile trailing).reverse.map Prod.fst

/-! ### Matching parentheses -/

/-- The index of the first significant `)` that brings the depth back to zero. A depth below zero,
where the text begins inside a string, never does so again by closing. -/
def closingIndex? : Int → List (Char × Bool) → Option Nat
  | _, [] => none
  | depth, (c, significant) :: rest =>
    if significant && c == '(' then (closingIndex? (depth + 1) rest).map (· + 1)
    else if significant && c == ')' then
      if depth = 1 then some 0 else (closingIndex? (depth - 1) rest).map (· + 1)
    else (closingIndex? depth rest).map (· + 1)

/-- The index of the parenthesis that closes the one at index `opening`. -/
def closingParen? (code : Text) (opening : Nat) : Option Nat :=
  if code[opening]? = some '(' then
    (closingIndex? 0 ((marked code).drop opening)).map (opening + ·)
  else none

/-- `closingParen?` with offsets in UTF-8 bytes. -/
def closingParenByte? (code : Text) (opening : Nat) : Option Nat := do
  let closing ← closingParen? code (← code.indexOfByte? opening)
  return Text.utf8Size (code.take closing)

end Stencil.Lua
