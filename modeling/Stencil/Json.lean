import Stencil.Decimal
import Stencil.Table

/-! JSON values and their texts.

Variables of a template are JSON values. `Json.text` is the compact text, `Json.pretty` the one
with a member a line; both write the members of an object in the order in which it holds them.
`Json.object` sorts the members by name, the later of two with one name counting. -/
namespace Stencil

inductive Json
  | null
  | bool (value : Bool)
  | int (value : Int)
  | float (value : Float)
  | string (value : Text)
  | array (items : List Json)
  | members (members : List (Text × Json))

namespace Json

instance : Inhabited Json := ⟨null⟩

def object (entries : List (Text × Json)) : Json := members (Table.ofList entries).entries

/-! ### Numbers -/

def intText (n : Int) : Text :=
  if n < 0 then '-' :: Text.ofNat n.natAbs else Text.ofNat n.natAbs

/-- Positional from `1e-5` up to `1e16`, with a digit after the point always; scientific outside.
JSON has no infinite number and no NaN. -/
def magnitudeText (b : Binary) : Text :=
  let (digits, exponent) := b.shortest.scientific
  if -5 ≤ exponent && exponent < 16 then
    let text := Decimal.positional digits exponent
    if '.' ∈ text then text else text ++ ".0"
  else Decimal.pointed digits ++ "e" ++ intText exponent

def floatText (x : Float) : Text :=
  let sign := fun negative => if negative then ['-'] else []
  match Binary64.ofFloat x with
  | .nan | .infinite _ => "null"
  | .zero negative => sign negative ++ "0.0"
  | .finite negative b => sign negative ++ magnitudeText b

/-! ### Strings -/

def hexDigit (n : Nat) : Char := Nat.digitChar n

def escapeChar (c : Char) : Text :=
  if c = '"' then ['\\', '"']
  else if c = '\\' then ['\\', '\\']
  else if c = '\n' then ['\\', 'n']
  else if c = '\r' then ['\\', 'r']
  else if c = '\t' then ['\\', 't']
  else if c = '\x08' then ['\\', 'b']
  else if c = '\x0C' then ['\\', 'f']
  else if c.toNat < 0x20 then
    ['\\', 'u', '0', '0', hexDigit (c.toNat / 16), hexDigit (c.toNat % 16)]
  else [c]

def stringText (s : Text) : Text := '"' :: (s.flatMap escapeChar ++ ['"'])

/-! ### Texts -/

mutual

/-- The text without any blanks. -/
def text : Json → Text
  | null => "null"
  | bool true => "true"
  | bool false => "false"
  | int n => intText n
  | float x => floatText x
  | string s => stringText s
  | array items => "[" ++ Text.join "," (itemTexts items) ++ "]"
  | members entries => "\x7b" ++ Text.join "," (memberTexts entries) ++ "\x7d"

def itemTexts : List Json → List Text
  | [] => []
  | item :: items => item.text :: itemTexts items

def memberTexts : List (Text × Json) → List Text
  | [] => []
  | (name, value) :: rest => (stringText name ++ ":" ++ value.text) :: memberTexts rest

end

/-- Pieces on lines of their own between brackets. -/
def bracketed (opening closing : Text) (depth : Nat) (pieces : List Text) : Text :=
  if pieces = [] then opening ++ closing
  else
    let indent := fun n => '\n' :: Text.spaces (2 * n)
    opening ++ indent (depth + 1) ++ Text.join ("," ++ indent (depth + 1)) pieces
      ++ indent depth ++ closing

mutual

/-- The text with a member a line, nested values indented by two. -/
def pretty (depth : Nat) : Json → Text
  | array items => bracketed "[" "]" depth (prettyItems (depth + 1) items)
  | members entries => bracketed "\x7b" "\x7d" depth (prettyMembers (depth + 1) entries)
  | value => value.text

def prettyItems (depth : Nat) : List Json → List Text
  | [] => []
  | item :: items => item.pretty depth :: prettyItems depth items

def prettyMembers (depth : Nat) : List (Text × Json) → List Text
  | [] => []
  | (name, value) :: rest =>
    (stringText name ++ ": " ++ value.pretty depth) :: prettyMembers depth rest

end
end Json
end Stencil
