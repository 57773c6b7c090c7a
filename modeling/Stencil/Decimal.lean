import Stencil.Text.WordChar

/-! Decimal digits of binary64 numbers.

A finite number is `mantissa · 2^exponent`. `shortest` gives the decimal number with the fewest
digits among those that are read back as the same binary64 number, and of these the nearest;
`rounded` gives the nearest decimal number with a given count of digits. Both compute in exact
integer arithmetic on the number's fraction. -/
namespace Stencil

/-- The decimal number `digits · 10^exponent`. -/
structure Decimal where
  digits : Nat
  exponent : Int
deriving Repr, DecidableEq

/-- A positive binary64 number. -/
structure Binary where
  mantissa : Nat
  exponent : Int
  /-- The next smaller number is only half as far away as the next larger one. -/
  closerBelow : Bool
deriving Repr, DecidableEq

/-- What the bits of a binary64 number say. -/
inductive Binary64
  | nan
  | infinite (negative : Bool)
  | zero (negative : Bool)
  | finite (negative : Bool) (magnitude : Binary)
deriving Repr, DecidableEq

def Binary64.ofBits (bits : Nat) : Binary64 :=
  let negative := bits / 0x8000000000000000 % 2 == 1
  let exponent : Nat := bits / 0x10000000000000 % 0x800
  let fraction : Nat := bits % 0x10000000000000
  if exponent = 2047 then if fraction = 0 then .infinite negative else .nan
  else if exponent = 0 then
    if fraction = 0 then .zero negative else .finite negative ⟨fraction, -1074, false⟩
  else
    .finite negative
      ⟨0x10000000000000 + fraction, (exponent : Int) - 1075, fraction == 0 && 1 < exponent⟩

def Binary64.ofFloat (x : Float) : Binary64 := .ofBits x.toBits.toNat

namespace Binary

def numerator (b : Binary) : Nat := b.mantissa * Nat.pow 2 b.exponent.toNat

def denominator (b : Binary) : Nat := Nat.pow 2 (-b.exponent).toNat

/-- The exponent of the power of ten at or below the number. -/
def magnitude (b : Binary) : Int :=
  let length := fun n => (Text.ofNat n).length
  if b.denominator ≤ b.numerator then length (b.numerator / b.denominator) - 1
  else
    let places := length (b.denominator / b.numerator)
    if b.denominator ≤ b.numerator * Nat.pow 10 (places - 1) then 1 - places else -places

/-- The number in units of `10^place`, as a fraction. -/
def inUnits (b : Binary) (place : Int) : Nat × Nat :=
  (b.numerator * Nat.pow 10 (-place).toNat, b.denominator * Nat.pow 10 place.toNat)

/-- Whether `units · 10^place` is read back as this number: it lies no farther than half way to
either neighbour, and at the half way only if the mantissa is even. -/
def covers (b : Binary) (place : Int) (units : Nat) : Bool :=
  let gap := Nat.pow 2 b.exponent.toNat * Nat.pow 10 (-place).toNat
  let (num, den) := b.inUnits place
  let at_ := 4 * (units * den)
  let low := 4 * num - (if b.closerBelow then gap else 2 * gap)
  let high := 4 * num + 2 * gap
  if b.mantissa % 2 = 0 then low ≤ at_ && at_ ≤ high else low < at_ && at_ < high

/-- A number with this many digits that is read back as `b`, the nearest one if there are two. -/
def withDigits? (b : Binary) (count : Nat) : Option Decimal :=
  let place := b.magnitude - count + 1
  let (num, den) := b.inUnits place
  let below := num / den
  let above := below + 1
  let nearerAbove := den < 2 * (num % den)
  match b.covers place below, b.covers place above with
  | true, true => some ⟨if nearerAbove then above else below, place⟩
  | true, false => some ⟨below, place⟩
  | false, true => some ⟨above, place⟩
  | false, false => none

/-- Seventeen digits are always enough. -/
def shortest (b : Binary) : Decimal :=
  (((List.range 16).map (· + 1)).findSome? b.withDigits?).getD
    ((b.withDigits? 17).getD ⟨0, 0⟩)

/-- The nearest number with this many digits; a tie goes to the even one. -/
def rounded (b : Binary) (count : Nat) : Decimal :=
  let place := b.magnitude - count + 1
  let (num, den) := b.inUnits place
  let below := num / den
  let twice := 2 * (num % den)
  ⟨if den < twice || (twice == den && below % 2 == 1) then below + 1 else below, place⟩

end Binary

namespace Decimal

/-- The digits without the zeros at the end, and the exponent of the number when a point is put
after the first digit. -/
def scientific (d : Decimal) : Text × Int :=
  let digits := Text.ofNat d.digits
  (digits.dropEndWhile (· == '0'), d.exponent + digits.length - 1)

/-- The digits with the point where it belongs, and none after the last digit. -/
def positional (digits : Text) (exponent : Int) : Text :=
  if exponent < 0 then "0." ++ Text.repeated '0' (-exponent - 1).toNat ++ digits
  else
    let whole := exponent.toNat + 1
    if digits.length ≤ whole then digits ++ Text.repeated '0' (whole - digits.length)
    else digits.take whole ++ "." ++ digits.drop whole

/-- The digits with a point after the first one, and none if it is the last. -/
def pointed (digits : Text) : Text :=
  match digits with
  | c :: (d :: ds) => c :: '.' :: d :: ds
  | ds => ds

/-- The shortest text of a float, without an exponent. -/
def plainText (x : Float) : Text :=
  let signed := fun (negative : Bool) (t : Text) => if negative then '-' :: t else t
  match Binary64.ofFloat x with
  | .nan => "NaN"
  | .infinite negative => signed negative "inf"
  | .zero negative => signed negative "0"
  | .finite negative b =>
    let (digits, exponent) := b.shortest.scientific
    signed negative (positional digits exponent)

/-! ### Reading -/

/-- The exponent at the end of a numeral, behind its letter; an empty text stands for none. -/
def exponent? (letter : Char) (t : Text) : Option Int :=
  let value := fun digits => if digits ≠ [] ∧ digits.all isAsciiDigit
    then some (Text.digitsValue digits : Int) else none
  match t with
  | [] => some 0
  | c :: rest =>
    if c.toLower ≠ letter then none
    else
      match rest with
      | '+' :: digits => value digits
      | '-' :: digits => (value digits).map (- ·)
      | digits => value digits

/-- The digits before and after the point, and what follows them. -/
def splitDigits (isDigit : Char → Bool) (t : Text) : Text × Text × Text :=
  let whole := t.takeWhile isDigit
  match t.dropWhile isDigit with
  | '.' :: rest => (whole, rest.takeWhile isDigit, rest.dropWhile isDigit)
  | rest => (whole, [], rest)

/-- `digits · 10^exponent`, rounded to the nearest float. -/
def toFloat (digits : Nat) (exponent : Int) : Float :=
  let size : Int := (Text.ofNat digits).length
  if digits = 0 ∨ exponent + size < -400 then 0
  else if 400 < exponent + size then Float.ofBits 0x7FF0000000000000
  else Float.ofScientific digits (exponent < 0) exponent.natAbs

/-- The float that a decimal numeral without a sign stands for. -/
def readFloat? (t : Text) : Option Float := do
  let (whole, fraction, rest) := splitDigits isAsciiDigit t
  let exponent ← exponent? 'e' rest
  if whole = [] ∧ fraction = [] then none
  else some (toFloat (Text.digitsValue (whole ++ fraction)) (exponent - fraction.length))

end Decimal
end Stencil
