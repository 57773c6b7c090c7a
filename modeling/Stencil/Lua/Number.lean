import Stencil.Decimal
import Stencil.Text.Blank
import Stencil.Text.WordChar

/-! Numbers of the script language.

A number is a 64-bit integer, whose arithmetic wraps, or a binary64 float, known by its bits.
Integers and floats compare by their exact values. The text of a float has at most 14 digits, and
ends in `.0` when nothing else in it tells the float from an integer. -/
namespace Stencil.Lua

inductive Number
  | int (value : Int64)
  | float (bits : UInt64)
deriving Repr, DecidableEq

namespace Number

/-! ### Floats by their bits -/

def signBit : UInt64 := 0x8000000000000000

/-- What an invalid operation on numbers results in. -/
def invalid : UInt64 := 0xFFF8000000000000

def isNaN (bits : UInt64) : Bool := Binary64.ofBits bits.toNat == .nan

def bitsOf (x : Float) : UInt64 := if x.isNaN then invalid else x.toBits

/-- A NaN operand is the result; the first one if both are. -/
def lift (f : Float → Float → Float) (a b : UInt64) : UInt64 :=
  if isNaN a then a else if isNaN b then b
  else bitsOf (f (Float.ofBits a) (Float.ofBits b))

def toBits : Number → UInt64
  | int n => bitsOf n.toFloat
  | float bits => bits

def ofInt (n : Int) : Number := int (Int64.ofInt n)

/-! ### Exact values -/

/-- The numbers that `floor` and comparison work on: `numerator · 2^exponent`. -/
structure Dyadic where
  numerator : Int
  exponent : Int

inductive Extended
  | nan
  | infinite (negative : Bool)
  | finite (value : Dyadic)

def extended : Number → Extended
  | int n => .finite ⟨n.toInt, 0⟩
  | float bits =>
    match Binary64.ofBits bits.toNat with
    | .nan => .nan
    | .infinite negative => .infinite negative
    | .zero _ => .finite ⟨0, 0⟩
    | .finite negative b => .finite ⟨if negative then -b.mantissa else b.mantissa, b.exponent⟩

/-- The numerators of two numbers at their smaller exponent, and that exponent. -/
def Dyadic.align (a b : Dyadic) : Int × Int × Int :=
  let e := min a.exponent b.exponent
  (a.numerator * Int.pow 2 (a.exponent - e).toNat, b.numerator * Int.pow 2 (b.exponent - e).toNat,
    e)

def Dyadic.floor (a : Dyadic) : Int :=
  if 0 ≤ a.exponent then a.numerator * Int.pow 2 a.exponent.toNat
  else Int.fdiv a.numerator (Int.pow 2 (-a.exponent).toNat)

def Dyadic.isInteger (a : Dyadic) : Bool :=
  0 ≤ a.exponent || Int.fmod a.numerator (Int.pow 2 (-a.exponent).toNat) == 0

/-- How two numbers compare; a NaN compares with nothing. -/
def order (a b : Number) : Option Ordering :=
  match a.extended, b.extended with
  | .nan, _ | _, .nan => none
  | .infinite x, .infinite y => some (if x = y then .eq else if x then .lt else .gt)
  | .infinite x, .finite _ => some (if x then .lt else .gt)
  | .finite _, .infinite y => some (if y then .gt else .lt)
  | .finite x, .finite y =>
    let (m, n, _) := x.align y
    some (compare m n)

def equal (a b : Number) : Bool := a.order b == some .eq

def less (a b : Number) : Bool := a.order b == some .lt

def lessEqual (a b : Number) : Bool := a.less b || a.equal b

def inRange (n : Int) : Bool := -0x8000000000000000 ≤ n && n < 0x8000000000000000

/-- The integer with the value of a number, if there is one. -/
def integer? : Number → Option Int64
  | int n => some n
  | float bits =>
    match extended (float bits) with
    | .finite x => if x.isInteger && inRange x.floor then some (Int64.ofInt x.floor) else none
    | _ => none

/-- The greatest integer that is not above the number, as an integer if one can hold it. -/
def floor (a : Number) : Number :=
  match a with
  | int _ => a
  | float bits =>
    match a.extended with
    | .finite x => if inRange x.floor then ofInt x.floor
        else float (bitsOf (Float.ofBits bits).floor)
    | _ => a

/-! ### Arithmetic -/

inductive Operation
  | add | sub | mul | div | mod | idiv | pow
  | band | bor | bxor | shl | shr
deriving Repr, DecidableEq

inductive Failure
  | divisionByZero
  | moduloByZero
  | noInteger
deriving Repr, DecidableEq

def Failure.message : Failure → Text
  | divisionByZero => "attempt to perform 'n//0'"
  | moduloByZero => "attempt to perform 'n%%0'"
  | noInteger => "number has no integer representation"

/-- The remainder with the sign of the divisor. -/
def floatMod (a b : UInt64) : UInt64 :=
  let fix := fun (m : UInt64) =>
    let x := Float.ofBits m
    let y := Float.ofBits b
    if (0 < x && y < 0) || (x < 0 && 0 < y) then lift (· + ·) m b else m
  match extended (float a), extended (float b) with
  | .nan, _ => a
  | _, .nan => b
  | .infinite _, _ => invalid
  | .finite _, .infinite _ => fix a
  | .finite x, .finite y =>
    if y.numerator = 0 then invalid
    else
      let (m, n, e) := x.align y
      let r := Int.tmod m n
      if r = 0 then a &&& signBit else fix (bitsOf ((Float.ofInt r).scaleB e))

/-- A shift to the left, or to the right when the amount is negative; zeros come in. -/
def shift (n : Int64) (amount : Int) : Int64 :=
  let bits := n.toUInt64.toNat
  if amount ≤ -64 ∨ 64 ≤ amount then 0
  else if 0 ≤ amount then (UInt64.ofNat (bits * Nat.pow 2 amount.toNat)).toInt64
  else (UInt64.ofNat (bits / Nat.pow 2 (-amount).toNat)).toInt64

def onIntegers (op : Operation) (m n : Int64) : Except Failure Number :=
  match op with
  | .add => .ok (int (m + n))
  | .sub => .ok (int (m - n))
  | .mul => .ok (int (m * n))
  | .mod => if n = 0 then .error .moduloByZero else .ok (ofInt (Int.fmod m.toInt n.toInt))
  | .idiv => if n = 0 then .error .divisionByZero else .ok (ofInt (Int.fdiv m.toInt n.toInt))
  | .div => .ok (float (bitsOf (m.toFloat / n.toFloat)))
  | .pow => .ok (float (bitsOf (Float.pow m.toFloat n.toFloat)))
  | .band => .ok (int (m &&& n))
  | .bor => .ok (int (m ||| n))
  | .bxor => .ok (int (m ^^^ n))
  | .shl => .ok (int (shift m n.toInt))
  | .shr => .ok (int (shift m (-n.toInt)))

def onFloats (op : Operation) (a b : UInt64) : Number :=
  match op with
  | .add => float (lift (· + ·) a b)
  | .sub => float (lift (· - ·) a b)
  | .mul => float (lift (· * ·) a b)
  | .mod => float (floatMod a b)
  | .idiv => float (lift (fun x y => (x / y).floor) a b)
  | .pow => float (lift Float.pow a b)
  | _ => float (lift (· / ·) a b)

def Operation.isBitwise : Operation → Bool
  | .band | .bor | .bxor | .shl | .shr => true
  | _ => false

/-- Bitwise operations are on integers; the others are on integers when both operands are. -/
def arith (op : Operation) (a b : Number) : Except Failure Number :=
  if op.isBitwise then
    match a.integer?, b.integer? with
    | some m, some n => onIntegers op m n
    | _, _ => .error .noInteger
  else
    match a, b with
    | int m, int n => onIntegers op m n
    | _, _ => .ok (onFloats op a.toBits b.toBits)

def negate : Number → Number
  | int n => int (-n)
  | float bits => float (bits ^^^ signBit)

def complement (a : Number) : Except Failure Number :=
  match a.integer? with
  | some n => .ok (int (~~~n))
  | none => .error .noInteger

/-! ### Writing -/

def digitCount : Nat := 14

def integerText (n : Int) : Text :=
  if n < 0 then '-' :: Text.ofNat n.natAbs else Text.ofNat n.natAbs

def exponentText (e : Int) : Text :=
  let digits := Text.ofNat e.natAbs
  (if e < 0 then "-" else "+") ++ Text.repeated '0' (2 - digits.length) ++ digits

def magnitudeText (b : Binary) : Text :=
  let (digits, exponent) := (b.rounded digitCount).scientific
  if -4 ≤ exponent && exponent < digitCount then
    let text := Decimal.positional digits exponent
    if '.' ∈ text then text else text ++ ".0"
  else Decimal.pointed digits ++ "e" ++ exponentText exponent

def text : Number → Text
  | int n => integerText n.toInt
  | float bits =>
    let signed := fun (negative : Bool) (t : Text) => if negative then '-' :: t else t
    match Binary64.ofBits bits.toNat with
    | .nan => signed (bits &&& signBit != 0) "nan"
    | .infinite negative => signed negative "inf"
    | .zero negative => signed negative "0.0"
    | .finite negative b => signed negative (magnitudeText b)

/-! ### Reading -/

def hexValue? (c : Char) : Option Nat :=
  if isAsciiDigit c then some (c.toNat - '0'.toNat)
  else if 'a' ≤ c ∧ c ≤ 'f' then some (c.toNat - 'a'.toNat + 10)
  else if 'A' ≤ c ∧ c ≤ 'F' then some (c.toNat - 'A'.toNat + 10)
  else none

def isHexDigit (c : Char) : Bool := (hexValue? c).isSome

def hexDigitsValue (digits : Text) : Nat :=
  digits.foldl (fun n c => n * 16 + (hexValue? c).getD 0) 0

def readHex? (t : Text) : Option Number := do
  let (whole, fraction, rest) := Decimal.splitDigits isHexDigit t
  if whole = [] ∧ fraction = [] then none
  else if rest = [] ∧ whole.length = t.length then some (ofInt (hexDigitsValue whole))
  else
    let exponent ← Decimal.exponent? 'p' rest
    let digits := hexDigitsValue (whole ++ fraction)
    some (float (bitsOf ((Float.ofNat digits).scaleB (exponent - 4 * fraction.length))))

/-- The number that a numeral without a sign stands for. Decimal digits alone are an integer
unless they are too many. -/
def readUnsigned? (t : Text) : Option Number :=
  match t with
  | '0' :: 'x' :: rest | '0' :: 'X' :: rest => readHex? rest
  | _ =>
    if t ≠ [] ∧ t.all isAsciiDigit ∧ inRange (Text.digitsValue t) then
      some (ofInt (Text.digitsValue t))
    else (Decimal.readFloat? t).map fun x => float (bitsOf x)

/-- The number that a text stands for, with blanks around it and a sign before it. -/
def read? (t : Text) : Option Number :=
  let isSpace := fun c => isAsciiBlank c || c == '\x0B'
  let body := Text.dropEndWhile isSpace (t.dropWhile isSpace)
  match body with
  | '-' :: rest =>
    if rest ≠ [] ∧ rest.all isAsciiDigit ∧ Text.digitsValue rest = 0x8000000000000000 then
      some (ofInt (-0x8000000000000000))
    else (readUnsigned? rest).map negate
  | '+' :: rest => readUnsigned? rest
  | rest => readUnsigned? rest

end Number
end Stencil.Lua
