import Stencil.Lua.Library.Call

/-! The functions on strings. Upper and lower case are those of the ASCII letters. -/
namespace Stencil.Lua

namespace StringFunction

def named : List (Text × StringFunction) :=
  [("byte", byte), ("char", char), ("len", len), ("lower", lower), ("rep", repeated),
    ("reverse", reverse), ("sub", sub), ("upper", upper)].map fun (n, f) => (n.toList, f)

end StringFunction

variable {σ : Type}

def lowerByte (b : UInt8) : UInt8 := if 65 ≤ b ∧ b ≤ 90 then b + 32 else b

def upperByte (b : UInt8) : UInt8 := if 97 ≤ b ∧ b ≤ 122 then b - 32 else b

/-- Copies of a string with a separator between them. -/
def repeatBytes (s separator : Bytes) : Nat → Bytes
  | 0 => []
  | n + 1 => s ++ (List.replicate n (separator ++ s)).flatten

/-- The byte that an argument is the code of. -/
def charByte (c : Call) (i : Nat) : Eval σ UInt8 := do
  let n ← c.integer i
  if n < 0 ∨ 255 < n then c.refuse i "value out of range"
  return UInt8.ofNat n.toNat

def callString (f : StringFunction) (c : Call) : Eval σ (List Value) := do
  match f with
  | .byte =>
    let s ← c.bytes 0
    let start ← c.optional 1 1 c.integer
    let stop ← c.optional 2 start c.integer
    return (slice s start stop).map fun b => .int b.toNat
  | .char => return [.string (← (List.range c.arguments.length).mapM (charByte c))]
  | .len => return [.int (← c.bytes 0).length]
  | .lower => return [.string ((← c.bytes 0).map lowerByte)]
  | .upper => return [.string ((← c.bytes 0).map upperByte)]
  | .reverse => return [.string (← c.bytes 0).reverse]
  | .repeated =>
    let s ← c.bytes 0
    let n ← c.integer 1
    let separator ← c.optional 2 [] c.bytes
    if 0x80000000 ≤ n * (s.length + separator.length) then
      Eval.complain "resulting string too large"
    return [.string (repeatBytes s separator n.toNat)]
  | .sub =>
    let s ← c.bytes 0
    let start ← c.integer 1
    let stop ← c.optional 2 (-1) c.integer
    return [.string (slice s start stop)]

end Stencil.Lua
