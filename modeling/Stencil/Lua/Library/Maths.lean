import Stencil.Lua.Library.Call

/-! The functions on numbers. -/
namespace Stencil.Lua

namespace MathFunction

def named : List (Text × MathFunction) :=
  [("abs", abs), ("ceil", ceil), ("floor", floor), ("fmod", fmod), ("max", max), ("min", min),
    ("sqrt", sqrt), ("tointeger", toInteger), ("type", type)].map fun (n, f) => (n.toList, f)

end MathFunction

def mathConstants : List (Text × Number) :=
  [("huge", .float 0x7FF0000000000000), ("pi", .float 0x400921FB54442D18),
    ("maxinteger", .ofInt 0x7FFFFFFFFFFFFFFF),
    ("mininteger", .ofInt (-0x8000000000000000))].map fun (n, v) => (n.toList, v)

variable {σ : Type}

/-- The number of the arguments that no other one is better than; the first of several. -/
def bestNumber (better : Number → Number → Bool) (c : Call) : Eval σ Value := do
  let first ← c.number 0
  let rest ← (List.range (c.arguments.length - 1)).mapM fun i => c.number (i + 1)
  return .number (rest.foldl (fun best n => if better n best then n else best) first)

/-- The remainder with the sign of the dividend. -/
def truncatedMod (c : Call) : Eval σ Value := do
  match ← c.number 0, ← c.number 1 with
  | .int m, .int n =>
    if n = 0 then c.refuse 1 "zero"
    return .int (Int.tmod m.toInt n.toInt)
  | a, b =>
    let sign := fun (x : UInt64) => x &&& Number.signBit
    let magnitude := fun (x : UInt64) => x &&& ~~~Number.signBit
    let r := Number.floatMod (magnitude a.toBits) (magnitude b.toBits)
    return .number (.float (if Number.isNaN r then r else r ||| sign a.toBits))

def callMath (f : MathFunction) (c : Call) : Eval σ (List Value) := do
  match f with
  | .abs =>
    match ← c.number 0 with
    | .int n => return [.number (.int (if n < 0 then -n else n))]
    | .float bits => return [.number (.float (bits &&& ~~~Number.signBit))]
  | .floor => return [.number (← c.number 0).floor]
  | .ceil => return [.number ((← c.number 0).negate.floor.negate)]
  | .fmod => return [← truncatedMod c]
  | .max => return [← bestNumber (fun a b => b.less a) c]
  | .min => return [← bestNumber Number.less c]
  | .sqrt =>
    let bits := (← c.number 0).toBits
    return [.number (.float (if Number.isNaN bits then bits
      else Number.bitsOf (Float.ofBits bits).sqrt))]
  | .toInteger =>
    match (← c.any 0).number? with
    | some n => return [(n.integer?.map fun k => .number (.int k)).getD .nil]
    | none => return [.nil]
  | .type =>
    match ← c.any 0 with
    | .number (.int _) => return [.ofText "integer"]
    | .number (.float _) => return [.ofText "float"]
    | _ => return [.nil]

end Stencil.Lua
