import Stencil.Lua.Library.Call

/-! The functions of the core library: errors, types, metatables and traversal. -/
namespace Stencil.Lua

namespace CoreFunction

def named : List (Text × CoreFunction) :=
  [("assert", assert), ("error", error), ("getmetatable", getMetatable), ("ipairs", ipairs),
    ("next", next), ("pairs", pairs), ("pcall", pcall), ("rawequal", rawEqual), ("rawget", rawGet),
    ("rawlen", rawLen), ("rawset", rawSet), ("select", select), ("setmetatable", setMetatable),
    ("tonumber", toNumber), ("tostring", toString), ("type", type)].map fun (n, f) => (n.toList, f)

end CoreFunction

variable {σ : Type} (invoke : Invoke σ)

/-- Raises a value; a string gets the position of the call that is so many calls out. -/
def raiseError (v : Value) (level : Int) : Eval σ (List Value) := do
  match v with
  | .string s =>
    if 0 < level then throw (.string (((← get).positionAt level.toNat).bytes ++ s)) else throw v
  | _ => throw v

/-- Calls a function; what it raises is a result. -/
def protectedCall (f : Value) (arguments : List Value) : Eval σ (List Value) := do
  let frames := (← get).frames
  tryCatch (do return .bool true :: (← invoke f arguments none)) fun e => do
    modify fun m => { m with frames }
    return [.bool false, e]

/-- The digits of a number in a base up to 36. -/
def digitIn? (base : Nat) (c : Char) : Option Nat :=
  let value :=
    if isAsciiDigit c then some (c.toNat - '0'.toNat)
    else if isAsciiLetter c then some (c.toLower.toNat - 'a'.toNat + 10)
    else none
  value.filter (· < base)

/-- The integer that a text spells in a base. -/
def integerIn? (base : Nat) (t : Text) : Option Value :=
  let t := t.trim
  let (negative, digits) := match t with
    | '-' :: rest => (true, rest)
    | _ => (false, t)
  match digits.mapM (digitIn? base) with
  | some (d :: ds) =>
    let n := ds.foldl (fun n d => n * base + d) d
    some (.int (if negative then -(n : Int) else n))
  | _ => none

def Call.protectedMetatable (v : Value) : Eval σ (Option Value) := do
  match v with
  | .table id =>
    if (← Eval.object id).isList then return some (.bool false)
    let guard ← metafield v "__metatable"
    return if guard.isNil then none else some guard
  | _ => return none

def selectArguments (c : Call) : Eval σ (List Value) := do
  let rest := c.arguments.drop 1
  if c.value 0 = .ofText "#" then return [.int rest.length]
  let n ← c.integer 0
  if 0 < n then return rest.drop (n.toNat - 1)
  else if 0 < n + rest.length ∧ n < 0 then return rest.drop (n + rest.length).toNat
  else if n + rest.length = 0 ∧ n < 0 then return rest
  else c.refuse 0 "index out of range"

def callCore (f : CoreFunction) (c : Call) : Eval σ (List Value) := do
  match f with
  | .assert =>
    if (← c.any 0).isTrue then return c.arguments
    else raiseError ((c.given? 1).getD (.ofText "assertion failed!")) 1
  | .error => raiseError (c.value 0) (← c.optional 1 1 c.integer)
  | .type => return [.ofText (← c.any 0).typeName]
  | .toString => return [.string (← display invoke (← c.any 0))]
  | .toNumber =>
    if (c.value 1).isNil then return [(((← c.any 0).number?).map .number).getD .nil]
    let base ← c.integer 1
    match c.value 0 with
    | .string s =>
      if base < 2 ∨ 36 < base then c.refuse 1 "base out of range"
      return [((s.text?.bind (integerIn? base.toNat))).getD .nil]
    | _ => c.expected 0 "string"
  | .ipairs => return [.native (.core .ipairsStep), ← c.any 0, .int 0]
  | .ipairsStep =>
    let i := (← c.integer 1) + 1
    let v ← index invoke ⟨c.value 0, none⟩ (.int i)
    return if v.isNil then [.nil] else [.int i, v]
  | .next =>
    let id ← c.table 0
    match (← Eval.object id).entryBehind? (c.value 1) with
    | some (some (k, v)) => return [k, v]
    | some none => return [.nil]
    | none => Eval.raise "invalid key to 'next'"
  | .pairs =>
    let v ← c.any 0
    match ← metafield v "__pairs" with
    | .nil => return [.native (.core .next), v, .nil]
    | h => return adjust 3 (← invoke h [v] none)
  | .pcall =>
    let f ← c.any 0
    protectedCall invoke f (c.arguments.drop 1)
  | .rawEqual => return [.bool ((← c.any 0).rawEqual (← c.any 1))]
  | .rawGet => return [(← Eval.object (← c.table 0)).get (← c.any 1)]
  | .rawSet =>
    rawSet (← c.table 0) (← c.any 1) (← c.any 2)
    return [c.value 0]
  | .rawLen =>
    match c.value 0 with
    | .table id => return [.int (← Eval.object id).length]
    | .string s => return [.int s.length]
    | _ => c.refuse 0 "table or string expected"
  | .select => selectArguments c
  | .getMetatable =>
    match c.any 0, c.value 0 with
    | _, .string _ => return [.table stringMetatable]
    | _, .table id =>
      match ← Call.protectedMetatable (.table id), (← Eval.object id).metatable with
      | some guard, _ => return [guard]
      | none, some m => return [.table m]
      | none, none => return [.nil]
    | checked, _ =>
      let _ ← checked
      return [.nil]
  | .setMetatable =>
    let id ← c.table 0
    let metatable ← match c.given? 1 with
      | some (.table m) => pure (some m)
      | some .nil => pure none
      | _ => c.expected 1 "nil or table"
    if (← Call.protectedMetatable (.table id)).isSome then
      Eval.complain "cannot change a protected metatable"
    Eval.changeObject id fun o => { o with metatable }
    return [.table id]

end Stencil.Lua
