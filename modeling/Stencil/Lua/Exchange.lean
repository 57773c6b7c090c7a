import Stencil.Lua.Machine

/-! JSON values in scripts, and values of scripts as JSON.

An array becomes a table that knows that it is a list, and an object a table with its names as
keys; null is nil, which leaves no trace in an object. The other way a table is an array if it has
items or is known for a list. Functions have no JSON value, nor has a table that contains itself,
nor a string that is not UTF-8. -/
namespace Stencil.Lua

variable {σ : Type}

/-! ### From JSON -/

def numberOfInt (n : Int) : Number :=
  if Number.inRange n then .ofInt n else .float (Number.bitsOf (Float.ofInt n))

mutual

def ofJson : Json → Eval σ Value
  | .null => return .nil
  | .bool b => return .bool b
  | .int n => return .number (numberOfInt n)
  | .float x => return .number (.float (Number.bitsOf x))
  | .string s => return .ofText s
  | .array items => do
    let values ← ofItems items
    return .table (← Eval.newTable (Object.setItems { isList := true } values))
  | .members entries => do
    return .table (← Eval.newTable { fields := ← ofMembers entries })

def ofItems : List Json → Eval σ (List Value)
  | [] => return []
  | j :: js => do
    let v ← ofJson j
    return v :: (← ofItems js)

def ofMembers : List (Text × Json) → Eval σ (List (Value × Value))
  | [] => return []
  | (name, j) :: rest => do
    let v ← ofJson j
    let others ← ofMembers rest
    return if v.isNil then others else (.ofText name, v) :: others

end

/-! ### To JSON -/

/-- Why a value has no JSON value. -/
inductive Mismatch
  | function
  | failure
  | recursiveTable
  /-- Something was found where something else is expected. -/
  | unexpected (found expected : Text)
deriving Repr, DecidableEq

def Mismatch.message : Mismatch → Text
  | function => "deserialize error: unsupported value type `function`"
  | failure => "deserialize error: unsupported value type `error`"
  | recursiveTable => "deserialize error: recursive table detected"
  | unexpected found expected =>
    "deserialize error: invalid type: " ++ found ++ ", expected " ++ expected

/-- What a value that is no string is told to be. -/
def found : Value → Text
  | .nil => "unit value"
  | .bool b => "boolean `" ++ (if b then "true" else "false") ++ "`"
  | .number (.int n) => "integer `" ++ (Number.int n).text ++ "`"
  | .number (.float bits) => "floating point `" ++ (Number.float bits).text ++ "`"
  | .string _ => "byte array"
  | v => v.typeName

/-- The name that a key stands for. -/
def keyName (expected : Text) : Value → Except Mismatch Text
  | .string s =>
    match s.text? with
    | some t => .ok t
    | none => .error (.unexpected "byte array" expected)
  | .closure _ | .native _ => .error .function
  | .failure _ => .error .failure
  | v => .error (.unexpected (found v) expected)

def Object.isArray (o : Object) : Bool := o.isList || !o.items.isEmpty

/-- The JSON value of a value, with the tables around it; these bound how deep it can go. -/
def jsonOf (m : Machine) : Nat → List Nat → Value → Except Mismatch Json
  | _, _, .nil => .ok .null
  | _, _, .bool b => .ok (.bool b)
  | _, _, .number (.int n) => .ok (.int n.toInt)
  | _, _, .number (.float bits) =>
    match Binary64.ofBits bits.toNat with
    | .nan | .infinite _ => .ok .null
    | _ => .ok (.float (Float.ofBits bits))
  | _, _, .string s =>
    match s.text? with
    | some t => .ok (.string t)
    | none => .error (.unexpected "byte array" "any valid JSON value")
  | _, _, .closure _ | _, _, .native _ => .error .function
  | _, _, .failure _ => .error .failure
  | 0, _, .table _ => .error .recursiveTable
  | depth + 1, around, .table id => do
    if around.contains id then throw .recursiveTable
    let o := (m.objects[id]?).getD {}
    if o.isArray then
      return .array (← o.items.toList.mapM (jsonOf m depth (id :: around)))
    else
      let members ← o.entries.mapM fun (k, v) => do
        let name ← keyName "a string key" k
        return (name, ← jsonOf m depth (id :: around) v)
      return .object members

def Machine.json (m : Machine) (v : Value) : Except Mismatch Json :=
  jsonOf m (m.objects.size + 1) [] v

/-- The variables that a table stands for. -/
def Machine.scope (m : Machine) : Value → Except Mismatch Scope
  | .table id => do
    let o := (m.objects[id]?).getD {}
    let members ← o.entries.mapM fun (k, v) => do
      let name ← keyName "a string" k
      return (name, ← jsonOf m (m.objects.size + 1) [id] v)
    return .ofList members
  | v => .error (.unexpected v.kindName "table")

end Stencil.Lua
