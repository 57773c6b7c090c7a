import Stencil.Lua.Chunk

/-! Values of scripts.

A table and a function that a script defines are known by their numbers: two of them are the same
value only if they are the same one. `rawEqual` is the equality of the language, which takes an
integer and a float of one value for equal. -/
namespace Stencil.Lua

/-! ### Functions that scripts do not define themselves -/

inductive CoreFunction
  | assert | error | getMetatable | ipairs | ipairsStep | next | pairs | pcall
  | rawEqual | rawGet | rawLen | rawSet | select | setMetatable | toNumber | toString | type
deriving Repr, DecidableEq

inductive StringFunction
  | byte | char | len | lower | repeated | reverse | sub | upper
deriving Repr, DecidableEq

inductive TableFunction
  | concat | insert | pack | remove | unpack
deriving Repr, DecidableEq

inductive MathFunction
  | abs | ceil | floor | fmod | max | min | sqrt | toInteger | type
deriving Repr, DecidableEq

/-- What a template writes and reads its variables with. -/
inductive TemplateFunction
  | print | printIndented | includeFile | includeIndented | str | len | json | locals
deriving Repr, DecidableEq

inductive Native
  | core (function : CoreFunction)
  | string (function : StringFunction)
  | table (function : TableFunction)
  | math (function : MathFunction)
  | template (function : TemplateFunction)
  /-- A function of the host. -/
  | host (name : Text)
deriving Repr, DecidableEq

/-! ### Values -/

inductive Value
  | nil
  | bool (value : Bool)
  | number (value : Number)
  | string (value : Bytes)
  | table (id : Nat)
  /-- A function of the script with the variables that it has captured. -/
  | closure (id : Nat)
  | native (function : Native)
  /-- A failure of a function that the script did not define. -/
  | failure (id : Nat)
deriving Repr, DecidableEq

namespace Value

instance : Inhabited Value := ⟨nil⟩

def ofText (t : Text) : Value := string t.bytes

def int (n : Int) : Value := number (.ofInt n)

def isNil : Value → Bool
  | nil => true
  | _ => false

def isTrue : Value → Bool
  | nil | bool false => false
  | _ => true

def isFunction : Value → Bool
  | closure _ | native _ => true
  | _ => false

/-- The name of the type that scripts see. -/
def typeName : Value → Text
  | nil => "nil"
  | bool _ => "boolean"
  | number _ => "number"
  | string _ => "string"
  | table _ => "table"
  | closure _ | native _ => "function"
  | failure _ => "userdata"

/-- The name of the type that a template is told, which tells integers from floats. -/
def kindName : Value → Text
  | number (.int _) => "integer"
  | failure _ => "error"
  | v => v.typeName

def rawEqual : Value → Value → Bool
  | number a, number b => a.equal b
  | a, b => a = b

/-- The value as a key: a float that is an integer is that integer. -/
def normalKey : Value → Value
  | number a =>
    match a.integer? with
    | some n => number (.int n)
    | none => number a
  | v => v

/-- The number that a value is or, as a string, spells. -/
def number? : Value → Option Number
  | number a => some a
  | string s => s.text?.bind Number.read?
  | _ => none

/-- The bytes that a value is or, as a number, is written with. -/
def bytes? : Value → Option Bytes
  | string s => some s
  | number a => some a.text.bytes
  | _ => none

end Value

/-- The first of some values; where a value is missing it is nil. -/
def first (values : List Value) : Value := values.headD .nil

/-- As many values as there are places for, with nil where one is missing. -/
def adjust : Nat → List Value → List Value
  | 0, _ => []
  | n + 1, [] => .nil :: adjust n []
  | n + 1, v :: vs => v :: adjust n vs

end Stencil.Lua
