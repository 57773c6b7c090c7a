import Stencil.Lua.Value

/-! Tables of scripts.

The values under the keys 1, 2, … stand in an array that ends in no nil, so its size is the length
of the table; all other keys are in a list, in the order in which they were first used. -/
namespace Stencil.Lua

structure Object where
  items : Array Value := #[]
  /-- A key that was taken out keeps its place, with nil. -/
  fields : List (Value × Value) := []
  metatable : Option Nat := none
  /-- Whether the table stands for a list even when it is empty. -/
  isList : Bool := false
deriving Repr, DecidableEq, Inhabited

namespace Object

def length (o : Object) : Nat := o.items.size

/-! ### Reading -/

/-- The place of a key among the items, or the place behind them. -/
def place? (o : Object) : Value → Option Nat
  | .number (.int n) =>
    if 1 ≤ n.toInt ∧ n.toInt ≤ o.items.size + 1 then some (n.toInt.toNat - 1) else none
  | _ => none

def field (fields : List (Value × Value)) (key : Value) : Value :=
  ((fields.find? (·.1 = key)).map Prod.snd).getD .nil

def get (o : Object) (key : Value) : Value :=
  let key := key.normalKey
  match (o.place? key).bind (o.items[·]?) with
  | some v => v
  | none => field o.fields key

def getText (o : Object) (key : Text) : Value := o.get (.ofText key)

/-- The first name under which the table has a function. -/
def nameOf? (o : Object) (f : Value) : Option Text :=
  o.fields.findSome? fun
    | (.string key, v) => if f.isFunction ∧ v = f then some key.shown else none
    | _ => none

/-- The keys in order, those that were taken out as well. -/
def allEntries (o : Object) : List (Value × Value) :=
  (o.items.toList.zipIdx.map fun (v, i) => (Value.int (i + 1), v)) ++ o.fields

def entries (o : Object) : List (Value × Value) := o.allEntries.filter fun e => !e.2.isNil

/-- The entry behind a key, and the first one for nil; none at all if the table has no such key. -/
def entryBehind? (o : Object) (key : Value) : Option (Option (Value × Value)) :=
  let behind :=
    if key.isNil then some o.allEntries
    else (o.allEntries.dropWhile fun e => e.1 ≠ key.normalKey).tail?
  behind.map fun rest => rest.find? fun e => !e.2.isNil

/-! ### Assignment -/

def setField (key value : Value) : List (Value × Value) → List (Value × Value)
  | [] => if value.isNil then [] else [(key, value)]
  | (k, v) :: rest => if k = key then (k, value) :: rest else (k, v) :: setField key value rest

/-- Fields that follow the last item become items. -/
def absorb (o : Object) : Nat → Object
  | 0 => o
  | fuel + 1 =>
    let key := Value.int (o.items.size + 1)
    match field o.fields key with
    | .nil => o
    | v => absorb { o with items := o.items.push v, fields := o.fields.filter (·.1 ≠ key) } fuel

/-- The table with a value under a key that is neither nil nor NaN. -/
def set (o : Object) (key value : Value) : Object :=
  let key := key.normalKey
  match o.place? key with
  | none => { o with fields := setField key value o.fields }
  | some i =>
    if i < o.items.size then
      { o with items := (o.items.setIfInBounds i value).popWhile Value.isNil }
    else if value.isNil then { o with fields := setField key value o.fields }
    else
      let o := { o with items := o.items.push value }
      o.absorb o.fields.length

def setText (o : Object) (key : Text) (value : Value) : Object := o.set (.ofText key) value

/-- A length of a list with nils: no value stands at its end, or one stands before it and none
behind it. The search halves the range between a length that will do from below and one from
above. -/
def bisect (values : Array Value) : Nat → Nat → Nat → Nat
  | 0, low, _ => low
  | fuel + 1, low, high =>
    if high ≤ low + 1 then low
    else
      let middle := (low + high) / 2
      if ((values[middle - 1]?).getD .nil).isNil then bisect values fuel low middle
      else bisect values fuel middle high

/-- The length of a new list: all of it if it does not end in two nils. -/
def border (values : Array Value) : Nat :=
  let n := values.size
  let present := fun (i : Nat) => !((values[i]?).getD .nil).isNil
  if present (n - 1) then n
  else if present (n - 2) then n - 1
  else bisect values n 0 n

def isText : Value → Bool
  | .string _ => true
  | _ => false

/-- The table with values under 1, 2, …; in a new table nils in the middle keep their places. -/
def setItems (o : Object) (values : List Value) : Object :=
  if o.items.isEmpty && o.fields.all fun e => isText e.1 then
    let n := border values.toArray
    let behind := (values.drop n).zipIdx.map fun (v, i) => (Value.int (n + i + 1), v)
    { o with
      items := (values.take n).toArray
      fields := o.fields ++ behind.filter fun e => !e.2.isNil }
  else values.zipIdx.foldl (fun o (v, i) => o.set (.int (i + 1)) v) o

end Object
end Stencil.Lua
