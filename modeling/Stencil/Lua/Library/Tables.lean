import Stencil.Lua.Library.Call

/-! The functions on tables as sequences. -/
namespace Stencil.Lua

namespace TableFunction

def named : List (Text × TableFunction) :=
  [("concat", concat), ("insert", insert), ("pack", pack), ("remove", remove),
    ("unpack", unpack)].map fun (n, f) => (n.toList, f)

end TableFunction

variable {σ : Type} (invoke : Invoke σ)

/-- The values under consecutive integer keys. -/
def valuesFrom (v : Value) (start : Int) (count : Nat) : Eval σ (List Value) :=
  (List.range count).mapM fun (i : Nat) => index invoke ⟨v, none⟩ (.int (start + i))

def lengthOf (v : Value) : Eval σ Int := do
  match ← length invoke ⟨v, none⟩ with
  | .number n =>
    match n.integer? with
    | some k => return k.toInt
    | none => Eval.complain "object length is not an integer"
  | _ => Eval.complain "object length is not an integer"

/-- The texts of values that are strings or numbers, which stand from an index on. -/
def piecesFrom (start : Int) : List Value → Eval σ (List Bytes)
  | [] => return []
  | v :: vs =>
    match v.bytes? with
    | some s => return s :: (← piecesFrom (start + 1) vs)
    | none => Eval.complain
        ("invalid value (at index " ++ Number.integerText start ++ ") in table for 'concat'")

def joinBytes (separator : Bytes) : List Bytes → Bytes
  | [] => []
  | [s] => s
  | s :: rest => s ++ separator ++ joinBytes separator rest

/-- Moves values one key up, the last one first, so that a key becomes free. -/
def shiftUp (v : Value) (position : Int) : Nat → Eval σ Unit
  | 0 => return ()
  | n + 1 => do
    let moved ← index invoke ⟨v, none⟩ (.int (position + n))
    assign invoke ⟨v, none⟩ (.int (position + n + 1)) moved
    shiftUp v position n

/-- Moves values one key down, the first one first. -/
def shiftDown (v : Value) : Nat → Int → Eval σ Unit
  | 0, _ => return ()
  | n + 1, position => do
    let moved ← index invoke ⟨v, none⟩ (.int (position + 1))
    assign invoke ⟨v, none⟩ (.int position) moved
    shiftDown v n (position + 1)

def insertItem (c : Call) : Eval σ Unit := do
  let v := Value.table (← c.table 0)
  let last := (← lengthOf invoke v) + 1
  match c.arguments with
  | [_, item] => assign invoke ⟨v, none⟩ (.int last) item
  | [_, _, item] =>
    let position ← c.integer 1
    if position < 1 ∨ last < position then c.refuse 1 "position out of bounds"
    shiftUp invoke v position (last - position).toNat
    assign invoke ⟨v, none⟩ (.int position) item
  | _ => Eval.complain "wrong number of arguments to 'insert'"

def removeItem (c : Call) : Eval σ Value := do
  let v := Value.table (← c.table 0)
  let size ← lengthOf invoke v
  let position ← c.optional 1 size c.integer
  if (c.given? 1).isSome ∧ size + 1 ≠ position ∧ (position < 1 ∨ size + 1 < position) then
    c.refuse 1 "position out of bounds"
  let removed ← index invoke ⟨v, none⟩ (.int position)
  shiftDown invoke v (size - position).toNat position
  assign invoke ⟨v, none⟩ (.int (max size position)) .nil
  return removed

def maxUnpacked : Int := 1000000

def callTable (f : TableFunction) (c : Call) : Eval σ (List Value) := do
  match f with
  | .concat =>
    let v := Value.table (← c.table 0)
    let separator ← c.optional 1 [] c.bytes
    let start ← c.optional 2 1 c.integer
    let stop ← if (c.value 3).isNil then lengthOf invoke v else c.integer 3
    let values ← valuesFrom invoke v start (stop - start + 1).toNat
    return [.string (joinBytes separator (← piecesFrom start values))]
  | .insert =>
    insertItem invoke c
    return []
  | .pack =>
    let o := (Object.setItems {} c.arguments).setText "n" (.int c.arguments.length)
    return [.table (← Eval.newTable o)]
  | .remove => return [← removeItem invoke c]
  | .unpack =>
    let v := c.value 0
    let start ← c.optional 1 1 c.integer
    let stop ← if (c.value 2).isNil then lengthOf invoke v else c.integer 2
    if maxUnpacked ≤ stop - start then Eval.complain "too many results to unpack"
    valuesFrom invoke v start (stop - start + 1).toNat

end Stencil.Lua
