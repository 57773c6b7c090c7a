import Stencil.Lua.Operation

/-! Calls of functions that scripts do not define, and the reading of their arguments.

An argument of a wrong type is complained about with its position and the name that the function
was called by. -/
namespace Stencil.Lua

structure Call where
  name : Text
  /-- Whether the first argument is the object that the function was found in. -/
  isMethod : Bool := false
  arguments : List Value

namespace Call

variable {σ α : Type}

def given? (c : Call) (i : Nat) : Option Value := c.arguments[i]?

def value (c : Call) (i : Nat) : Value := (c.given? i).getD .nil

/-! ### Complaints -/

def refuse (c : Call) (i : Nat) (reason : Text) : Eval σ α :=
  if c.isMethod ∧ i = 0 then
    Eval.complain ("calling '" ++ c.name ++ "' on bad self (" ++ reason ++ ")")
  else
    let position := if c.isMethod then i else i + 1
    Eval.complain
      ("bad argument #" ++ Text.ofNat position ++ " to '" ++ c.name ++ "' (" ++ reason ++ ")")

def expected (c : Call) (i : Nat) (type : Text) : Eval σ α :=
  let got := ((c.given? i).map Value.typeName).getD "no value"
  c.refuse i (type ++ " expected, got " ++ got)

/-! ### Arguments -/

def any (c : Call) (i : Nat) : Eval σ Value :=
  match c.given? i with
  | some v => return v
  | none => c.refuse i "value expected"

def table (c : Call) (i : Nat) : Eval σ Nat :=
  match c.given? i with
  | some (.table id) => return id
  | _ => c.expected i "table"

def number (c : Call) (i : Nat) : Eval σ Number :=
  match (c.value i).number? with
  | some n => return n
  | none => c.expected i "number"

def integer (c : Call) (i : Nat) : Eval σ Int := do
  let n ← c.number i
  match n.integer? with
  | some k => return k.toInt
  | none => c.refuse i "number has no integer representation"

def bytes (c : Call) (i : Nat) : Eval σ Bytes :=
  match (c.value i).bytes? with
  | some s => return s
  | none => c.expected i "string"

/-- An argument that may be nil or missing. -/
def optional (c : Call) (i : Nat) (absent : α) (read : Nat → Eval σ α) : Eval σ α :=
  if (c.value i).isNil then return absent else read i

end Call

/-! ### Positions in a sequence -/

/-- A position counted from the end when it is negative. -/
def fromStart (length : Nat) (position : Int) : Int :=
  if position < 0 then max (position + length + 1) 0 else position

/-- The part of a sequence between two positions, both included. -/
def slice {α : Type} (items : List α) (start stop : Int) : List α :=
  let start := max (fromStart items.length start) 1
  let stop := min (fromStart items.length stop) items.length
  (items.drop (start.toNat - 1)).take (stop - start + 1).toNat

end Stencil.Lua
