import Stencil.Lua.Machine

/-! What the operators of the language do.

Each operation first does what it is for: arithmetic is on numbers and on strings that spell
numbers, `..` is on strings and numbers, an index is into a table. On other operands it asks for a
function under the name of the operation in their metatables, and complains when there is none,
naming the operand by the place that it came from. -/
namespace Stencil.Lua

variable {σ α : Type}

/-- An operand and what the script calls it. -/
structure Operand where
  value : Value
  naming : Option Naming := none

def metafield (v : Value) (event : Text) : Eval σ Value := do
  match v with
  | .table id =>
    match (← Eval.object id).metatable with
    | some m => return (← Eval.object m).getText event
    | none => return .nil
  | .string _ => return (← Eval.object stringMetatable).getText event
  | _ => return .nil

/-- The function for an operation in the metatable of the first operand that has one. -/
def binaryMetafield (a b : Value) (event : Text) : Eval σ Value := do
  let h ← metafield a event
  if h.isNil then metafield b event else return h

/-- Complains that something cannot be done to an operand. -/
def refuse (action : Text) (a : Operand) : Eval σ α :=
  Eval.raise ("attempt to " ++ action ++ " a " ++ a.value.typeName ++ " value"
    ++ Naming.text a.naming)

variable (invoke : Invoke σ)

/-! ### Indices -/

/-- How many tables may be asked one after the other for a key. -/
def maxChain : Nat := 2000

def indexIn (a : Operand) (key : Value) : Nat → Eval σ Value
  | 0 => Eval.raise "'__index' chain too long; possibly a loop"
  | n + 1 => do
    let own ← match a.value with
      | .table id => do pure (some ((← Eval.object id).get key))
      | _ => pure none
    match own with
    | some v => if !v.isNil then return v
    | none => pure ()
    match ← metafield a.value "__index", own with
    | .nil, some _ => return .nil
    | .nil, none => refuse "index" a
    | h, _ =>
      if h.isFunction then return first (← invoke h [a.value, key] none)
      else indexIn ⟨h, none⟩ key n

def index (a : Operand) (key : Value) : Eval σ Value := indexIn invoke a key maxChain

def isNaN (v : Value) : Bool :=
  match v with
  | .number (.float bits) => Number.isNaN bits
  | _ => false

/-- Assigns to a key of a table without asking its metatable. -/
def rawSet (id : Nat) (key v : Value) : Eval σ Unit := do
  if key.isNil then Eval.raise "table index is nil"
  else if isNaN key then Eval.raise "table index is NaN"
  else Eval.changeObject id (·.set key v)

def assignIn (a : Operand) (key v : Value) : Nat → Eval σ Unit
  | 0 => Eval.raise "'__newindex' chain too long; possibly a loop"
  | n + 1 => do
    let own ← match a.value with
      | .table id => do pure (some (id, (← Eval.object id).get key))
      | _ => pure none
    match own with
    | some (id, old) => if !old.isNil then return ← rawSet id key v
    | none => pure ()
    match ← metafield a.value "__newindex", own with
    | .nil, some (id, _) => rawSet id key v
    | .nil, none => refuse "index" a
    | h, _ =>
      if h.isFunction then
        let _ ← invoke h [a.value, key, v] none
      else assignIn ⟨h, none⟩ key v n

def assign (a : Operand) (key v : Value) : Eval σ Unit := assignIn invoke a key v maxChain

/-! ### Arithmetic -/

def event : Number.Operation → Text
  | .add => "__add"
  | .sub => "__sub"
  | .mul => "__mul"
  | .div => "__div"
  | .mod => "__mod"
  | .idiv => "__idiv"
  | .pow => "__pow"
  | .band => "__band"
  | .bor => "__bor"
  | .bxor => "__bxor"
  | .shl => "__shl"
  | .shr => "__shr"

/-- The result of an arithmetic operation on operands that are numbers. -/
def numeric (result : Except Number.Failure Number) (culprit : Operand) : Eval σ Value :=
  match result with
  | .ok n => return .number n
  | .error .noInteger =>
    Eval.raise ("number" ++ Naming.text culprit.naming ++ " has no integer representation")
  | .error f => Eval.raise f.message

def arithAction (isBitwise : Bool) : Text :=
  if isBitwise then "perform bitwise operation on" else "perform arithmetic on"

def arith (op : Number.Operation) (a b : Operand) : Eval σ Value := do
  match a.value.number?, b.value.number? with
  | some m, some n =>
    numeric (m.arith op n) (if m.integer?.isSome then b else a)
  | m, _ =>
    match ← binaryMetafield a.value b.value (event op) with
    | .nil => refuse (arithAction op.isBitwise) (if m.isSome then b else a)
    | h => return first (← invoke h [a.value, b.value] none)

def unaryArith (isBitwise : Bool) (event : Text) (f : Number → Except Number.Failure Number)
    (a : Operand) : Eval σ Value := do
  match a.value.number? with
  | some m => numeric (f m) a
  | none =>
    match ← metafield a.value event with
    | .nil => refuse (arithAction isBitwise) a
    | h => return first (← invoke h [a.value, a.value] none)

/-! ### Strings and lengths -/

def concat (a b : Operand) : Eval σ Value := do
  match a.value.bytes?, b.value.bytes? with
  | some s, some t => return .string (s ++ t)
  | s, _ =>
    match ← binaryMetafield a.value b.value "__concat" with
    | .nil => refuse "concatenate" (if s.isSome then b else a)
    | h => return first (← invoke h [a.value, b.value] none)

def length (a : Operand) : Eval σ Value := do
  match a.value with
  | .string s => return .int s.length
  | v =>
    match ← metafield v "__len", v with
    | .nil, .table id => return .int (← Eval.object id).length
    | .nil, _ => refuse "get length of" a
    | h, _ => return first (← invoke h [v] none)

/-! ### Comparison -/

def equal (a b : Value) : Eval σ Bool := do
  if a.rawEqual b then return true
  match a, b with
  | .table _, .table _ =>
    match ← binaryMetafield a b "__eq" with
    | .nil => return false
    | h => return (first (← invoke h [a, b] none)).isTrue
  | _, _ => return false

def refuseComparison (a b : Value) : Eval σ α :=
  if a.typeName = b.typeName then
    Eval.raise ("attempt to compare two " ++ a.typeName ++ " values")
  else Eval.raise ("attempt to compare " ++ a.typeName ++ " with " ++ b.typeName)

/-- An order on numbers and on strings. -/
def ordered (event : Text) (numbers : Number → Number → Bool) (strings : Bytes → Bytes → Bool)
    (a b : Value) : Eval σ Bool := do
  match a, b with
  | .number m, .number n => return numbers m n
  | .string s, .string t => return strings s t
  | _, _ =>
    match ← binaryMetafield a b event with
    | .nil => refuseComparison a b
    | h => return (first (← invoke h [a, b] none)).isTrue

def less (a b : Value) : Eval σ Bool :=
  ordered invoke "__lt" Number.less (fun s t => decide (s < t)) a b

def lessEqual (a b : Value) : Eval σ Bool :=
  ordered invoke "__le" Number.lessEqual (fun s t => decide (s ≤ t)) a b

def compare (c : Comparison) (a b : Value) : Eval σ Bool :=
  match c with
  | .equal => equal invoke a b
  | .notEqual => return !(← equal invoke a b)
  | .less => less invoke a b
  | .lessEqual => lessEqual invoke a b
  | .greater => less invoke b a
  | .greaterEqual => lessEqual invoke b a

/-! ### Texts -/

def hexText (n : Nat) : Text := Nat.toDigits 16 n

/-- A number that stands for a value that has no text. -/
def address (id : Nat) : Text :=
  let digits := hexText (0x10000 + 64 * id)
  "0x" ++ Text.repeated '0' (14 - digits.length) ++ digits

def FailureCause.text : FailureCause → Text
  | .native _ message _ => message
  | .included e => e.message

/-- The text that a value is shown with. -/
def display (v : Value) : Eval σ Bytes := do
  match ← metafield v "__tostring" with
  | .nil =>
    match v with
    | .nil => return Text.bytes "nil"
    | .bool b => return Text.bytes (if b then "true" else "false")
    | .number n => return n.text.bytes
    | .string s => return s
    | .table id => return Text.bytes ("table: " ++ address id)
    | .closure id => return Text.bytes ("function: " ++ address id)
    | .native _ => return Text.bytes ("function: builtin: " ++ address 0)
    | .failure id =>
      let text := FailureCause.text (← Eval.failure id).cause
      return Text.bytes (text ++ "\nstack traceback:\n\t[C]: in ?")
  | h =>
    match first (← invoke h [v] none) with
    | .string s => return s
    | .number n => return n.text.bytes
    | _ => Eval.complain "'__tostring' must return a string"

/-- How often in a row something else may be raised instead of what cannot be shown. -/
def maxShown : Nat := 200

/-- What is told of a raised value: a failure of a native function, or else the text that the value
is shown with. A native function shows it where it was raised, and tells of what is raised then. -/
def told : Nat → Value → Eval σ (NativeFailure ⊕ Text)
  | _, .failure id => return .inl (← Eval.failure id)
  | 0, _ => return .inr "C stack overflow"
  | n + 1, v => do
    Eval.enter ⟨none, 0, .nil, none⟩
    tryCatch (do return .inr (Bytes.text (← display invoke v))) fun e => told n e

end Stencil.Lua
