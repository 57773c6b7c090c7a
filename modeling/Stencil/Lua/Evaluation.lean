import Stencil.Lua.Operation

/-! What expressions and statements do.

An expression has a list of values, of which most places take the first. A statement says how the
block around it goes on, and with which variables. The definitions are by recursion on what is
evaluated; calls go through the function `invoke`, and loops repeat their body up to a number of
rounds that no script lives to see. -/
namespace Stencil.Lua

variable {σ α : Type}

/-! ### Variables -/

namespace Env

def add (env : Env) (name : Text) (cell : Nat) : Env :=
  { env with locals := (name, cell) :: env.locals }

/-- New variables with values. -/
def bind : Env → List Text → List Value → Eval σ Env
  | env, [], _ => return env
  | env, name :: names, values => do
    bind (env.add name (← Eval.newCell (first values))) names (values.drop 1)

/-- What a function inside sees. -/
def enclosed (env : Env) : Env :=
  { env with locals := [], captured := env.locals ++ env.captured, rest := [] }

def local? (env : Env) (name : Text) : Option Nat :=
  (env.locals.find? (·.1 = name)).map Prod.snd

def captured? (env : Env) (name : Text) : Option Nat :=
  (env.captured.find? (·.1 = name)).map Prod.snd

def cell? (env : Env) (name : Text) : Option Nat := (env.local? name).or (env.captured? name)

def naming (env : Env) (name : Text) : Naming :=
  if (env.local? name).isSome then ⟨"local", name⟩
  else if (env.captured? name).isSome then ⟨"upvalue", name⟩
  else ⟨"global", name⟩

end Env

/-- The variable that holds the table of global variables. -/
def globalsName : Text := "_ENV"

/-- What a script calls the place that an expression reads. -/
def naming? (env : Env) : Expr → Option Naming
  | .name name _ => some (env.naming name)
  | .index (.name object _) (.string key) _ =>
    some ⟨if object = globalsName then "global" else "field", key.shown⟩
  | .index _ (.string key) _ => some ⟨"field", key.shown⟩
  | .index _ (.number (.int _)) _ => some ⟨"field", "integer index"⟩
  | .index .. => some ⟨"field", "?"⟩
  | .paren inner => naming? env inner
  | _ => none

def newFunction (f : Function) (env : Env) : Eval σ Value :=
  return .closure (← Eval.newClosure ⟨f, env.enclosed⟩)

/-! ### Blocks -/

/-- How a block goes on behind a statement. -/
inductive Control
  | proceed
  | leaveLoop
  | result (values : List Value)
  /-- The result is that of a call. -/
  | tail (function : Value) (arguments : List Value) (naming : Option Naming)

/-- More rounds than a script can run. -/
def maxRounds : Nat := 0x4000000000000000

/-- Repeats a step until it has a result. -/
def repeatUntil (absent : α) (step : Eval σ (Option α)) : Nat → Eval σ α
  | 0 => return absent
  | n + 1 => do
    match ← step with
    | some a => return a
    | none => repeatUntil absent step n

/-- How a loop goes on after a round: it ends with what it leaves to the statements behind it, or
there is another round. -/
def Control.afterRound : Control → Option Control
  | .proceed => none
  | .leaveLoop => some .proceed
  | c => some c

def loop (round : Eval σ (Option Control)) : Eval σ Control :=
  repeatUntil .proceed round maxRounds

/-! ### Counting -/

/-- Integers with a distance between them, as many as are left. -/
def countRounds (round : Value → Eval σ Control) (step : Int) : Nat → Int → Eval σ Control
  | 0, _ => return .proceed
  | n + 1, i => do
    match (← round (.int i)).afterRound with
    | none => countRounds round step n (i + step)
    | some c => return c

/-- The last integer that a limit allows when counting up, or down. -/
def integerLimit? (limit : Number) (up : Bool) : Option Int :=
  match limit.extended with
  | .nan => none
  | .infinite negative => some (if negative then -0x8000000000000000 else 0x7FFFFFFFFFFFFFFF)
  | .finite x =>
    let n := if up then x.floor else -Number.Dyadic.floor ⟨-x.numerator, x.exponent⟩
    some (max (-0x8000000000000000) (min n 0x7FFFFFFFFFFFFFFF))

/-- The number of rounds from a start to a limit. -/
def roundCount (start limit step : Int) : Nat :=
  if 0 < step then if start ≤ limit then ((limit - start) / step).toNat + 1 else 0
  else if limit ≤ start then ((start - limit) / -step).toNat + 1 else 0

def floatRounds (round : Value → Eval σ Control) (limit step : UInt64) :
    Nat → UInt64 → Eval σ Control
  | 0, _ => return .proceed
  | n + 1, x => do
    let up := Number.less (.int 0) (.float step)
    let goesOn := if up then Number.lessEqual (.float x) (.float limit)
      else Number.lessEqual (.float limit) (.float x)
    if !goesOn then return .proceed
    match (← round (.number (.float x))).afterRound with
    | none => floatRounds round limit step n (Number.lift (· + ·) x step)
    | some c => return c

def countingNumber (what : Text) (v : Value) : Eval σ Number :=
  match v with
  | .number n => return n
  | _ => Eval.raise ("bad 'for' " ++ what ++ " (number expected, got " ++ v.typeName ++ ")")

def count (start limit step : Value) (round : Value → Eval σ Control) : Eval σ Control := do
  match start, step with
  | .number (.int start), .number (.int step) =>
    if step = 0 then Eval.raise "'for' step is zero"
    let limit ← countingNumber "limit" limit
    match integerLimit? limit (0 < step.toInt) with
    | some last =>
      countRounds round step.toInt (roundCount start.toInt last step.toInt) start.toInt
    | none => return .proceed
  | _, _ =>
    let limit ← countingNumber "limit" limit
    let step ← countingNumber "step" step
    let start ← countingNumber "initial value" start
    if step.equal (.int 0) then Eval.raise "'for' step is zero"
    floatRounds round limit.toBits step.toBits maxRounds start.toBits

/-! ### Evaluation -/

variable (invoke : Invoke σ)

def readVariable (env : Env) (name : Text) : Eval σ Value := do
  match env.cell? name with
  | some cell => Eval.readCell cell
  | none =>
    let table ← match env.cell? globalsName with
      | some cell => Eval.readCell cell
      | none => pure .nil
    index invoke ⟨table, some (env.naming globalsName)⟩ (.ofText name)

/-- Where an assignment goes. -/
inductive Target
  | cell (id : Nat)
  | entry (object : Operand) (key : Value) (line : Nat)

def variableTarget (env : Env) (name : Text) (line : Nat) : Eval σ Target := do
  match env.cell? name with
  | some cell => return .cell cell
  | none =>
    let table ← match env.cell? globalsName with
      | some cell => Eval.readCell cell
      | none => pure .nil
    return .entry ⟨table, some (env.naming globalsName)⟩ (.ofText name) line

def Target.set (v : Value) : Target → Eval σ Unit
  | .cell id => Eval.writeCell id v
  | .entry object key line => do
    Eval.atLine line
    assign invoke object key v

/-- Assigns values to targets, the last one first. -/
def setAll : List Target → List Value → Eval σ Unit
  | [], _ => return ()
  | t :: ts, values => do
    setAll ts (values.drop 1)
    t.set invoke (first values)

def applyBinary (op : BinaryOp) (a b : Operand) : Eval σ Value :=
  match op with
  | .arith o => arith invoke o a b
  | .concat => concat invoke a b
  | .compare c => return .bool (← compare invoke c a.value b.value)

def applyUnary (op : UnaryOp) (a : Operand) : Eval σ Value :=
  match op with
  | .not => return .bool !a.value.isTrue
  | .negate => unaryArith invoke false "__unm" (fun n => .ok n.negate) a
  | .complement => unaryArith invoke true "__bnot" Number.complement a
  | .length => length invoke a

mutual

def eval : Expr → Env → Eval σ (List Value)
  | .nil, _ => return [.nil]
  | .bool b, _ => return [.bool b]
  | .number n, _ => return [.number n]
  | .string s, _ => return [.string s]
  | .rest, env => return env.rest
  | .function f, env => return [← newFunction f env]
  | .name name line, env => do
    Eval.atLine line
    return [← readVariable invoke env name]
  | .index object key line, env => do
    let o := first (← eval object env)
    let k := first (← eval key env)
    Eval.atLine line
    return [← index invoke ⟨o, naming? env object⟩ k]
  | .call function arguments line, env => do
    let f := first (← eval function env)
    let values ← evalList arguments env
    Eval.atLine line
    invoke f values (naming? env function)
  | .method object name arguments line, env => do
    let o := first (← eval object env)
    Eval.atLine line
    let f ← index invoke ⟨o, naming? env object⟩ (.ofText name)
    let values ← evalList arguments env
    Eval.atLine line
    invoke f (o :: values) (some ⟨"method", name⟩)
  | .unary op operand line, env => do
    let v := first (← eval operand env)
    Eval.atLine line
    return [← applyUnary invoke op ⟨v, naming? env operand⟩]
  | .binary op left right line, env => do
    let a := first (← eval left env)
    let b := first (← eval right env)
    Eval.atLine line
    return [← applyBinary invoke op ⟨a, naming? env left⟩ ⟨b, naming? env right⟩]
  | .and left right, env => do
    let a := first (← eval left env)
    if a.isTrue then return [first (← eval right env)] else return [a]
  | .or left right, env => do
    let a := first (← eval left env)
    if a.isTrue then return [a] else return [first (← eval right env)]
  | .paren inner, env => return [first (← eval inner env)]
  | .table fields, env => do
    let id ← Eval.newTable {}
    let items ← evalFields fields id env
    Eval.changeObject id (·.setItems items)
    return [.table id]

/-- The values of a list of expressions: one of each, and all of the last one. -/
def evalList : List Expr → Env → Eval σ (List Value)
  | [], _ => return []
  | [e], env => eval e env
  | e :: es, env => do
    let v := first (← eval e env)
    return v :: (← evalList es env)

/-- Sets the entries of a new table; the items are the values without a key. -/
def evalFields : List Field → Nat → Env → Eval σ (List Value)
  | [], _, _ => return []
  | [.item e], _, env => eval e env
  | .item e :: rest, id, env => do
    let v := first (← eval e env)
    return v :: (← evalFields rest id env)
  | .entry key value line :: rest, id, env => do
    let k := first (← eval key env)
    let v := first (← eval value env)
    Eval.atLine line
    rawSet id k v
    evalFields rest id env

end

/-- The targets of an assignment. -/
def evalTarget (env : Env) : Expr → Eval σ Target
  | .index object key line => do
    let o := first (← eval invoke object env)
    let k := first (← eval invoke key env)
    return .entry ⟨o, naming? env object⟩ k line
  | .name name line => variableTarget env name line
  | _ => return .entry ⟨.nil, none⟩ .nil 0

mutual

def exec : Statement → Env → Eval σ (Control × Env)
  | .locals names values, env => do
    return (.proceed, ← env.bind names (← evalList invoke values env))
  | .assign targets values, env => do
    let places ← targets.mapM (evalTarget invoke env)
    setAll invoke places (← evalList invoke values env)
    return (.proceed, env)
  | .call call, env => do
    let _ ← eval invoke call env
    return (.proceed, env)
  | .block body, env => do
    let (c, _) ← execBlock body env
    return (c, env)
  | .whileLoop condition body, env => do
    let c ← loop do
      if (first (← eval invoke condition env)).isTrue then
        let (c, _) ← execBlock body env
        return c.afterRound
      else return some .proceed
    return (c, env)
  | .untilLoop body condition, env => do
    let c ← loop do
      let (c, inner) ← execBlock body env
      match c.afterRound with
      | some c => return some c
      | none =>
        return if (first (← eval invoke condition inner)).isTrue then some .proceed else none
    return (c, env)
  | .conditional condition body otherwise, env => do
    if (first (← eval invoke condition env)).isTrue then
      let (c, _) ← execBlock body env
      return (c, env)
    else
      let (c, _) ← execBlock otherwise env
      return (c, env)
  | .countLoop name start limit step body line, env => do
    let a := first (← eval invoke start env)
    let b := first (← eval invoke limit env)
    let s := first (← eval invoke step env)
    Eval.atLine line
    let c ← count a b s fun v => do
      let (c, _) ← execBlock body (← env.bind [name] [v])
      return c
    return (c, env)
  | .iteration names values body line, env => do
    let start ← evalList invoke values env
    let f := first start
    let state := first (start.drop 1)
    let control ← Eval.newCell (first (start.drop 2))
    let c ← loop do
      Eval.atLine line
      let next ← invoke f [state, ← Eval.readCell control]
        (some ⟨"for iterator", "for iterator"⟩)
      if (first next).isNil then return some .proceed
      Eval.writeCell control (first next)
      let (c, _) ← execBlock body (← env.bind names next)
      return c.afterRound
    return (c, env)
  | .localFunction name body, env => do
    let cell ← Eval.newCell .nil
    let env := env.add name cell
    Eval.writeCell cell (← newFunction body env)
    return (.proceed, env)
  | .breaking, env => return (.leaveLoop, env)
  | .returning [.call function arguments line], env => do
    let f := first (← eval invoke function env)
    let values ← evalList invoke arguments env
    Eval.atLine line
    return (.tail f values (naming? env function), env)
  | .returning values, env => return (.result (← evalList invoke values env), env)

/-- The statements of a block up to one that leaves it, and the variables there. -/
def execBlock : List Statement → Env → Eval σ (Control × Env)
  | [], env => return (.proceed, env)
  | s :: rest, env => do
    match ← exec s env with
    | (.proceed, env) => execBlock rest env
    | (c, env) => return (c, env)

end

/-- Runs the body of a function. -/
def execFunction (c : Closure) (arguments : List Value) : Eval σ Control := do
  let .mk parameters takesRest body _ := c.body
  let env := { c.env with rest := if takesRest then arguments.drop parameters.length else [] }
  let (control, _) ← execBlock invoke body (← env.bind parameters arguments)
  return control

end Stencil.Lua
