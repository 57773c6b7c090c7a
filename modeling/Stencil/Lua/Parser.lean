import Stencil.Lua.Chunk
import Stencil.Lua.Token

/-! Reading scripts.

The reader is layered by nesting: `grammar (n + 1)` reads statements and expressions that nest at
most `n` further ones inside each other, and reads these by `grammar n`. At the limit it complains,
as it does at the first token that does not fit. Each complaint says what was expected and points
at the token.

This is the reader of the language without `goto`, labels and attributes of variables. It looks at
the syntax only: an implementation that generates code may refuse what is read here, such as a loop
with more than 131071 instructions in its body. -/
namespace Stencil.Lua

/-! ### Complaints -/

inductive Complaint
  /-- A token that could not be read; its text is the whole message. -/
  | token (message : Text)
  | expected (what shown : Text)
  /-- What should close something that was opened on an earlier line. -/
  | expectedToClose (what opened : Text) (line : Nat) (shown : Text)
  | unexpectedSymbol (shown : Text)
  | noStatement (shown : Text)
  | noArguments (shown : Text)
  | restOutside (shown : Text)
  | breakOutside (line : Nat)
  /-- In the function that begins on a line; the script itself begins on line 0. -/
  | tooManyVariables (line : Nat) (shown : Text)
  /-- Nested too deeply. -/
  | tooDeep
deriving Repr, DecidableEq

/-- How many variables may be in scope in a function, those of its parameters and loops included. -/
def maxVariables : Nat := 200

def Complaint.message : Complaint → Text
  | token message => message
  | expected what shown => near (what ++ " expected") shown
  | expectedToClose what opened line shown =>
    near (what ++ " expected (to close " ++ opened ++ " at line " ++ Text.ofNat line ++ ")") shown
  | unexpectedSymbol shown => near "unexpected symbol" shown
  | noStatement shown => near "syntax error" shown
  | noArguments shown => near "function arguments expected" shown
  | restOutside shown => near "cannot use '...' outside a vararg function" shown
  | breakOutside line => "break outside a loop at line " ++ Text.ofNat line
  | tooManyVariables line shown =>
    let place : Text :=
      if line = 0 then "main function" else "function at line " ++ Text.ofNat line
    near ("too many local variables (limit is " ++ Text.ofNat maxVariables ++ ") in " ++ place) shown
  | tooDeep => "C stack overflow"

structure ParseError where
  line : Nat
  complaint : Complaint
deriving Repr, DecidableEq

/-! ### Readers -/

/-- Where a reader stands. -/
structure Cursor where
  ahead : List Lexeme
  /-- Whether the function that is being read takes further arguments. -/
  takesRest : Bool
  inLoop : Bool
  /-- The line of the first `break` of the function that is in no loop. -/
  strayBreak : Option Nat
  /-- How many variables of the function are in scope. -/
  locals : Nat
  /-- The line that the function begins on, 0 for the script itself. -/
  functionLine : Nat

abbrev Reader := StateT Cursor (Except ParseError)

namespace Reader

variable {α : Type}

def current : Reader Lexeme := do
  let at_ := (← get).ahead.headD ⟨.finish, 1, endShown⟩
  match at_.token with
  | .bad message => throw ⟨at_.line, .token message⟩
  | _ => return at_

def complain (c : Text → Complaint) : Reader α := do
  let at_ ← current
  throw ⟨at_.line, c at_.shown⟩

/-- Goes on to the next token; a bad one is complained about here. -/
def advance : Reader Unit := do
  modify fun s => { s with ahead := s.ahead.drop 1 }
  let _ ← current

def line : Reader Nat := return (← current).line

def isAt (t : Token) : Reader Bool := return (← current).token == t

/-- Whether the next token is this one, which is then passed. -/
def accept (t : Token) : Reader Bool := do
  if ← isAt t then
    advance
    return true
  else return false

def wanted : Token → Text
  | .word w => quoted w
  | .symbol s => quoted s
  | .finish => endShown
  | _ => "<name>"

def expect (t : Token) : Reader Unit := do
  unless ← accept t do complain (.expected (wanted t))

/-- The token that closes what `opened` on a line. -/
def close (t opened : Token) (opening : Nat) : Reader Unit := do
  unless ← accept t do
    if (← line) = opening then complain (.expected (wanted t))
    else complain (.expectedToClose (wanted t) (wanted opened) opening)

def name : Reader Text := do
  match (← current).token with
  | .name n =>
    advance
    return n
  | _ => complain (.expected "<name>")

/-- Brings variables into the scope of the block that is being read. -/
def declare (count : Nat) : Reader Unit := do
  let s ← get
  if maxVariables < s.locals + count then complain (.tooManyVariables s.functionLine)
  set { s with locals := s.locals + count }

/-- The name of a new variable. -/
def newName : Reader Text := do
  let n ← name
  declare 1
  return n

/-- Variables that are declared in a part of a script leave the scope at its end. -/
def inScope (part : Reader α) : Reader α := do
  let outer := (← get).locals
  let a ← part
  modify fun s => { s with locals := outer }
  return a

/-- Enough for any loop that passes a token in each round. -/
def rounds : Reader Nat := return (← get).ahead.length + 1

/-- Items with a separator between them. -/
def separated (separator : Token) (item : Reader α) : Nat → Reader (List α)
  | 0 => return []
  | fuel + 1 => do
    let first ← item
    if ← accept separator then return first :: (← separated separator item fuel)
    else return [first]

def symbol (s : String) : Token := .symbol s.toList

def word (w : String) : Token := .word w.toList

/-! ### Grammar -/

/-- Readers for what may be nested: a statement, and an expression whose operators all bind more
tightly than a limit. -/
structure Grammar where
  statement : Reader Statement
  expr : Nat → Reader Expr

variable (inner : Grammar)

def exprs : Reader (List Expr) := do
  separated (symbol ",") (inner.expr 0) (← rounds)

/-- Whether the next token ends a block. -/
def endsBlock (withUntil : Bool) : Reader Bool := do
  match (← current).token with
  | .finish => return true
  | .word w =>
    return [("else" : Text), "elseif", "end"].contains w
      || (withUntil && w == ("until" : Text))
  | _ => return false

/-- Statements up to the end of a block; a `return` is the last one. -/
def statements : Nat → Reader (List Statement)
  | 0 => return []
  | fuel + 1 => do
    if ← endsBlock true then return []
    let isLast ← isAt (word "return")
    let first ← inner.statement
    if isLast then return [first] else return first :: (← statements fuel)

def block : Reader (List Statement) := inScope do statements inner (← rounds)

def loopBody : Reader (List Statement) := do
  let outer := (← get).inLoop
  modify fun s => { s with inLoop := true }
  let body ← block inner
  modify fun s => { s with inLoop := outer }
  return body

/-! ### Functions -/

/-- The parameters of a function up to the closing parenthesis. -/
def parameters : Nat → Reader (List Text × Bool)
  | 0 => return ([], false)
  | fuel + 1 => do
    match (← current).token with
    | .name n =>
      advance
      declare 1
      if ← accept (symbol ",") then
        let (names, takesRest) ← parameters fuel
        return (n :: names, takesRest)
      else return ([n], false)
    | t =>
      if t = symbol "..." then
        advance
        return ([], true)
      else complain (.expected "<name> or '...'")

/-- A `break` in no loop of the function that has been read. -/
def refuseStrayBreak : Reader Unit := do
  if let some at_ := (← get).strayBreak then throw ⟨← line, .breakOutside at_⟩

/-- A function from its parameters on. -/
def function (first : List Text) (opening : Nat) : Reader Function := do
  expect (symbol "(")
  let outer ← get
  set { outer with locals := first.length, functionLine := opening }
  let (names, takesRest) ←
    if ← isAt (symbol ")") then pure ([], false) else parameters (← rounds)
  expect (symbol ")")
  modify fun s => { s with takesRest, inLoop := false, strayBreak := none }
  let body ← block inner
  close (word "end") (word "function") opening
  refuseStrayBreak
  modify fun s => { outer with ahead := s.ahead }
  return .mk (first ++ names) takesRest body opening

/-! ### Expressions -/

def isName : Lexeme → Bool
  | ⟨.name _, _, _⟩ => true
  | _ => false

/-- What a part of a script is read as, and the line of the last token of it. -/
def withLastLine (part : Reader α) : Reader (α × Nat) := do
  let at_ ← current
  let before := (← get).ahead
  let a ← part
  let passed := before.take (before.length - (← get).ahead.length)
  return (a, (passed.getLastD at_).line)

/-- The entry of a table with a key, from its value on. -/
def entry (key : Expr) : Reader Field := do
  let (value, line) ← withLastLine (inner.expr 0)
  return .entry key value line

def field : Reader Field := do
  let at_ ← current
  if isName at_ then
    match (← get).ahead with
    | _ :: ⟨.bad message, line, _⟩ :: _ => throw ⟨line, .token message⟩
    | _ :: ⟨.symbol ['='], _, _⟩ :: _ =>
      let key ← name
      advance
      entry inner (.string (Text.bytes key))
    | _ => return .item (← inner.expr 0)
  else if ← accept (symbol "[") then
    let key ← inner.expr 0
    expect (symbol "]")
    expect (symbol "=")
    entry inner key
  else return .item (← inner.expr 0)

def fields : Nat → Reader (List Field)
  | 0 => return []
  | fuel + 1 => do
    if ← isAt (symbol "\x7d") then return []
    let first ← field inner
    if ← accept (symbol ",") then return first :: (← fields fuel)
    else if ← accept (symbol ";") then return first :: (← fields fuel)
    else return [first]

def table : Reader Expr := do
  let opening ← line
  expect (symbol "\x7b")
  let all ← fields inner (← rounds)
  close (symbol "\x7d") (symbol "\x7b") opening
  return .table all

def arguments : Reader (List Expr) := do
  let at_ ← current
  match at_.token with
  | .string s =>
    advance
    return [.string s]
  | t =>
    if t = symbol "\x7b" then return [← table inner]
    else if t = symbol "(" then
      advance
      let all ← if ← isAt (symbol ")") then pure [] else exprs inner
      close (symbol ")") (symbol "(") at_.line
      return all
    else complain .noArguments

def primary : Reader Expr := do
  let at_ ← current
  match at_.token with
  | .name n =>
    advance
    return .name n at_.line
  | t =>
    if t = symbol "(" then
      advance
      let e ← inner.expr 0
      close (symbol ")") (symbol "(") at_.line
      return .paren e
    else complain .unexpectedSymbol

/-- What follows an expression: fields, indices, methods and calls. -/
def suffixes : Nat → Expr → Reader Expr
  | 0, e => return e
  | fuel + 1, e => do
    let at_ ← current
    let isArgument := match at_.token with
      | .string _ => true
      | t => t == symbol "(" || t == symbol "\x7b"
    if isArgument then suffixes fuel (.call e (← arguments inner) at_.line)
    else if at_.token = symbol "." then
      advance
      let key ← name
      suffixes fuel (.index e (.string (Text.bytes key)) at_.line)
    else if at_.token = symbol "[" then
      advance
      let key ← inner.expr 0
      expect (symbol "]")
      suffixes fuel (.index e key at_.line)
    else if at_.token = symbol ":" then
      advance
      let key ← name
      let callLine ← line
      suffixes fuel (.method e key (← arguments inner) callLine)
    else return e

def suffixed : Reader Expr := do
  let e ← primary inner
  suffixes inner (← rounds) e

def simple : Reader Expr := do
  let at_ ← current
  let constant := fun e => do
    advance
    return e
  match at_.token with
  | .number n => constant (.number n)
  | .string s => constant (.string s)
  | t =>
    if t = word "nil" then constant .nil
    else if t = word "true" then constant (.bool true)
    else if t = word "false" then constant (.bool false)
    else if t = symbol "..." then
      if (← get).takesRest then constant .rest else complain .restOutside
    else if t = symbol "\x7b" then table inner
    else if t = word "function" then
      advance
      return .function (← function inner [] at_.line)
    else suffixed inner

/-- How tightly a prefix operator binds. -/
def unaryBinding : Nat := 12

def unaryOp? (t : Token) : Option UnaryOp :=
  if t = word "not" then some .not
  else if t = symbol "-" then some .negate
  else if t = symbol "~" then some .complement
  else if t = symbol "#" then some .length
  else none

/-- The expression made of two operands. -/
inductive Operator
  | op (op : BinaryOp)
  | and
  | or

def Operator.apply (i : Operator) (left right : Expr) (line : Nat) : Expr :=
  match i with
  | op o => .binary o left right line
  | and => .and left right
  | or => .or left right

/-- An operator between operands, and how tightly it binds on its left and on its right. -/
def operator? (t : Token) : Option (Operator × Nat × Nat) :=
  let arith := fun o => Operator.op (.arith o)
  let comparison := fun c => Operator.op (.compare c)
  match t with
  | .word w =>
    if w = ("and" : Text) then some (.and, 2, 2)
    else if w = ("or" : Text) then some (.or, 1, 1)
    else none
  | .symbol s =>
    match String.ofList s with
    | "+" => some (arith .add, 10, 10)
    | "-" => some (arith .sub, 10, 10)
    | "*" => some (arith .mul, 11, 11)
    | "/" => some (arith .div, 11, 11)
    | "//" => some (arith .idiv, 11, 11)
    | "%" => some (arith .mod, 11, 11)
    | "^" => some (arith .pow, 14, 13)
    | ".." => some (.op .concat, 9, 8)
    | "<<" => some (arith .shl, 7, 7)
    | ">>" => some (arith .shr, 7, 7)
    | "&" => some (arith .band, 6, 6)
    | "~" => some (arith .bxor, 5, 5)
    | "|" => some (arith .bor, 4, 4)
    | "==" => some (comparison .equal, 3, 3)
    | "~=" => some (comparison .notEqual, 3, 3)
    | "<" => some (comparison .less, 3, 3)
    | "<=" => some (comparison .lessEqual, 3, 3)
    | ">" => some (comparison .greater, 3, 3)
    | ">=" => some (comparison .greaterEqual, 3, 3)
    | _ => none
  | _ => none

/-- The operators behind a left operand that bind more tightly than the limit. -/
def operators (limit : Nat) : Nat → Expr → Reader Expr
  | 0, left => return left
  | fuel + 1, left => do
    let at_ ← current
    match operator? at_.token with
    | some (i, onLeft, onRight) =>
      if limit < onLeft then
        advance
        let right ← inner.expr onRight
        operators limit fuel (i.apply left right at_.line)
      else return left
    | none => return left

def expr (limit : Nat) : Reader Expr := do
  let at_ ← current
  let first ←
    match unaryOp? at_.token with
    | some op => do
      advance
      pure (.unary op (← inner.expr unaryBinding) at_.line)
    | none => simple inner
  operators inner limit (← rounds) first

/-! ### Statements -/

/-- The arms of a conditional from a condition on. -/
def arms (opening : Nat) : Nat → Reader Statement
  | 0 => complain .unexpectedSymbol
  | fuel + 1 => do
    let condition ← inner.expr 0
    expect (word "then")
    let body ← block inner
    if ← accept (word "elseif") then
      return .conditional condition body [← arms opening fuel]
    else
      let otherwise ← if ← accept (word "else") then block inner else pure []
      close (word "end") (word "if") opening
      return .conditional condition body otherwise

/-- How many variables a counting loop keeps besides its own. -/
def countVariables : Nat := 3

/-- How many variables an iteration keeps besides its own. -/
def iterationVariables : Nat := 4

def forLoop (opening : Nat) : Reader Statement := inScope do
  let first ← name
  let at_ ← current
  let finish : Reader (List Statement) := do
    expect (word "do")
    let body ← loopBody inner
    close (word "end") (word "for") opening
    return body
  if at_.token = symbol "=" then
    declare (countVariables + 1)
    advance
    let start ← inner.expr 0
    expect (symbol ",")
    let limit ← inner.expr 0
    let step ← if ← accept (symbol ",") then inner.expr 0 else pure (.number (.int 1))
    return .countLoop first start limit step (← finish) opening
  else if at_.token = symbol "," ∨ at_.token = word "in" then
    declare (iterationVariables + 1)
    let more ←
      if ← accept (symbol ",") then separated (symbol ",") newName (← rounds) else pure []
    expect (word "in")
    let callLine ← line
    let values ← exprs inner
    return .iteration (first :: more) values (← finish) callLine
  else complain (.expected "'=' or 'in'")

/-- The fields that follow the name of a function that is being defined. -/
def namePath : Nat → Expr → Reader Expr
  | 0, e => return e
  | fuel + 1, e => do
    if ← accept (symbol ".") then
      let key ← name
      namePath fuel (.index e (.string (Text.bytes key)) (← line))
    else return e

def functionStatement (opening : Nat) : Reader Statement := do
  let first ← name
  let path ← namePath (← rounds) (.name first opening)
  if ← accept (symbol ":") then
    let key ← name
    let target := Expr.index path (.string (Text.bytes key)) opening
    return .assign [target] [.function (← function inner ["self"] opening)]
  else return .assign [path] [.function (← function inner [] opening)]

def isTarget : Expr → Bool
  | .name .. | .index .. => true
  | _ => false

def isCall : Expr → Bool
  | .call .. | .method .. => true
  | _ => false

/-- The targets of an assignment behind its first one, and its values. -/
def assignment : Nat → List Expr → Reader Statement
  | 0, _ => complain .unexpectedSymbol
  | fuel + 1, targets => do
    unless (targets.getLast?.map isTarget).getD false do complain .noStatement
    if ← accept (symbol ",") then
      let next ← suffixed inner
      assignment fuel (targets ++ [next])
    else
      expect (symbol "=")
      return .assign targets (← exprs inner)

def exprStatement : Reader Statement := do
  let e ← suffixed inner
  let t := (← current).token
  if t = symbol "=" ∨ t = symbol "," then assignment inner (← rounds) [e]
  else if isCall e then return .call e
  else complain .noStatement

def localStatement (opening : Nat) : Reader Statement := do
  if ← accept (word "function") then
    let n ← newName
    return .localFunction n (← function inner [] opening)
  else
    let names ← separated (symbol ",") newName (← rounds)
    if ← accept (symbol "=") then return .locals names (← exprs inner)
    else return .locals names []

def returnStatement : Reader Statement := do
  let values ←
    if (← endsBlock true) || (← isAt (symbol ";")) then pure [] else exprs inner
  let _ ← accept (symbol ";")
  return .returning values

def breakStatement (at_ : Nat) : Reader Statement := do
  modify fun s =>
    if s.inLoop then s else { s with strayBreak := some (s.strayBreak.getD at_) }
  return .breaking

def statement : Reader Statement := do
  let at_ ← current
  let opening := at_.line
  match at_.token with
  | .symbol [';'] =>
    advance
    return .block []
  | .word w =>
    match String.ofList w with
    | "if" =>
      advance
      arms inner opening (← rounds)
    | "while" =>
      advance
      let condition ← inner.expr 0
      expect (word "do")
      let body ← loopBody inner
      close (word "end") (word "while") opening
      return .whileLoop condition body
    | "do" =>
      advance
      let body ← block inner
      close (word "end") (word "do") opening
      return .block body
    | "for" =>
      advance
      forLoop inner opening
    | "repeat" =>
      advance
      let body ← loopBody inner
      close (word "until") (word "repeat") opening
      return .untilLoop body (← inner.expr 0)
    | "function" =>
      advance
      functionStatement inner opening
    | "local" =>
      advance
      localStatement inner opening
    | "return" =>
      advance
      returnStatement inner
    | "break" =>
      advance
      breakStatement opening
    | _ => exprStatement inner
  | _ => exprStatement inner

/-- How deeply statements and expressions may be nested. -/
def maxNesting : Nat := 199

def grammar : Nat → Grammar
  | 0 =>
    let tooDeep := fun _ => complain fun _ => .tooDeep
    ⟨complain fun _ => .tooDeep, tooDeep⟩
  | n + 1 =>
    let inner := grammar n
    ⟨statement inner, expr inner⟩

def chunk : Reader (List Statement) := do
  let _ ← current
  let body ← block (grammar maxNesting)
  unless ← isAt .finish do complain (.expected endShown)
  refuseStrayBreak
  return body

end Reader

/-- The statements of a script. -/
def parse (script : Text) : Except ParseError (List Statement) :=
  (Reader.chunk.run ⟨tokens script, true, false, none, 0, 0⟩).map Prod.fst

end Stencil.Lua
