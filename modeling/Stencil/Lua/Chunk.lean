import Stencil.Lua.Number
import Stencil.Text.Utf8

/-! The syntax of scripts.

An expression or statement that can fail when it is run knows its line. -/
namespace Stencil.Lua

inductive UnaryOp
  | negate
  | complement
  | not
  | length
deriving Repr, DecidableEq

inductive Comparison
  | equal
  | notEqual
  | less
  | lessEqual
  | greater
  | greaterEqual
deriving Repr, DecidableEq

inductive BinaryOp
  | arith (operation : Number.Operation)
  | concat
  | compare (comparison : Comparison)
deriving Repr, DecidableEq

mutual

inductive Expr
  | nil
  | bool (value : Bool)
  | number (value : Number)
  | string (value : Bytes)
  /-- The arguments beyond the parameters of the function. -/
  | rest
  | function (body : Function)
  | name (name : Text) (line : Nat)
  | index (object key : Expr) (line : Nat)
  | call (function : Expr) (arguments : List Expr) (line : Nat)
  /-- A call of a function found in an object, with the object as its first argument. -/
  | method (object : Expr) (name : Text) (arguments : List Expr) (line : Nat)
  | unary (op : UnaryOp) (operand : Expr) (line : Nat)
  | binary (op : BinaryOp) (left right : Expr) (line : Nat)
  | and (left right : Expr)
  | or (left right : Expr)
  /-- In parentheses a call has one value. -/
  | paren (inner : Expr)
  | table (fields : List Field)

inductive Field
  | item (value : Expr)
  /-- Knows the line that its value ends on. -/
  | entry (key value : Expr) (line : Nat)

inductive Function
  | mk (parameters : List Text) (takesRest : Bool) (body : List Statement) (line : Nat)

inductive Statement
  | locals (names : List Text) (values : List Expr)
  | assign (targets values : List Expr)
  | call (call : Expr)
  | block (body : List Statement)
  | whileLoop (condition : Expr) (body : List Statement)
  /-- The condition sees the variables of the body. -/
  | untilLoop (body : List Statement) (condition : Expr)
  | conditional (condition : Expr) (body otherwise : List Statement)
  | countLoop (name : Text) (start limit step : Expr) (body : List Statement) (line : Nat)
  | iteration (names : List Text) (values : List Expr) (body : List Statement) (line : Nat)
  | localFunction (name : Text) (body : Function)
  | breaking
  | returning (values : List Expr)

end

instance : Inhabited Expr := ⟨.nil⟩

instance : Inhabited Statement := ⟨.breaking⟩

instance : Inhabited Function := ⟨.mk [] false [] 0⟩

end Stencil.Lua
