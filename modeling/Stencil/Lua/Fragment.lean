import Stencil.Lua.Run

/-! The part of the language that text templates need.

The interpreter is one implementation of the language, and no complete one: its reader knows no
`goto`, no labels and no attributes of variables, and none of the limits of a code generator, such
as on the length of a loop; of the libraries it has the functions that its modules list. A basic
script is one that asks for none of that. It prints literals and the counters of its loops, counts
from one integer to another, and tests variables of the template. `Engine.RunsBasic` is what an
implementation owes for such scripts, as far as it can load them and has room for what they output.
-/
namespace Stencil.Lua

/-- An expression made of literals, counters and calls of `str`. -/
inductive Expr.IsBasic (counters : List Text) : Expr → Prop
  | string (s : Bytes) : IsBasic counters (.string s)
  | integer (i : Int64) : IsBasic counters (.number (.int i))
  | negative (i : Int64) (line : Nat) :
    IsBasic counters (.unary .negate (.number (.int i)) line)
  | name {n : Text} (h : n ∈ counters) (line : Nat) : IsBasic counters (.name n line)
  | str {e : Expr} (h : IsBasic counters e) (line : Nat) :
    IsBasic counters (.call (.name "str" line) [e] line)

/-- Statements that print and count, with these counters in sight, and test variables. A variable of
the template is tested and never shown: what an implementation shows for it may be an address. -/
inductive Statement.AreBasic (tested : List Text) : List Text → List Statement → Prop
  | done {counters : List Text} : AreBasic tested counters []
  | print {counters : List Text} {arguments : List Expr} {rest : List Statement} {line : Nat}
    (harguments : ∀ a ∈ arguments, a.IsBasic counters) (hrest : AreBasic tested counters rest) :
    AreBasic tested counters (.call (.call (.name "print" line) arguments line) :: rest)
  | countLoop {counters : List Text} {name : Text} {start limit step : Expr}
    {body rest : List Statement} {line : Nat} (hstart : start.IsBasic counters)
    (hlimit : limit.IsBasic counters) (hstep : step.IsBasic counters)
    (hbody : AreBasic tested (name :: counters) body) (hrest : AreBasic tested counters rest) :
    AreBasic tested counters (.countLoop name start limit step body line :: rest)
  | conditional {counters : List Text} {name : Text} {line : Nat}
    {body otherwise rest : List Statement} (hname : name ∈ tested)
    (hbody : AreBasic tested counters body) (hotherwise : AreBasic tested counters otherwise)
    (hrest : AreBasic tested counters rest) :
    AreBasic tested counters (.conditional (.name name line) body otherwise :: rest)

/-- The global variables that make the others strict, and the one that `str` asks. -/
def neededNames : List Text := ["_G".toList, "setmetatable".toList, "tostring".toList]

/-- No variable and no function of the host hides what every script needs. -/
structure Unhidden (scope : Scope) (functions : Table HostFunction) : Prop where
  scope : ∀ name ∈ neededNames, name ∉ scope.names
  functions : ∀ name ∈ neededNames ++ Settings.reservedNames, name ∉ functions.names

variable {σ : Type}

/-- What a basic script outputs that the engine can load is what the interpreter has for it, as long
as it finds what it needs. -/
def Engine.RunsBasic (E : Engine σ) : Prop :=
  ∀ (r : Request) (host : Host σ) (s s' : σ) (body : List Statement) (output : Text),
    Unhidden r.scope r.functions → parse r.code = .ok body →
      Statement.AreBasic r.scope.names [] body → E.load r.code = .ok () →
        (interpreter.run r host).run s = (.ok output, s') → (E.run r host).run s = (.ok output, s')

end Stencil.Lua
