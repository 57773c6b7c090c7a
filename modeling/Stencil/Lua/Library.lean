import Stencil.Lua.Library.Core
import Stencil.Lua.Library.Strings
import Stencil.Lua.Library.Tables
import Stencil.Lua.Library.Maths
import Stencil.Lua.Library.Templates

/-! The functions and tables that every script begins with.

There is nothing here that reads a file or another script, and of the functions of the language only
what the modules of the library list: there is no `xpcall` or `collectgarbage`, no `string.format`
and none of the functions that search for patterns, no `table.sort` or `table.move`, and of `utf8`
no more than the pattern of a character. A script that asks for one of them finds nothing there. The
variables of the template come after the functions of the language and before those of templates, so
that a variable can hide the former and is hidden by the latter. -/
namespace Stencil.Lua

/-- The name that a function has where it was defined. -/
def Native.name (f : Native) : Text :=
  let within := fun (library : Text) (name : Option Text) => library ++ name.getD "?"
  let find {α : Type} [BEq α] (all : List (Text × α)) (a : α) : Option Text :=
    (all.find? (·.2 == a)).map Prod.fst
  match f with
  | .core f => (find CoreFunction.named f).getD "for iterator"
  | .string f => within "string." (find StringFunction.named f)
  | .table f => within "table." (find TableFunction.named f)
  | .math f => within "math." (find MathFunction.named f)
  | .template f => within "" (find TemplateFunction.named f)
  | .host name => name

variable {σ : Type}

/-- A function that is called by a name, or by the one where it was defined. -/
def Native.called (f : Native) (naming : Option Naming) (arguments : List Value) : Call :=
  { name := (naming.map Naming.name).getD f.name
    isMethod := naming.any fun n => n.kind == "method".toList
    arguments }

def callNative (invoke : Invoke σ) (context : Context σ) (f : Native) (c : Call) :
    Eval σ (List Value) :=
  match f with
  | .core f => callCore invoke f c
  | .string f => callString f c
  | .table f => callTable invoke f c
  | .math f => callMath f c
  | .template f => callTemplate invoke context f c
  | .host name => callHost context name c

/-! ### The first tables -/

def tableOf {α : Type} (value : α → Value) (entries : List (Text × α)) : Object :=
  entries.foldl (fun o (name, a) => o.setText name (value a)) {}

def functionsOf {α : Type} (native : α → Native) (entries : List (Text × α)) : Object :=
  tableOf (fun f => Value.native (native f)) entries

def setGlobal (name : Text) (v : Value) : Eval σ Unit :=
  Eval.changeObject globals (·.setText name v)

def setGlobals (o : Object) : Eval σ Unit :=
  o.fields.forM fun (key, v) => Eval.changeObject globals (·.set key v)

def unicodeCharPattern : Bytes := [91, 0, 45, 0x7F, 0xC2, 45, 0xFD, 93, 91, 0x80, 45, 0xBF, 93, 42]

/-- The global variables of the language. -/
def installLanguage : Eval σ Unit := do
  let strings ← do
    let _ ← Eval.newTable (functionsOf .core CoreFunction.named)
    let metatable ← Eval.newTable {}
    let strings ← Eval.newTable (functionsOf .string StringFunction.named)
    Eval.changeObject metatable (·.setText "__index" (.table strings))
    pure strings
  let tables ← Eval.newTable (functionsOf .table TableFunction.named)
  let maths ← Eval.newTable
    (mathConstants.foldl (fun o (name, n) => o.setText name (.number n))
      (functionsOf .math MathFunction.named))
  let unicode ← Eval.newTable (Object.setText {} "charpattern" (.string unicodeCharPattern))
  setGlobal "_G" (.table globals)
  setGlobal "_VERSION" (.ofText "Lua 5.4")
  setGlobal "string" (.table strings)
  setGlobal "table" (.table tables)
  setGlobal "math" (.table maths)
  setGlobal "utf8" (.table unicode)

/-- The variables of the template, and the functions for templates and of the host. -/
def installTemplate (context : Context σ) : Eval σ Unit := do
  context.scope.entries.forM fun (name, j) => do setGlobal name (← ofJson j)
  setGlobals (functionsOf .template TemplateFunction.named)
  setGlobals (functionsOf Native.host (context.functions.names.map fun name => (name, name)))

end Stencil.Lua
