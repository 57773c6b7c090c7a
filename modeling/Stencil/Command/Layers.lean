import Stencil.Command.Configuration
import Stencil.Toml.Document

/-! A package for configurations.

Files are TOML documents, and their names may lack the ending. A name with dots in a file, and one
with double underscores in the environment, stands for the way through sections. A value is taken
for what is asked for where that makes any sense. -/
namespace Stencil.Configuration

/-! ### Values -/

def lower (t : Text) : Text := t.map Char.toLower

def isYes (t : Text) : Bool := [("true" : Text), "on", "yes"].contains (lower t)

def isNo (t : Text) : Bool := [("false" : Text), "off", "no"].contains (lower t)

def numberOf? : Toml → Option Nat
  | .integer n => if 0 ≤ n then some n.toNat else none
  | .bool b => some b.toNat
  | .float x => some x.round.toUInt64.toNat
  | .string t =>
    if isYes t then some 1
    else if isNo t then some 0
    else
      let digits := (Text.after? ['+'] t).getD t
      if digits ≠ [] ∧ digits.all isAsciiDigit ∧ Text.digitsValue digits < 0x10000000000000000 then
        some (Text.digitsValue digits)
      else none
  | _ => none

def flagOf? : Toml → Option Bool
  | .bool b => some b
  | .integer n => some (n != 0)
  | .float x => some (x != 0)
  | .string t =>
    if isYes t ∨ t = ['1'] then some true
    else if isNo t ∨ t = ['0'] then some false
    else none
  | _ => none

def textOf? : Toml → Option Text
  | .string t | .date t => some t
  | .bool b => some (if b then "true" else "false")
  | .integer n => some (Json.intText n)
  | .float x => some (Decimal.plainText x)
  | _ => none

/-! ### Layers -/

/-- The names that a dotted name goes through; a name that is not made so is taken whole. -/
def namePath (name : Text) : List Text :=
  let pieces := Text.splitOn '.' name
  if pieces.all fun p => p ≠ [] && p.all Toml.Scan.isBare then pieces else [name]

def addFile (tree file : Toml) : Toml :=
  file.entries.foldl (fun tree (name, v) => Toml.insertAt v (namePath name) tree) tree

/-- The value that a text in the environment stands for. -/
def variableValue (t : Text) : Toml :=
  let (negative, digits) := Toml.Scan.signed t
  let apply := fun (x : Float) => Toml.float (if negative then -x else x)
  let word := lower digits
  if lower t = ("true" : Text) then .bool true
  else if lower t = ("false" : Text) then .bool false
  else if digits ≠ [] ∧ digits.all isAsciiDigit
      ∧ Toml.Scan.inRange (if negative then -(Text.digitsValue digits : Int)
        else Text.digitsValue digits) then
    .integer (if negative then -(Text.digitsValue digits : Int) else Text.digitsValue digits)
  else if word = ("inf" : Text) ∨ word = ("infinity" : Text) then
    apply (Float.ofBits 0x7FF0000000000000)
  else if word = ("nan" : Text) then apply (Float.ofBits 0x7FF8000000000000)
  else
    match Decimal.readFloat? digits with
    | some x => apply x
    | none => .string t

/-- The name with a dot for each two underscores. -/
def dotted : Text → Text
  | '_' :: '_' :: rest => '.' :: dotted rest
  | c :: rest => c :: dotted rest
  | [] => []

/-- The dotted name of the value that a variable sets. -/
def variableName? (mark name : Text) : Option Text :=
  (Text.after? (lower mark) (lower name)).map dotted

def addVariables (mark : Text) (tree : Toml) (e : Variables.Environment) : Toml :=
  e.foldl (fun tree (name, v) =>
    match variableName? mark name with
    | some name => Toml.insertAt (variableValue v) (namePath name) tree
    | none => tree) tree

/-! ### Files -/

/-- Files in TOML, with or without the ending of such files in their names. -/
def Package.standard : Package where
  names path := [path, path ++ ".toml"]
  document? contents := Toml.document? contents.withoutMark.text
  overFile := addFile
  overVariables := addVariables
  number? := numberOf?
  flag? := flagOf?
  text? := textOf?

end Stencil.Configuration
