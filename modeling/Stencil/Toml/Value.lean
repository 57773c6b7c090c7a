import Stencil.Decimal
import Stencil.Text.Basic

/-! Values of TOML files, and how a string is written.

`Toml.insertAt` puts a value under a path of names, making the tables on the way; a table that is put
where there is one already is merged into it, name by name. -/
namespace Stencil

inductive Toml
  | bool (value : Bool)
  | integer (value : Int)
  | float (value : Float)
  | string (value : Text)
  /-- A date or a time, by its text. -/
  | date (text : Text)
  | array (items : List Toml)
  | table (entries : List (Text × Toml))

namespace Toml

instance : Inhabited Toml := ⟨table []⟩

/-! ### Access -/

def get? (name : Text) : Toml → Option Toml
  | table entries => (entries.find? (·.1 = name)).map Prod.snd
  | _ => none

def entries : Toml → List (Text × Toml)
  | table entries => entries
  | _ => []

def put (name : Text) (value : Toml) : List (Text × Toml) → List (Text × Toml)
  | [] => [(name, value)]
  | (k, v) :: rest => if k = name then (k, value) :: rest else (k, v) :: put name value rest

mutual

/-- The second value laid over the first one. -/
def merge (under : Toml) : Toml → Toml
  | table above => table (mergeEntries under.entries above)
  | value => value

def mergeEntries (under : List (Text × Toml)) : List (Text × Toml) → List (Text × Toml)
  | [] => under
  | (name, value) :: rest =>
    let old := (get? name (table under)).getD (table [])
    mergeEntries (put name (merge old value) under) rest

end

def insertAt (value : Toml) : List Text → Toml → Toml
  | [], under => merge under value
  | name :: names, under =>
    let old := (get? name under).getD (table [])
    table (put name (insertAt value names old) under.entries)

/-! ### Strings -/

def hexDigits (n : Nat) : Text :=
  let digits := (Nat.toDigits 16 n).map Char.toUpper
  Text.repeated '0' (4 - digits.length) ++ digits

def needsCode (c : Char) : Bool :=
  (c.toNat < 0x20 && c != '\t' && c != '\n') || c == '\x7f'

/-- A character between double quotes; on a line of its own a line feed is itself. -/
def escapeChar (isMultiline : Bool) (c : Char) : Text :=
  if c = '"' then if isMultiline then ['"'] else ['\\', '"']
  else if c = '\\' then ['\\', '\\']
  else if c = '\n' then if isMultiline then ['\n'] else ['\\', 'n']
  else if c = '\t' then ['\\', 't']
  else if c = '\r' then ['\\', 'r']
  else if c = '\x08' then ['\\', 'b']
  else if c = '\x0C' then ['\\', 'f']
  else if needsCode c then '\\' :: 'u' :: hexDigits c.toNat
  else [c]

/-- The length of the longest run of a character. -/
def longestRun (c : Char) (t : Text) : Nat :=
  (t.foldl (fun (longest, run) d =>
    let run := if d = c then run + 1 else 0
    (max longest run, run)) (0, 0)).1

/-- A string in the plainest quotes that it can be written between without an escape, and in double
quotes if there are none. -/
def quoted (t : Text) : Text :=
  let hasCode := t.any needsCode
  let hasEscape := t.contains ['\\']
  let isMultiline := t.contains ['\n']
  let doubles := longestRun '"' t
  let singles := longestRun '\'' t
  let inDoubles := '"' :: (t.flatMap (escapeChar false) ++ ['"'])
  let inTriples := "\"\"\"\n" ++ t.flatMap (escapeChar true) ++ "\"\"\""
  if !hasCode && !hasEscape && doubles = 0 && !isMultiline then inDoubles
  else if !hasCode && singles = 0 && !isMultiline then '\'' :: (t ++ ['\''])
  else if !hasCode && !hasEscape && doubles ≤ 2 then inTriples
  else if !hasCode && singles ≤ 2 then "'''\n" ++ t ++ "'''"
  else if isMultiline then inTriples
  else inDoubles

end Toml
end Stencil
