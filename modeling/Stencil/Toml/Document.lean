import Stencil.Toml.Value

/-! Reading TOML files.

A document is a list of headers and of keys with values. It is built up as a tree that knows how
each of its tables came about, because that decides what may still be added to it: a table is
headed once, and keys with dots go only into tables that such keys have made. -/
namespace Stencil.Toml

/-! ### Documents -/

inductive Origin
  /-- A table on the way to one that has a header. -/
  | implied
  | header
  /-- Made by a key with dots. -/
  | dotted
deriving Repr, DecidableEq

inductive Node
  | value (value : Toml)
  | table (origin : Origin) (entries : List (Text × Node))
  /-- Tables under one header, the latest first. -/
  | tables (tables : List (List (Text × Node)))

abbrev Entries := List (Text × Node)

/-- The entries with the one of a name changed, or added. -/
def alter (name : Text) (f : Option Node → Option Node) : Entries → Option Entries
  | [] => (f none).map fun n => [(name, n)]
  | (k, n) :: rest =>
    if k = name then (f (some n)).map fun n => (k, n) :: rest
    else (alter name f rest).map ((k, n) :: ·)

/-- The change that a header makes at the end of its path. -/
def atHeader (change : Option Node → Option Node) : List Text → Entries → Option Entries
  | [], entries => some entries
  | [name], entries => alter name change entries
  | name :: names, entries =>
    alter name (fun
      | none => (atHeader change names []).map (.table .implied)
      | some (.table origin inner) => (atHeader change names inner).map (.table origin)
      | some (.tables (latest :: earlier)) =>
        (atHeader change names latest).map fun latest => .tables (latest :: earlier)
      | _ => none) entries

def openTable : Option Node → Option Node
  | none => some (.table .header [])
  | some (.table .implied entries) => some (.table .header entries)
  | _ => none

def openNext : Option Node → Option Node
  | none => some (.tables [[]])
  | some (.tables tables) => some (.tables ([] :: tables))
  | _ => none

/-- The entries with a value under a key. -/
def addKey (value : Toml) : List Text → Entries → Option Entries
  | [], _ => none
  | [name], entries => alter name (fun old => if old.isNone then some (.value value) else none) entries
  | name :: names, entries =>
    alter name (fun
      | none => (addKey value names []).map (.table .dotted)
      | some (.table .dotted inner) => (addKey value names inner).map (.table .dotted)
      | _ => none) entries

/-- A change inside the table of a header. -/
def inside (change : Entries → Option Entries) : List Text → Entries → Option Entries
  | [], entries => change entries
  | name :: names, entries =>
    alter name (fun
      | some (.table origin inner) => (inside change names inner).map (.table origin)
      | some (.tables (latest :: earlier)) =>
        (inside change names latest).map fun latest => .tables (latest :: earlier)
      | _ => none) entries

mutual

def Node.toToml : Node → Toml
  | .value v => v
  | .table _ entries => .table (entriesToToml entries)
  | .tables tables => .array (tablesToToml tables).reverse

def entriesToToml : List (Text × Node) → List (Text × Toml)
  | [] => []
  | (name, n) :: rest => (name, n.toToml) :: entriesToToml rest

def tablesToToml : List (List (Text × Node)) → List Toml
  | [] => []
  | entries :: rest => .table (entriesToToml entries) :: tablesToToml rest

end

/-! ### Reading characters -/

abbrev Scan := StateT Text Option

namespace Scan

variable {α : Type}

def peek : Scan (Option Char) := return (← get).head?

def accept (part : Text) : Scan Bool := do
  match Text.after? part (← get) with
  | some rest =>
    set rest
    return true
  | none => return false

def expect (part : Text) : Scan Unit := do
  unless ← accept part do failure

def char : Scan Char := do
  match ← get with
  | c :: rest =>
    set rest
    return c
  | [] => failure

def takeWhile (p : Char → Bool) : Scan Text := do
  let t ← get
  set (t.dropWhile p)
  return t.takeWhile p

/-- Enough for any loop that passes a character in each round. -/
def rounds : Scan Nat := return (← get).length + 1

def skipBlanks : Scan Unit := do
  let _ ← takeWhile fun c => c == ' ' || c == '\t'

/-- A character that may stand in a comment or a string. -/
def isPlain (c : Char) : Bool := c == '\t' || (0x20 ≤ c.toNat && c != '\x7f')

def lineEnd : Scan Bool := do
  if ← accept "\n" then return true else accept "\r\n"

/-- Blanks and a comment, up to the end of a line. -/
def skipToLineEnd : Scan Unit := do
  skipBlanks
  if ← accept "#" then
    let _ ← takeWhile isPlain

/-- Blanks, comments and ends of lines. -/
def skipLines : Nat → Scan Unit
  | 0 => return ()
  | n + 1 => do
    skipToLineEnd
    if ← lineEnd then skipLines n

/-! ### Strings -/

def hexValue (digits : Text) : Option Nat :=
  digits.foldlM (fun n c =>
    let d := c.toLower
    if isAsciiDigit d then some (n * 16 + (d.toNat - '0'.toNat))
    else if 'a' ≤ d ∧ d ≤ 'f' then some (n * 16 + (d.toNat - 'a'.toNat + 10))
    else none) 0

/-- The character that so many hexadecimal digits are the code of. -/
def codePoint (count : Nat) : Scan Char := do
  let digits := (← get).take count
  if digits.length < count then failure
  modify (·.drop count)
  match hexValue digits with
  | some n => if n.isValidChar then return Char.ofNat n else failure
  | none => failure

/-- What a backslash has made of the characters behind it. -/
def escape : Scan Char := do
  match ← char with
  | 'b' => return '\x08'
  | 't' => return '\t'
  | 'n' => return '\n'
  | 'f' => return '\x0C'
  | 'r' => return '\r'
  | '"' => return '"'
  | '\\' => return '\\'
  | 'u' => codePoint 4
  | 'U' => codePoint 8
  | _ => failure

def basicString : Nat → Scan Text
  | 0 => failure
  | n + 1 => do
    match ← char with
    | '"' => return []
    | '\\' =>
      let c ← escape
      return c :: (← basicString n)
    | c => if isPlain c then return c :: (← basicString n) else failure

def literalString : Scan Text := do
  let t ← takeWhile fun c => isPlain c && c != '\''
  expect "'"
  return t

/-- The quotes that end a long string: two more may stand before them. -/
def closing? (quote : Char) : Scan (Option Text) := do
  let run := ((← get).takeWhile (· == quote)).length
  if 3 ≤ run then
    let count := min run 5
    modify (·.drop count)
    return some (Text.repeated quote (count - 3))
  else return none

def isTrimmed (c : Char) : Bool := c == ' ' || c == '\t' || c == '\n' || c == '\r'

def longString (quote : Char) : Nat → Scan Text
  | 0 => failure
  | n + 1 => do
    if let some quotes ← closing? quote then return quotes
    if ← accept "\r\n" then return '\n' :: (← longString quote n)
    match ← char with
    | '\n' => return '\n' :: (← longString quote n)
    | '\\' =>
      if quote = '\'' then return '\\' :: (← longString quote n)
      let rest ← get
      if (rest.dropWhile fun c => c == ' ' || c == '\t' || c == '\r').head? = some '\n' then
        let _ ← takeWhile isTrimmed
        longString quote n
      else
        let c ← escape
        return c :: (← longString quote n)
    | c => if isPlain c then return c :: (← longString quote n) else failure

/-- A string on one line. -/
def shortString : Scan Text := do
  if ← accept "\"" then basicString (← rounds)
  else
    expect "'"
    literalString

def string : Scan Text := do
  let long := fun (quote : Char) => do
    let _ ← lineEnd
    longString quote (← rounds)
  if ← accept "\"\"\"" then long '"'
  else if ← accept "'''" then long '\''
  else shortString

/-! ### Numbers and dates -/

/-- Digits with single underscores between them. -/
def digits? (isDigit : Char → Bool) (t : Text) : Option Text :=
  let pieces := Text.splitOn '_' t
  if pieces.all fun p => p ≠ [] && p.all isDigit then some pieces.flatten else none

def inRange (n : Int) : Bool := -0x8000000000000000 ≤ n && n < 0x8000000000000000

def signed (t : Text) : Bool × Text :=
  match t with
  | '-' :: rest => (true, rest)
  | '+' :: rest => (false, rest)
  | _ => (false, t)

/-- The integer that a text spells in a base, behind the letter for it. -/
def based? (t : Text) : Option Int := do
  let read := fun (base : Nat) (rest : Text) => do
    let digits ← digits? (fun c => isAsciiDigit c || isAsciiLetter c) rest
    digits.foldlM (fun (n : Int) c => do
      let d ← hexValue [c]
      if d < base then some (n * base + d) else none) 0
  match t with
  | '0' :: 'x' :: rest => read 16 rest
  | '0' :: 'o' :: rest => read 8 rest
  | '0' :: 'b' :: rest => read 2 rest
  | _ => none

def wholeDigits? (t : Text) : Option Text := do
  let digits ← digits? isAsciiDigit t
  if digits.length = 1 ∨ digits.head? ≠ some '0' then some digits else none

def integer? (t : Text) : Option Toml := do
  let (negative, rest) := signed t
  let n ← (based? t).or ((wholeDigits? rest).map fun digits =>
    let n : Int := Text.digitsValue digits
    if negative then -n else n)
  if inRange n then some (.integer n) else none

def float? (t : Text) : Option Toml := do
  let (negative, rest) := signed t
  let apply := fun (x : Float) => Toml.float (if negative then -x else x)
  if rest = ("inf" : Text) then return apply (Float.ofBits 0x7FF0000000000000)
  if rest = ("nan" : Text) then return apply (Float.ofBits 0x7FF8000000000000)
  let isMark := fun c => c == 'e' || c == 'E'
  let (mantissa, exponent) := (rest.takeWhile (!isMark ·), rest.dropWhile (!isMark ·))
  let (whole, fraction) := (mantissa.takeWhile (· != '.'), mantissa.dropWhile (· != '.'))
  let whole ← wholeDigits? whole
  let fraction ← match fraction with
    | [] => some []
    | _ :: digits => digits? isAsciiDigit digits
  let exponent ← match exponent with
    | [] => some 0
    | _ :: e =>
      let (negative, e) := signed e
      (digits? isAsciiDigit e).map fun e =>
        let n : Int := Text.digitsValue e
        if negative then -n else n
  if mantissa.length = rest.length ∧ fraction = [] then none
  else return apply (Decimal.toFloat (Text.digitsValue (whole ++ fraction))
    (exponent - fraction.length))

/-- A number of so many digits that is not beyond two bounds, and what is behind it. -/
def counted? (count low high : Nat) (t : Text) : Option (Nat × Text) :=
  let digits := t.take count
  let n := Text.digitsValue digits
  if digits.length = count ∧ digits.all isAsciiDigit ∧ low ≤ n ∧ n ≤ high then
    some (n, t.drop count)
  else none

def daysIn (year month : Nat) : Nat :=
  if month = 2 then if year % 4 = 0 ∧ (year % 100 ≠ 0 ∨ year % 400 = 0) then 29 else 28
  else if [4, 6, 9, 11].contains month then 30
  else 31

/-- What is behind a date. -/
def afterDate? (t : Text) : Option Text := do
  let (year, t) ← counted? 4 0 9999 t
  let (month, t) ← counted? 2 1 12 (← Text.after? "-" t)
  let (_, t) ← counted? 2 1 (daysIn year month) (← Text.after? "-" t)
  return t

/-- A time, with as few digits behind the second as there can be, and what is behind it. -/
def time? (t : Text) : Option (Text × Text) := do
  let clock := t.take 8
  let (_, t) ← counted? 2 0 23 t
  let (_, t) ← counted? 2 0 59 (← Text.after? ":" t)
  let (_, t) ← counted? 2 0 60 (← Text.after? ":" t)
  match t with
  | '.' :: t =>
    let digits := t.takeWhile isAsciiDigit
    if digits = [] then failure
    match ((digits.take 9).reverse.dropWhile (· == '0')).reverse with
    | [] => return (clock, t.drop digits.length)
    | kept => return (clock ++ '.' :: kept, t.drop digits.length)
  | t => return (clock, t)

/-- How far a time is from the one at Greenwich, which need not be said. -/
def offset? (t : Text) : Option Text := do
  match t with
  | [] => return []
  | [z] => if z = 'Z' ∨ z = 'z' then return ['Z'] else failure
  | sign :: t =>
    let (hours, rest) ← counted? 2 0 23 t
    let (minutes, rest) ← counted? 2 0 59 (← Text.after? ":" rest)
    if (sign ≠ '+' ∧ sign ≠ '-') ∨ rest ≠ [] then failure
    return (if hours = 0 ∧ minutes = 0 then '+' else sign) :: t

/-- A date, a time or both, as it is shown. -/
def date? (t : Text) : Option Text := do
  match afterDate? t with
  | none =>
    let (time, rest) ← time? t
    if rest = [] then return time else failure
  | some [] => return t
  | some (mark :: rest) =>
    if mark ≠ 'T' ∧ mark ≠ 't' ∧ mark ≠ ' ' then failure
    let (time, rest) ← time? rest
    return t.take 10 ++ 'T' :: (time ++ (← offset? rest))

/-- Whether a text begins as a date or a time does. -/
def isDate (t : Text) : Bool :=
  let digits := (t.takeWhile isAsciiDigit).length
  let mark := (t.dropWhile isAsciiDigit).head?
  (digits == 4 && mark == some '-') || (digits == 2 && mark == some ':')

def scalar : Scan Toml := do
  let isPart := fun c => isAsciiDigit c || isAsciiLetter c || "+-._:".toList.contains c
  let t ← takeWhile isPart
  if t = ("true" : Text) then return .bool true
  else if t = ("false" : Text) then return .bool false
  else if isDate t then
    let behind := (← get).drop 1
    let isSplit := t.length = 10 ∧ (← peek) = some ' ' ∧ (behind.head?.map isAsciiDigit).getD false
    let t ← if isSplit then do
        modify (·.drop 1)
        pure (t ++ ' ' :: (← takeWhile isPart))
      else pure t
    return .date (← (date? t : Option Text))
  else
    match (integer? t).or (float? t) with
    | some v => return v
    | none => failure

/-! ### Keys and values -/

def isBare (c : Char) : Bool := isAsciiLetter c || isAsciiDigit c || c == '_' || c == '-'

def key : Scan Text := do
  match ← peek with
  | some '"' | some '\'' => shortString
  | _ =>
    let t ← takeWhile isBare
    if t = [] then failure else return t

def keyPath : Nat → Scan (List Text)
  | 0 => failure
  | n + 1 => do
    skipBlanks
    let first ← key
    skipBlanks
    if ← accept "." then return first :: (← keyPath n) else return [first]

variable (inner : Scan Toml)

/-- The items of an array behind its bracket. -/
def items : Nat → Scan (List Toml)
  | 0 => failure
  | n + 1 => do
    skipLines (← rounds)
    if ← accept "]" then return []
    let v ← inner
    skipLines (← rounds)
    if ← accept "," then return v :: (← items n)
    expect "]"
    return [v]

def pair : Scan (List Text × Toml) := do
  let path ← keyPath (← rounds)
  expect "="
  skipBlanks
  return (path, ← inner)

/-- The pairs of a table on one line, behind its brace. -/
def pairs : Nat → Entries → Scan Entries
  | 0, _ => failure
  | n + 1, entries => do
    let (path, v) ← pair inner
    let entries ← (addKey v path entries : Option Entries)
    skipBlanks
    if ← accept "," then pairs n entries
    else
      expect "\x7d"
      return entries

/-- How deeply arrays and tables on one line may be nested. -/
def maxNesting : Nat := 80

def value : Nat → Scan Toml
  | 0 => failure
  | n + 1 => do
    match ← peek with
    | some '"' | some '\'' => return .string (← string)
    | some '[' =>
      expect "["
      return .array (← items (value n) (← rounds))
    | some '\x7b' =>
      expect "\x7b"
      skipBlanks
      if ← accept "\x7d" then return .table []
      return .table (entriesToToml (← pairs (value n) (← rounds) []))
    | _ => scalar

/-! ### Lines -/

/-- One line of a document, read in the table of the latest header. -/
def line (root : Entries) (header : List Text) : Scan (Entries × List Text) := do
  if ← accept "[[" then
    let path ← keyPath (← rounds)
    expect "]]"
    return (← (atHeader openNext path root : Option Entries), path)
  else if ← accept "[" then
    let path ← keyPath (← rounds)
    expect "]"
    return (← (atHeader openTable path root : Option Entries), path)
  else
    let (path, v) ← pair (value maxNesting)
    return (← (inside (addKey v path) header root : Option Entries), header)

def lines : Nat → Entries → List Text → Scan Entries
  | 0, _, _ => failure
  | n + 1, root, header => do
    skipLines (← rounds)
    if (← get) = [] then return root
    let (root, header) ← line root header
    skipToLineEnd
    if (← get) = [] then return root
    unless ← lineEnd do failure
    lines n root header

end Scan

/-- The table that a document stands for. -/
def document? (t : Text) : Option Toml :=
  let scan : Scan Entries := do Scan.lines (← Scan.rounds) [] []
  (scan.run t).map fun (root, _) => .table (entriesToToml root)

end Stencil.Toml
