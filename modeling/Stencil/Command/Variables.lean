import Stencil.Path
import Stencil.Text.Blank
import Stencil.Text.Utf8
import Stencil.Text.WordChar

/-! Environment variables, and files of them.

What is made of a file of variables is left to a `Variables.Package`. In the `standard` one a line
sets a variable, `NAME=value`, or is blank or a comment; quotes can take a value over several
lines. Between single quotes a value stands for itself, elsewhere a backslash takes the meaning
off a character and `$` puts in another variable. The reading ends at the first line that is not
so; what was read before it counts. -/
namespace Stencil.Variables

abbrev Environment := List (Text × Text)

def get? (e : Environment) (name : Text) : Option Text :=
  (e.find? (·.1 = name)).map Prod.snd

/-- A package that adds the variables of a file to the environment. -/
structure Package where
  /-- Where the file is looked for, from a directory on. -/
  places : Path → List Path
  /-- The environment with the variables of a file. -/
  add : Environment → Bytes → Environment

/-! ### Lines -/

/-- Where a character stands in the lines of a file. -/
inductive Place
  | plain
  | blank
  | escaped
  | single
  | singleEscaped
  | double
  | doubleEscaped
  | comment
deriving Repr, DecidableEq

def Place.afterPlain (c : Char) : Place :=
  if c = '\\' then .escaped else if c = '"' then .double else if c = '\'' then .single else .plain

def Place.next (p : Place) (c : Char) : Place :=
  match p with
  | .plain => if isBlank c && c != '\n' && c != '\r' then .blank else afterPlain c
  | .blank => if c = '#' then .comment else afterPlain c
  | .escaped => .plain
  | .single => if c = '\\' then .singleEscaped else if c = '\'' then .plain else .single
  | .singleEscaped => .single
  | .double => if c = '\\' then .doubleEscaped else if c = '"' then .plain else .double
  | .doubleEscaped => .double
  | .comment => .comment

/-- A line up to a comment in it, and the place behind it. -/
def scanLine : Place → Text → Text × Place
  | p, [] => ([], p)
  | p, c :: cs =>
    match p.next c with
    | .comment => ([], .comment)
    | q =>
      let (rest, last) := scanLine q cs
      (c :: rest, last)

/-- The lines of a text, each with its line feed. -/
def rawLines (t : Text) : List Text :=
  let pieces := (Text.splitOn '\n' t).map (· ++ ['\n'])
  match pieces.getLast? with
  | some ['\n'] => pieces.dropLast
  | some last => pieces.dropLast ++ [last.dropLast]
  | none => []

def dropLineEnd (t : Text) : Text :=
  match Text.before? ['\n'] t with
  | some t => (Text.before? ['\r'] t).getD t
  | none => t

def isComment (t : Text) : Bool := (Text.trimStart t).head? == some '#'

/-- The lines that belong together, with `none` where the text ends inside one. The first two
arguments are a line that has begun and the place where it stands. -/
def logicalLines (begun : Text) (place : Place) : List Text → List (Option Text)
  | [] => if place = .plain then [] else [none]
  | line :: rest =>
    if isComment (begun ++ line) then logicalLines [] .plain rest
    else
      match scanLine place line with
      | (_, .plain) => some (dropLineEnd (begun ++ line)) :: logicalLines [] .plain rest
      | (before, .comment) => some (begun ++ before) :: logicalLines [] .plain rest
      | (_, place) => logicalLines (begun ++ line) place rest

/-! ### Values -/

/-- How a `$` is being read. -/
inductive Insertion
  | none
  /-- A name that ends at the first other character. -/
  | bare (name : Text)
  /-- A name between braces. -/
  | braced (name : Text)

structure Reading where
  place : Place := .plain
  insertion : Insertion := .none
  /-- A blank has ended the value; only a comment may follow. -/
  isOver : Bool := false
  value : Text := []

/-- The reading behind one more character; none where it does not fit. -/
def Reading.next (find : Text → Text) (r : Reading) (c : Char) : Option Reading :=
  if r.isOver then if c = ' ' ∨ c = '\t' then some r else none
  else
    let add := fun (t : Text) => { r with value := r.value ++ t }
    match r.place, r.insertion with
    | .escaped, _ | .doubleEscaped, _ =>
      let place := if r.place = .escaped then .plain else .double
      if "\\'\"$ ".toList.contains c then some { add [c] with place }
      else if c = 'n' then some { add ['\n'] with place }
      else Option.none
    | .single, _ => if c = '\'' then some { r with place := .plain } else some (add [c])
    | _, .bare name =>
      if isLetterOrDigit c then some { r with insertion := .bare (name ++ [c]) }
      else if c = '\x7b' ∧ name = [] then some { r with insertion := .braced [] }
      else if c = '$' then some { add (find name) with insertion := .bare [] }
      else some { add (find name ++ [c]) with insertion := .none }
    | _, .braced name =>
      if c = '\x7d' then some { add (find name) with insertion := .none }
      else some { r with insertion := .braced (name ++ [c]) }
    | place, .none =>
      if c = '$' then some { r with insertion := .bare [] }
      else if place = .double then
        if c = '"' then some { r with place := .plain }
        else if c = '\\' then some { r with place := .doubleEscaped }
        else some (add [c])
      else if c = '\'' then some { r with place := .single }
      else if c = '"' then some { r with place := .double }
      else if c = '\\' then some { r with place := .escaped }
      else if c = ' ' ∨ c = '\t' then some { r with isOver := true }
      else some (add [c])

def readValue (find : Text → Text) (r : Reading) : Text → Option Text
  | [] =>
    match r.place, r.insertion with
    | .single, _ | .double, _ | _, .braced _ => none
    | _, .bare name => some (r.value ++ find name)
    | _, .none => some r.value
  | c :: cs =>
    if r.isOver ∧ c = '#' then readValue find r []
    else (r.next find c).bind fun r => readValue find r cs

/-! ### Assignments -/

def readName? (t : Text) : Option (Text × Text) :=
  let isPart := fun c => isAsciiLetter c || isAsciiDigit c || c == '_' || c == '.'
  match t with
  | c :: _ =>
    if isAsciiLetter c || c == '_' then some (t.takeWhile isPart, Text.trimStart (t.dropWhile isPart))
    else none
  | [] => none

/-- The name of an assignment, which `export` may stand before, and what is behind its `=`. -/
def readTarget? (t : Text) : Option (Text × Text) := do
  let (name, rest) ← readName? t
  match Text.after? ['='] rest with
  | some value => some (name, value)
  | none =>
    if name = ("export" : Text) then
      let (name, rest) ← readName? rest
      let value ← Text.after? ['='] rest
      some (name, value)
    else none

/-- The variable that a line sets; none inside for a blank line. -/
def readLine? (find : Text → Text) (line : Text) : Option (Option (Text × Text)) := do
  let line := Text.trimStart line
  if line = [] ∨ line.head? = some '#' then return none
  let (name, value) ← readTarget? line
  let value := Text.trimStart value
  if value = [] ∨ value.head? = some '#' then return some (name, [])
  return some (name, ← readValue find {} value)

/-- The environment with the variables of a file that are not set in it. The variables that the
file has set so far can be put into later values. -/
def addLines (e : Environment) (seen : Environment) : List (Option Text) → Environment
  | [] | none :: _ => e
  | some line :: rest =>
    let find := fun name => ((get? e name).or (get? seen name)).getD []
    match readLine? find line with
    | none => e
    | some none => addLines e seen rest
    | some (some (name, value)) =>
      let e' := if (get? e name).isSome then e else e ++ [(name, value)]
      addLines e' ((name, value) :: seen) rest

/-! ### Files -/

/-- The paths of a name in a directory and in those around it. -/
def around (name : Text) : Nat → Path → List Path
  | 0, _ => []
  | n + 1, directory =>
    Path.join directory name :: match directory.parent? with
      | some outer => around name n outer
      | none => []

/-- The text of the lines before the first one that is not UTF-8. -/
def validLines (bytes : Bytes) : Text :=
  let lines := (bytes.splitOn 10).map Bytes.text?
  if lines.all Option.isSome then Text.join "\n" (lines.map (·.getD []))
  else ((lines.takeWhile Option.isSome).map fun l => l.getD [] ++ ['\n']).flatten

/-- The nearest file with the name `.env`. -/
def Package.standard : Package where
  places directory := around ".env" (directory.length + 1) directory
  add e file := addLines e [] (logicalLines [] .plain (rawLines (validLines file.withoutMark)))

end Stencil.Variables
