import Stencil.Text.Basic

/-! Paths of templates.

A path is a text with `/` between its components. `Path.parent?` and `Path.join` work on the text
and keep what they do not cut; `Path.normalize` resolves `.` and `..` without looking at any disk,
and gives the list of components that names a template held in memory. -/
namespace Stencil

abbrev Path := Text

namespace Path

def isAbsolute (p : Path) : Bool := p.head? == some '/'

/-! ### The text of a path -/

/-- The pieces of a path without those at the end that name nothing: empty ones and `.`. -/
def trimPieces (pieces : List Text) : List Text :=
  (pieces.reverse.dropWhile fun piece => piece == [] || piece == ['.']).reverse

/-- What comes before the pieces of a path: the root, or the `.` that it starts with. -/
def anchor (p : Path) : Text :=
  match p with
  | '/' :: _ => ['/']
  | ['.'] => ['.']
  | '.' :: '/' :: _ => ['.']
  | _ => []

/-- The directory that a path lies in; the root and the empty path lie in none. -/
def parent? (p : Path) : Option Path :=
  let start := anchor p
  match trimPieces (Text.splitOn '/' (p.drop start.length)) with
  | [] => if start = ['.'] then some [] else none
  | pieces => some (start ++ Text.join "/" (trimPieces pieces.dropLast))

/-- A path as seen from a directory. -/
def join (directory path : Path) : Path :=
  if isAbsolute path || directory == [] then path
  else if directory.getLast? == some '/' then directory ++ path
  else directory ++ '/' :: path

/-! ### Components -/

inductive Component
  | root
  /-- `..` -/
  | parent
  | name (name : Text)
deriving Repr, DecidableEq

/-- The components of a path; empty pieces and `.` are none. -/
def components (p : Path) : List Component :=
  let pieces := (Text.splitOn '/' p).filterMap fun piece =>
    if piece = [] ∨ piece = ['.'] then none
    else if piece = ['.', '.'] then some .parent
    else some (.name piece)
  if isAbsolute p then .root :: pieces else pieces

/-- One more component, on components in reverse order. A `..` takes back the component before it,
if there is one that is not the root. -/
def resolve (done : List Component) : Component → List Component
  | .parent =>
    match done with
    | [] => [.parent]
    | .root :: _ => .parent :: done
    | _ :: outer => outer
  | component => component :: done

/-- The components that a path comes down to. -/
def normalize (p : Path) : List Component := ((components p).foldl resolve []).reverse

def Component.text : Component → Text
  | root => []
  | parent => "..".toList
  | name n => n

/-- The path with these components. -/
def ofComponents : List Component → Path
  | [.root] => "/"
  | components => Text.join "/" (components.map Component.text)

/-- Texts that compare as the components do: the root, then `..`, then names in byte order. -/
def Component.orderKey : Component → Text
  | root => ['\x00']
  | parent => ['\x01']
  | name n => '\x02' :: n

/-- Component by component. -/
def before (a b : List Component) : Bool :=
  decide (a.map Component.orderKey < b.map Component.orderKey)

end Path
end Stencil
