import Stencil.Command.World

/-! A directory tree.

Files are known by the names on the way to them. A path is followed name by name, and leads
nowhere as soon as it passes something that is no directory or leaves the tree. -/
namespace Stencil.Command

structure Disk where
  /-- The absolute path of the tree. -/
  root : Path
  files : List (List Text × Bytes)

namespace Disk

def read? (d : Disk) (names : List Text) : Option Bytes :=
  (d.files.find? (·.1 = names)).map Prod.snd

/-- A directory is one that a file lies in. -/
def isDirectory (d : Disk) (names : List Text) : Bool :=
  names.isEmpty || d.files.any fun f => names.length < f.1.length && names.isPrefixOf f.1

/-- Where components lead to from a directory. -/
def follow? (d : Disk) : List Text → List Path.Component → Option (List Text)
  | here, [] => some here
  | here, c :: rest =>
    if !d.isDirectory here then none
    else
      match c with
      | .root => none
      | .parent => if here = [] then none else follow? d here.dropLast rest
      | .name n => follow? d (here ++ [n]) rest

/-- The names that a path leads to; a relative path starts at the root of the tree. -/
def names? (d : Disk) (path : Path) : Option (List Text) :=
  let components := Path.components path
  if Path.isAbsolute path then
    let root := Path.components d.root
    if root.isPrefixOf components then d.follow? [] (components.drop root.length) else none
  else d.follow? [] components

def entry (d : Disk) (path : Path) : Entry :=
  match d.names? path with
  | none => .absent
  | some names =>
    match d.read? names with
    | some contents => if path.getLast? = some '/' then .absent else .file contents
    | none => if d.isDirectory names then .directory else .absent

/-- The tree with a file, in directories that are made for it. -/
def write (d : Disk) (path : Path) (contents : Bytes) : Disk :=
  let root := Path.components d.root
  let components := Path.components path
  let inside := if root.isPrefixOf components then components.drop root.length else components
  let names := inside.map Path.Component.text
  { d with files := (names, contents) :: d.files.filter (·.1 ≠ names) }

/-- The surroundings of a run in the root of the tree. -/
def world (d : Disk) (arguments : List Text) (environment : Variables.Environment)
    (input : Bytes) : World where
  arguments := arguments
  environment := environment
  directory := d.root
  find
    | .file path => some (d.entry path)
    | .standardInput => some (.file input)

end Disk
end Stencil.Command
