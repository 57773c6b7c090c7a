import Stencil.Error

/-! Templates held in memory.

A file is known by the components that its path comes down to, so that every spelling of a path
names the same file. The view is `read?`. -/
namespace Stencil

structure Files where
  /-- Each list of components once. -/
  entries : List (List Path.Component × Text)

namespace Files

def empty : Files := ⟨[]⟩

def read? (f : Files) (path : Path) : Option Text :=
  (f.entries.find? (·.1 = Path.normalize path)).map Prod.snd

def exists? (f : Files) (path : Path) : Bool := (f.read? path).isSome

/-- The text of a file; a failure names the path as given. -/
def load (f : Files) (path : Path) : Except Error Text :=
  match f.read? path with
  | some text => .ok text
  | none => .error (.filesystem path "No such template in memory")

def remove (f : Files) (path : Path) : Files :=
  ⟨f.entries.filter (·.1 ≠ Path.normalize path)⟩

def insert (f : Files) (path : Path) (text : Text) : Files :=
  ⟨(Path.normalize path, text) :: (f.remove path).entries⟩

def ofList (files : List (Path × Text)) : Files :=
  files.foldl (fun f (path, text) => f.insert path text) empty

/-- The paths of all files, sorted component by component. -/
def paths (f : Files) : List Path :=
  ((f.entries.map Prod.fst).mergeSort fun a b => !Path.before b a).map Path.ofComponents

end Files
end Stencil
