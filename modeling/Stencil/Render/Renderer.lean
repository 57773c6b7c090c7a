import Stencil.Render.Runtime
import Stencil.Script.Compile

/-! Rendering.

A template is compiled and its script is run; when the script includes another template, that one
is found, compiled and run in the same way, one level deeper. The levels that are left bound the
recursion, and an include beyond them is refused without looking for its target. A failure of a
script is told at the line of its template, and once more for every template that included it. -/
namespace Stencil

structure Renderer (σ : Type) where
  settings : Settings
  loader : Loader σ
  runtime : Runtime σ

/-- The output of a template and the code that was run for it. -/
structure Rendered where
  output : Text
  code : Text
deriving Repr, DecidableEq

namespace Renderer

variable {σ : Type}

/-! ### Loading and compiling -/

/-- The paths that a template is looked for at, in order. -/
def candidates (r : Renderer σ) (path : Path) : List Path :=
  [path, path ++ "." ++ r.settings.suffix]

/-- The template at the first of these paths that exists. -/
def loadFirst (r : Renderer σ) (attempted : List Path) : List Path → Attempt σ Template
  | [] => throw (.templateNotFound attempted)
  | path :: rest => do
    if ← r.loader.exists? path then
      return ⟨← r.loader.load path, some path⟩
    else loadFirst r attempted rest

def load (r : Renderer σ) (path : Path) : Attempt σ Template :=
  r.loadFirst (r.candidates path) (r.candidates path)

def compile (r : Renderer σ) (t : Template) : Except Error Script :=
  (t.compile r.settings.delimiters r.settings.indentUnit).mapError Error.input

/-! ### Running -/

/-- The error for a failed script, told at the line of its template. -/
def failure (r : Renderer σ) (t : Template) (script : Script) (f : ScriptFailure) : Error :=
  let location : Location :=
    { template := t.description
      sourceLine := f.line.map script.lineMap.sourceLine
      compiledLine := f.line }
  match f.cause with
  | .included inner => .nestedInclude location inner
  | .native kind message attributes =>
    let diagnostics : Diagnostics := ⟨attributes, script.listing⟩
    .execution ⟨location, kind, message, if r.settings.debug then some diagnostics else none⟩

def request (r : Renderer σ) (script : Script) (scope : Scope) : Request :=
  ⟨script.code, r.settings.globals.merge scope, r.settings.functions⟩

/-- Runs the script of a template, with includes answered by `host`. -/
def run (r : Renderer σ) (host : Host σ) (t : Template) (script : Script) (scope : Scope) :
    Attempt σ Text := do
  match ← r.runtime.execute (r.request script scope) host with
  | .ok output => return output
  | .error f => throw (r.failure t script f)

def target (directory : Option Path) (path : Path) : Path :=
  match directory with
  | some directory => Path.join directory path
  | none => path

/-- Includes for a template in a directory, with this many further levels allowed. -/
def host (r : Renderer σ) (directory : Option Path) : Nat → Host σ
  | 0 => fun path _ => throw (.includeDepthExceeded r.settings.maxIncludeDepth path)
  | levels + 1 => fun path scope => do
    let t ← r.load (target directory path)
    let script ← r.compile t
    r.run (host r t.directory? levels) t script scope

/-- Runs the script of a template. -/
def execute (r : Renderer σ) (t : Template) (script : Script) (scope : Scope) : Attempt σ Text :=
  r.run (r.host t.directory? r.settings.maxIncludeDepth) t script scope

def render (r : Renderer σ) (t : Template) (scope : Scope) : Attempt σ Rendered := do
  let script ← r.compile t
  return ⟨← r.execute t script scope, script.code⟩

def renderFile (r : Renderer σ) (path : Path) (scope : Scope) : Attempt σ Rendered := do
  r.render (← r.load path) scope

/-- Compiles a template and has the runtime read its script. -/
def check (r : Renderer σ) (t : Template) : Attempt σ Script := do
  let script ← r.compile t
  match ← r.runtime.check script.code with
  | .ok () => return script
  | .error f => throw (r.failure t script f)

end Renderer
end Stencil
