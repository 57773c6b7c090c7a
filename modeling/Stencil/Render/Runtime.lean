import Stencil.Settings

/-! What a renderer needs from outside.

A `Loader` finds the sources of templates and a `Runtime` runs their scripts; both act on a state
`σ` of their own. A running script reaches back into the renderer through its `Host`, to have
another template included. -/
namespace Stencil

/-- An effect on a state that may end in an error. -/
abbrev Attempt (σ : Type) := ExceptT Error (StateM σ)

structure Loader (σ : Type) where
  exists? : Path → StateM σ Bool
  load : Path → Attempt σ Text

/-- Everything that a script is run with. -/
structure Request where
  code : Text
  scope : Scope
  functions : Table HostFunction

inductive FailureCause
  /-- The script itself failed. -/
  | native (kind message : Text) (attributes : List (Text × Text))
  /-- A template that the script included failed. -/
  | included (error : Error)
deriving Repr, DecidableEq

/-- Why a script did not run to its end, and the line of its code where. -/
structure ScriptFailure where
  line : Option Nat
  cause : FailureCause
deriving Repr, DecidableEq

/-- Renders the template at a path, with the variables of a scope, for a script that includes it. -/
abbrev Host (σ : Type) := Path → Scope → Attempt σ Text

structure Runtime (σ : Type) where
  /-- Runs a script; its output is the result. -/
  execute : Request → Host σ → StateM σ (Except ScriptFailure Text)
  /-- Reads a script without running it. -/
  check : Text → StateM σ (Except ScriptFailure Unit)

end Stencil
