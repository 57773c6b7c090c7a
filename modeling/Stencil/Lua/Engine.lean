import Stencil.Lua.Position
import Stencil.Render.Runtime

/-! Implementations of the script language.

An `Engine` is an implementation of the language. What it reports of a script that does not run to
its end is told as a text: the position of a function that was under way, a message, and the list
of calls behind it. A renderer gets no more than that text, and looks for the line of the failure
in it (`Report.failure`). `Report.Misleads` says when the line it finds is one that only the script
has put there. What holds of every implementation, the interpreter of these modules or another, is
stated for engines that keep what the language promises. -/
namespace Stencil.Lua

/-! ### Reports -/

/-- Why a script did not run to its end, as implementations of the language report it. -/
inductive Report
  /-- The script cannot be read from a line on. -/
  | unreadable (line : Nat) (complaint : Text) (incomplete : Bool)
  /-- Something was raised. The message begins with the place of a function that was under way, if
  `place` is one; what is raised need not be a text that does. -/
  | raised (place : Option Place) (message : Text) (calls : Option (List Level))
  /-- A native function failed. -/
  | failed (calls : Option (List Level)) (cause : FailureCause)
  /-- Anything else, such as want of memory. -/
  | stopped (kind message : Text)
deriving Repr, DecidableEq

namespace Report

/-- A message, behind the position of its place. -/
def messageText (place : Option Place) (message : Text) : Text :=
  (place.map Place.position).getD [] ++ message

/-- The list of calls that is told behind a message. -/
def callsText (calls : Option (List Level)) : Text :=
  (calls.map fun calls => '\n' :: traceback calls).getD []

/-- A failure that is told with a message, at the first position in it. -/
def failureOf (kind message : Text) (attributes : List (Text × Text)) : ScriptFailure :=
  ⟨chunkLine? message, .native kind (stripLocation message) attributes⟩

/-- The failure that a report is for a renderer. -/
def failure : Report → ScriptFailure
  | unreadable line complaint incomplete =>
    let shown : Text := if incomplete then "true" else "false"
    failureOf "SyntaxError" (messageText (some ⟨scriptName, line⟩) complaint)
      [("incomplete_input", shown)]
  | raised place message calls =>
    let told := splitTraceback (messageText place message ++ callsText calls)
    let attributes : List (Text × Text) := match told.2 with
      | some t => [("traceback", t)]
      | none => []
    failureOf "RuntimeError" told.1 attributes
  | failed calls cause => ⟨chunkLine? (callsText calls), cause⟩
  | stopped kind message => ⟨none, .native kind message []⟩

/-! ### Places -/

/-- The places that a report tells as such. -/
def places : Report → List Place
  | unreadable line _ _ => [⟨scriptName, line⟩]
  | raised place _ calls => place.toList ++ (calls.getD []).filterMap Level.place
  | failed calls _ => (calls.getD []).filterMap Level.place
  | stopped _ _ => []

/-- The report tells a line that is in none of its places: the first position in a message that does
not begin with a place of the script, or one in the name of a function. -/
inductive Misleads (line : Nat) : Report → Prop
  | message {place : Option Place} {message : Text} {calls : Option (List Level)}
    (hplace : ∀ p ∈ place, p.chunk ≠ scriptName)
    (h : chunkLine? (splitTraceback (messageText place message ++ callsText calls)).1 = some line) :
    Misleads line (raised place message calls)
  | name {calls : List Level} {cause : FailureCause} {call : Level} (hcall : call ∈ calls)
    (h : chunkLine? call.name = some line) : Misleads line (failed (some calls) cause)

end Report

/-! ### Engines -/

/-- An implementation of the language. -/
structure Engine (σ : Type) where
  /-- Runs a script; its output is the result. -/
  run : Request → Host σ → StateM σ (Except Report Text)
  /-- Reads a script without running it. -/
  load : Text → Except Report Unit

variable {σ : Type}

/-- What a renderer runs scripts with. -/
def Engine.runtime (E : Engine σ) : Runtime σ where
  execute r host := return (← E.run r host).mapError Report.failure
  check code := return (E.load code).mapError Report.failure

end Stencil.Lua
