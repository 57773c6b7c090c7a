import Stencil.Proofs.Render.Basic
import Stencil.Render.Playback

/-! The course of a call.

A call of a renderer over played scripts goes through templates that include each other. Its
`Course` follows it from outside: every question to the loader and every execution of a script with
the number of templates that it is nested in, and the ending, which for a failure is the chain of
includes that led to it and what stopped there (`Breakdown`). The course is exactly what the
renderer does (`Call.course_describes`). -/
namespace Stencil.Playback

/-! ### Breakdowns -/

/-- A template that was including another one, at a line of its script. -/
structure Frame where
  template : Template
  script : Script
  line : Option Nat

/-- The line of the script that the runtime told, and the line of the template that it is from. -/
def Frame.location (f : Frame) : Location :=
  ⟨f.template.description, f.line.map f.script.lineMap.sourceLine, f.line⟩

/-- Why a call could not go on. -/
inductive Stop
  /-- An include beyond the limit of depth. -/
  | refused (path : Path)
  /-- None of these paths is that of a template. -/
  | unloaded (attempted : List Path)
  | uncompiled (fault : InputError)
  /-- A script failed on its own account. -/
  | failed (template : Template) (script : Script) (line : Option Nat) (kind message : Text)
      (attributes : List (Text × Text))

def Stop.error (s : Settings) : Stop → Error
  | refused path => .includeDepthExceeded s.maxIncludeDepth path
  | unloaded attempted => .templateNotFound attempted
  | uncompiled fault => .input fault
  | failed template script line kind message attributes =>
    .execution ⟨(Frame.mk template script line).location, kind, message,
      if s.debug then some ⟨attributes, script.listing⟩ else none⟩

/-- The includes that a failure lies in, outermost first, and what stopped the last of them. -/
structure Breakdown where
  frames : List Frame
  stop : Stop

def Breakdown.error (s : Settings) (b : Breakdown) : Error :=
  b.frames.foldr (fun f inner => .nestedInclude f.location inner) (b.stop.error s)

/-- The same breakdown seen from a template that included what broke down. -/
def Breakdown.within (f : Frame) (b : Breakdown) : Breakdown := { b with frames := f :: b.frames }

/-! ### Courses -/

/-- What happens in a call, each event with the number of templates that it is nested in, and how
the call ends. -/
structure Course where
  events : List (Nat × Event)
  ending : Except Breakdown Text

/-- The course with some events before it. -/
def Course.after (events : List (Nat × Event)) (c : Course) : Course :=
  { c with events := events ++ c.events }

/-- The course with some text before its output. -/
def Course.writing (text : Text) (c : Course) : Course :=
  { c with ending := c.ending.map (text ++ ·) }

/-- The course of a call that stops at once. -/
def Course.stopped (stop : Stop) : Course := ⟨[], .error ⟨[], stop⟩⟩

/-- A variable as a script writes it. -/
def variableText (scope : Scope) (name : Text) : Text :=
  match scope.get? name with
  | some value => value.text
  | none => "nil"

/-- The result of a host function as a script writes it. -/
def functionText (functions : Table HostFunction) (name : Text) (arguments : List Json) :
    Except Text Text :=
  match functions.get? name with
  | some f => (f arguments).map Json.text
  | none => .error ("no builtin " ++ name)

section
variable (s : Settings) (rules : List Rule) (files : Files)

/-- Looks for a template at each of some paths. -/
def search (depth : Nat) : List Path → List (Nat × Event) × Option Template
  | [] => ([], none)
  | path :: rest =>
    match files.read? path with
    | some source => ([(depth, .exists path true), (depth, .load path)], some ⟨source, some path⟩)
    | none =>
      let (events, found) := search depth rest
      ((depth, .exists path false) :: events, found)

/-- Goes through the actions of a script, with a course for everything that it includes. -/
def follow (inner : Path → Scope → Course) (t : Template) (script : Script) (scope : Scope) :
    List Action → Course
  | [] => ⟨[], .ok []⟩
  | .write text :: rest => (follow inner t script scope rest).writing text
  | .variable name :: rest =>
    (follow inner t script scope rest).writing (variableText (s.globals.merge scope) name)
  | .include path given line :: rest =>
    match inner path given with
    | ⟨events, .ok text⟩ => ((follow inner t script scope rest).writing text).after events
    | ⟨events, .error b⟩ => ⟨events, .error (b.within ⟨t, script, line⟩)⟩
  | .call function arguments line :: rest =>
    match functionText s.functions function arguments with
    | .ok text => (follow inner t script scope rest).writing text
    | .error message => .stopped (.failed t script line "RuntimeError" message [])
  | .fail kind message attributes line :: _ =>
    .stopped (.failed t script line kind message attributes)

/-- Runs a script that is nested in `depth` others. -/
def execution (depth : Nat) (inner : Path → Scope → Course) (t : Template) (script : Script)
    (scope : Scope) : Course :=
  (follow s inner t script scope (actions rules script.code)).after
    [(depth, .execute script.code (s.globals.merge scope) s.functions.names)]

/-- Compiles a template and runs its script, with a course for what a template of that directory
includes. -/
def rendering (depth : Nat) (inner : Option Path → Path → Scope → Course) (t : Template)
    (scope : Scope) : Course :=
  match t.compile s.delimiters s.indentUnit with
  | .error fault => .stopped (.uncompiled fault)
  | .ok script => execution s rules depth (inner t.directory?) t script scope

/-- Finds a template, seen from a directory, and renders it; so many levels are left, this one
counted. -/
def inclusion (directory : Option Path) : Nat → Nat → Path → Scope → Course
  | 0, _, path, _ => .stopped (.refused path)
  | levels + 1, depth, path, scope =>
    let target := Renderer.target directory path
    let attempted : List Path := [target, target ++ "." ++ s.suffix]
    match search files depth attempted with
    | (events, none) => (Course.stopped (.unloaded attempted)).after events
    | (events, some t) =>
      (rendering s rules depth (fun directory => inclusion directory levels (depth + 1)) t
        scope).after events

end

/-! ### Calls -/

/-- What a renderer can be asked to render. -/
inductive Call
  | render (t : Template) (scope : Scope)
  | renderFile (path : Path) (scope : Scope)
  | execute (t : Template) (script : Script) (scope : Scope)

def renderer (s : Settings) (rules : List Rule) : Renderer State := ⟨s, loader, runtime rules⟩

/-- The output of a call. -/
def Call.perform (r : Renderer State) : Call → Attempt State Text
  | .render t scope => Rendered.output <$> r.render t scope
  | .renderFile path scope => Rendered.output <$> r.renderFile path scope
  | .execute t script scope => r.execute t script scope

def Call.course (s : Settings) (rules : List Rule) (files : Files) : Call → Course
  | .render t scope =>
    rendering s rules 0 (fun directory => inclusion s rules files directory s.maxIncludeDepth 1) t
      scope
  | .renderFile path scope => inclusion s rules files none (s.maxIncludeDepth + 1) 0 path scope
  | .execute t script scope =>
    execution s rules 0 (inclusion s rules files t.directory? s.maxIncludeDepth 1) t script scope

/-! ### The course of a call is what the renderer does -/

/-- With these files, the renderer asks for what the course says and ends as the course does. -/
def Course.Describes (c : Course) (s : Settings) (files : Files) (m : Attempt State Text) : Prop :=
  ∀ log, m.run.run ⟨files, log⟩ =
    (c.ending.mapError (·.error s), ⟨files, (c.events.map Prod.snd).reverse ++ log⟩)

theorem Course.describes_stopped {s : Settings} {files : Files} (stop : Stop) :
    (stopped stop).Describes s files (throw (stop.error s)) := fun _ => rfl

section
variable {s : Settings} {rules : List Rule} {files : Files}

theorem Course.Describes.after {α : Type} {c : Course} {events : List (Nat × Event)}
    {m : Attempt State α} {a : α} {f : α → Attempt State Text}
    (hm : ∀ log, m.run.run ⟨files, log⟩ =
      (.ok a, ⟨files, (events.map Prod.snd).reverse ++ log⟩))
    (hc : c.Describes s files (f a)) : (c.after events).Describes s files (m >>= f) := by
  intro log
  refine (run_bind_ok f (hm log)).trans ((hc _).trans ?_)
  simp [Course.after]

theorem load_run {path : Path} {source : Text} (h : files.read? path = some source)
    (log : List Event) :
    (loader.load path).run.run ⟨files, log⟩ = (.ok source, ⟨files, .load path :: log⟩) := by
  have hload : files.load path = .ok source := by
    rw [Files.load, h]
  rw [← hload]
  rfl

/-- A search is what the renderer does to load a template. -/
theorem loadFirst_run (s : Settings) (rules : List Rule) (files : Files) (attempted : List Path)
    (depth : Nat) (paths : List Path) (log : List Event) :
    ((renderer s rules).loadFirst attempted paths).run.run ⟨files, log⟩ =
      (((search files depth paths).2.elim (.error (.templateNotFound attempted)) .ok :
          Except Error Template),
        ⟨files, ((search files depth paths).1.map Prod.snd).reverse ++ log⟩) := by
  induction paths generalizing log with
  | nil => rfl
  | cons path rest ih =>
    have hexists : (loader.exists? path).run ⟨files, log⟩ =
        ((files.read? path).isSome, ⟨files, .exists path (files.read? path).isSome :: log⟩) := rfl
    rw [Renderer.loadFirst, search]
    cases hread : files.read? path with
    | some source =>
      rw [hread] at hexists
      refine (run_bind_lift _ hexists).trans ?_
      exact run_bind_ok _ (load_run hread _)
    | none =>
      rw [hread] at hexists
      refine (run_bind_lift _ hexists).trans ?_
      refine (ih _).trans ?_
      simp

/-- With these files, some actions ask for what the course says and end as the course does, a
failure being told by `fail`. -/
def Course.Follows (c : Course) (s : Settings) (files : Files) (fail : ScriptFailure → Error)
    (m : ExceptT ScriptFailure (StateM State) (List Text)) : Prop :=
  ∀ log, ∃ played, m.run.run ⟨files, log⟩ =
      (played, ⟨files, (c.events.map Prod.snd).reverse ++ log⟩) ∧
    c.ending.mapError (·.error s) = (played.map List.flatten).mapError fail

section
variable {request : Request} {host : Host State} {fail : ScriptFailure → Error} {c : Course}
  {action : Action} {rest : List Action}

theorem Course.Follows.cons {events : List (Nat × Event)} {text : Text}
    (haction : ∀ log, (play request host action).run.run ⟨files, log⟩ =
      (.ok text, ⟨files, (events.map Prod.snd).reverse ++ log⟩))
    (hrest : c.Follows s files fail (rest.mapM (play request host))) :
    ((c.writing text).after events).Follows s files fail
      ((action :: rest).mapM (play request host)) := by
  intro log
  obtain ⟨played, hplayed, hending⟩ := hrest ((events.map Prod.snd).reverse ++ log)
  have hlog : (((c.writing text).after events).events.map Prod.snd).reverse ++ log =
      (c.events.map Prod.snd).reverse ++ ((events.map Prod.snd).reverse ++ log) := by
    simp [after, writing]
  rw [List.mapM_cons, hlog]
  refine ⟨played.map (text :: ·), (run_bind_ok _ (haction log)).trans ?_, ?_⟩
  · cases played with
    | ok texts => exact run_bind_ok _ hplayed
    | error f => exact run_bind_error _ hplayed
  · show (c.ending.map (text ++ ·)).mapError _ = _
    cases hc : c.ending with
    | ok output =>
      rw [hc] at hending
      cases played with
      | ok texts => exact congrArg (fun t => Except.ok (text ++ t)) (Except.ok.inj hending)
      | error f => cases hending
    | error b =>
      rw [hc] at hending
      cases played with
      | ok texts => cases hending
      | error f => exact hending

/-- An action that asks for nothing. -/
theorem Course.Follows.cons_silent {text : Text}
    (haction : ∀ log, (play request host action).run.run ⟨files, log⟩ = (.ok text, ⟨files, log⟩))
    (hrest : c.Follows s files fail (rest.mapM (play request host))) :
    (c.writing text).Follows s files fail ((action :: rest).mapM (play request host)) :=
  hrest.cons (show ∀ log, (play request host action).run.run ⟨files, log⟩ =
    (.ok text, ⟨files, (([] : List (Nat × Event)).map Prod.snd).reverse ++ log⟩) from haction)

theorem Course.Follows.fails {events : List (Nat × Event)} {f : ScriptFailure} {b : Breakdown}
    (haction : ∀ log, (play request host action).run.run ⟨files, log⟩ =
      (.error f, ⟨files, (events.map Prod.snd).reverse ++ log⟩)) (herror : b.error s = fail f) :
    Course.Follows ⟨events, .error b⟩ s files fail ((action :: rest).mapM (play request host)) := by
  intro log
  rw [List.mapM_cons]
  exact ⟨.error f, run_bind_error _ (haction log), congrArg Except.error herror⟩

end

/-- The actions of a script do what the course that follows them says, when the includes among them
do what their courses say. -/
theorem follow_follows (rules : List Rule) {host : Host State} {inner : Path → Scope → Course}
    (hinner : ∀ path scope, (inner path scope).Describes s files (host path scope))
    (t : Template) (script : Script) (scope : Scope) (acts : List Action) :
    (follow s inner t script scope acts).Follows s files ((renderer s rules).failure t script)
      (acts.mapM (play ((renderer s rules).request script scope) host)) := by
  induction acts with
  | nil => exact fun log => ⟨.ok [], rfl, rfl⟩
  | cons action rest ih =>
    cases action with
    | write text => exact ih.cons_silent fun log => rfl
    | «variable» name => exact ih.cons_silent fun log => rfl
    | «include» path given line =>
      rw [follow]
      have hpath := hinner path given
      cases hcourse : inner path given with
      | mk events ending =>
        rw [hcourse] at hpath
        cases ending with
        | ok text => exact ih.cons fun log => run_bind_lift _ (hpath log)
        | error b =>
          exact .fails (f := ⟨line, .included (b.error s)⟩)
            (fun log => run_bind_lift _ (hpath log)) rfl
    | call function arguments line =>
      have hcall : ∀ log, (play ((renderer s rules).request script scope) host
          (.call function arguments line)).run.run ⟨files, log⟩ =
          ((functionText s.functions function arguments).mapError
            (native "RuntimeError" · line), ⟨files, log⟩) := by
        intro log
        have hfunctions : ((renderer s rules).request script scope).functions = s.functions := rfl
        rw [play, hfunctions]
        unfold functionText
        cases s.functions.get? function with
        | none => rfl
        | some f =>
          dsimp only
          cases f arguments <;> rfl
      rw [follow]
      cases htext : functionText s.functions function arguments with
      | ok text =>
        rw [htext] at hcall
        exact ih.cons_silent hcall
      | error message =>
        rw [htext] at hcall
        exact .fails hcall rfl
    | fail kind message attributes line =>
      exact .fails (f := ⟨line, .native kind message attributes⟩) (fun log => rfl) rfl

/-- A script that is run does what its execution says. -/
theorem execution_describes {depth : Nat} {host : Host State} {inner : Path → Scope → Course}
    (hinner : ∀ path scope, (inner path scope).Describes s files (host path scope))
    (t : Template) (script : Script) (scope : Scope) :
    (execution s rules depth inner t script scope).Describes s files
      ((renderer s rules).run host t script scope) := by
  intro log
  obtain ⟨played, hplayed, hending⟩ := follow_follows rules hinner t script scope
    (actions rules script.code)
    (.execute script.code (s.globals.merge scope) s.functions.names :: log)
  have hexecute : ((runtime rules).execute ((renderer s rules).request script scope) host).run
      ⟨files, log⟩ = (played.map List.flatten, ⟨files, ((execution s rules depth inner t script
        scope).events.map Prod.snd).reverse ++ log⟩) := by
    have hlog : ((execution s rules depth inner t script scope).events.map Prod.snd).reverse ++ log =
        ((follow s inner t script scope (actions rules script.code)).events.map Prod.snd).reverse ++
          .execute script.code (s.globals.merge scope) s.functions.names :: log := by
      simp [execution, Course.after]
    rw [hlog]
    exact congrArg (fun p : Except ScriptFailure (List Text) × State =>
      (p.1.map List.flatten, p.2)) hplayed
  refine (run_bind_lift _ hexecute).trans ?_
  rw [show (execution s rules depth inner t script scope).ending.mapError (·.error s) = _ from
    hending]
  cases played <;> rfl

theorem rendering_describes {depth : Nat} {host : Option Path → Host State}
    {inner : Option Path → Path → Scope → Course}
    (hinner : ∀ directory path scope,
      (inner directory path scope).Describes s files (host directory path scope))
    (t : Template) (scope : Scope) :
    (rendering s rules depth inner t scope).Describes s files (do
      let script ← (renderer s rules).compile t
      (renderer s rules).run (host t.directory?) t script scope) := by
  have hcompile : (renderer s rules).compile t =
      (t.compile s.delimiters s.indentUnit).mapError Error.input := rfl
  rw [hcompile, rendering]
  cases t.compile s.delimiters s.indentUnit with
  | error fault => exact fun log => rfl
  | ok script => exact execution_describes (hinner t.directory?) t script scope

/-- **An include is answered as its course says**, whatever levels are left. -/
theorem inclusion_describes (levels depth : Nat) (directory : Option Path) (path : Path)
    (scope : Scope) :
    (inclusion s rules files directory levels depth path scope).Describes s files
      ((renderer s rules).host directory levels path scope) := by
  induction levels generalizing depth directory path scope with
  | zero => exact Course.describes_stopped (.refused path)
  | succ levels ih =>
    let target := Renderer.target directory path
    let attempted : List Path := [target, target ++ "." ++ s.suffix]
    have hload : ∀ log, ((renderer s rules).load target).run.run ⟨files, log⟩ =
        (((search files depth attempted).2.elim (.error (.templateNotFound attempted)) .ok :
            Except Error Template),
          ⟨files, ((search files depth attempted).1.map Prod.snd).reverse ++ log⟩) :=
      loadFirst_run s rules files attempted depth attempted
    show (match search files depth attempted with
      | (events, none) => (Course.stopped (.unloaded attempted)).after events
      | (events, some t) => (rendering s rules depth
          (fun directory => inclusion s rules files directory levels (depth + 1)) t scope).after
          events).Describes s files (do
        let t ← (renderer s rules).load target
        let script ← (renderer s rules).compile t
        (renderer s rules).run ((renderer s rules).host t.directory? levels) t script scope)
    cases hsearch : search files depth attempted with
    | mk events found =>
      rw [hsearch] at hload
      cases found with
      | none => exact fun log => (run_bind_error _ (hload log)).trans (by simp [Course.after]; rfl)
      | some t =>
        exact Course.Describes.after hload
          (rendering_describes (fun directory => ih (depth + 1) directory) t scope)

theorem output_render (r : Renderer State) (t : Template) (scope : Scope) :
    Rendered.output <$> r.render t scope = (do
      let script ← r.compile t
      r.run (r.host t.directory? r.settings.maxIncludeDepth) t script scope) := by
  simp only [Renderer.render, Renderer.execute, map_bind, map_pure, bind_pure]

/-- **A renderer does what the course of a call says**, and leaves the files alone. -/
theorem Call.course_describes (call : Call) :
    (call.course s rules files).Describes s files (call.perform (renderer s rules)) := by
  have hinner : ∀ directory path scope,
      (inclusion s rules files directory s.maxIncludeDepth 1 path scope).Describes s files
        ((renderer s rules).host directory s.maxIncludeDepth path scope) :=
    inclusion_describes s.maxIncludeDepth 1
  cases call with
  | render t scope =>
    rw [course, perform, output_render]
    exact rendering_describes hinner t scope
  | renderFile path scope =>
    have hfile : perform (renderer s rules) (.renderFile path scope) =
        (renderer s rules).host none (s.maxIncludeDepth + 1) path scope := by
      simp only [perform, Renderer.renderFile, map_bind, output_render]
      rfl
    rw [hfile]
    exact inclusion_describes (s.maxIncludeDepth + 1) 0 none path scope
  | execute t script scope => exact execution_describes (hinner t.directory?) t script scope

end

end Stencil.Playback
