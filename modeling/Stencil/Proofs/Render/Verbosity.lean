import Stencil.Proofs.Render.Course

/-! What debug mode changes.

In debug mode the failure of a script comes with diagnostics, and nothing else is different.
`Error.plain` is an error without them, and `Mutes` says that an attempt does what another one does,
with plain errors. A renderer out of debug mode mutes the one in debug mode as long as its runtime
does not look into the errors of includes (`Runtime.IsBlind`), which holds of a runtime that plays
recorded scripts. So, whatever is asked for in whatever order, the two ask their surroundings for
the same things and give the same answers, up to diagnostics (`Playback.runAll_debug`). -/
namespace Stencil

/-! ### Errors without diagnostics -/

def Error.plain : Error → Error
  | execution failure => execution { failure with diagnostics := none }
  | nestedInclude location inner => nestedInclude location inner.plain
  | e => e

namespace Error

@[simp] theorem frames_plain (e : Error) : e.plain.frames = e.frames := by
  induction e with
  | nestedInclude location inner ih => exact congrArg (location :: ·) ih
  | _ => rfl

@[simp] theorem innermost_plain (e : Error) : e.plain.innermost = e.innermost.plain := by
  induction e with
  | nestedInclude location inner ih => exact ih
  | _ => rfl

@[simp] theorem category_plain (e : Error) : e.plain.category = e.category := by
  induction e with
  | nestedInclude location inner ih => exact ih
  | _ => rfl

@[simp] theorem suggestions_plain (e : Error) : e.plain.suggestions = e.suggestions := by
  induction e with
  | nestedInclude location inner ih => exact ih
  | _ => rfl

/-- Diagnostics come last in a message. -/
theorem message_plain_isPrefix (e : Error) : e.plain.message <+: e.message := by
  induction e with
  | execution failure =>
    show ExecutionFailure.message _ <+: failure.message
    unfold ExecutionFailure.message
    refine (List.prefix_append_right_inj _).2 ?_
    exact List.nil_prefix
  | nestedInclude location inner ih => exact (List.prefix_append_right_inj _).2 ih
  | _ => exact List.prefix_rfl

end Error

/-- The failure with the error of an include, if it is from one, without diagnostics. -/
def ScriptFailure.plain (f : ScriptFailure) : ScriptFailure :=
  match f.cause with
  | .native .. => f
  | .included inner => { f with cause := .included inner.plain }

/-! ### Muting -/

/-- The first attempt does what the second one does, and its errors are made plain. -/
def Mutes {ε σ α : Type} (plain : ε → ε) (m m' : ExceptT ε (StateM σ) α) : Prop :=
  ∀ s, m.run.run s = ((m'.run.run s).1.mapError plain, (m'.run.run s).2)

namespace Mutes

variable {ε σ α β : Type} {plain : ε → ε} {m m' : ExceptT ε (StateM σ) α}

theorem pure (a : α) : Mutes plain (pure a : ExceptT ε (StateM σ) α) (pure a) := fun _ => rfl

theorem throw {e e' : ε} (h : e = plain e') :
    Mutes plain (throw e : ExceptT ε (StateM σ) α) (throw e') := by
  subst h
  exact fun _ => rfl

/-- An effect outside that cannot fail. -/
theorem lift (x : StateM σ α) : Mutes plain (liftM x : ExceptT ε (StateM σ) α) (liftM x) :=
  fun _ => rfl

theorem bind {f f' : α → ExceptT ε (StateM σ) β} (h : Mutes plain m m')
    (hf : ∀ a, Mutes plain (f a) (f' a)) : Mutes plain (m >>= f) (m' >>= f') := by
  intro s
  have hm := h s
  cases hrun : m'.run.run s with
  | mk result s' =>
    rw [hrun] at hm
    cases result with
    | ok a => rw [run_bind_ok f hm, run_bind_ok f' hrun, hf a s']
    | error e =>
      rw [run_bind_error f hm, run_bind_error f' hrun]
      rfl

/-- What comes of an effect outside is taken on alike. -/
theorem lift_bind {ε' : Type} {plain' : ε' → ε'} {x x' : StateM σ (Except ε α)}
    {f f' : Except ε α → ExceptT ε' (StateM σ) β} (h : Mutes plain (.mk x) (.mk x'))
    (hf : ∀ result, Mutes plain' (f (result.mapError plain)) (f' result)) :
    Mutes plain' (liftM x >>= f) (liftM x' >>= f') := by
  intro s
  have hx : x.run s = ((x'.run s).1.mapError plain, (x'.run s).2) := h s
  rw [run_bind_lift f hx, run_bind_lift f' (Prod.eta (x'.run s)).symm]
  exact hf _ _

theorem mapM {γ : Type} {f f' : γ → ExceptT ε (StateM σ) α} (h : ∀ c, Mutes plain (f c) (f' c))
    (cs : List γ) : Mutes plain (cs.mapM f) (cs.mapM f') := by
  induction cs with
  | nil => exact .pure []
  | cons c rest ih =>
    rw [List.mapM_cons, List.mapM_cons]
    exact (h c).bind fun a => ih.bind fun as => .pure (a :: as)

end Mutes

section
variable {σ α : Type}

/-- A runtime that does not look into errors: a script fares alike when its includes are muted, and
reading a script fails without diagnostics. -/
structure Runtime.IsBlind (runtime : Runtime σ) : Prop where
  execute : ∀ (request : Request) {host host' : Host σ},
    (∀ path scope, Mutes Error.plain (host path scope) (host' path scope)) →
    Mutes ScriptFailure.plain (.mk (runtime.execute request host))
      (.mk (runtime.execute request host'))
  check : ∀ code, Mutes ScriptFailure.plain (.mk (runtime.check code)) (.mk (runtime.check code))

/-- A loader whose failures have no diagnostics. -/
def Loader.IsPlain (loader : Loader σ) : Prop :=
  ∀ path, Mutes Error.plain (loader.load path) (loader.load path)

end

/-! ### Renderers -/

namespace Renderer

variable {σ : Type}

/-- The renderer in debug mode, or out of it. -/
def debugging (r : Renderer σ) (debug : Bool) : Renderer σ :=
  { r with settings := { r.settings with debug } }

variable {r : Renderer σ}

theorem failure_debugging (t : Template) (script : Script) (f : ScriptFailure) :
    (r.debugging false).failure t script f.plain =
      ((r.debugging true).failure t script f).plain := by
  obtain ⟨line, cause⟩ := f
  cases cause <;> rfl

theorem loadFirst_debugging (hloader : r.loader.IsPlain) (attempted paths : List Path) :
    Mutes Error.plain ((r.debugging false).loadFirst attempted paths)
      ((r.debugging true).loadFirst attempted paths) := by
  induction paths with
  | nil => exact .throw rfl
  | cons path rest ih =>
    refine .bind (.lift (r.loader.exists? path)) fun found => ?_
    cases found with
    | true => exact .bind (hloader path) fun source => .pure _
    | false => exact ih

theorem load_debugging (hloader : r.loader.IsPlain) (path : Path) :
    Mutes Error.plain ((r.debugging false).load path) ((r.debugging true).load path) :=
  loadFirst_debugging hloader _ _

theorem compile_debugging (t : Template) :
    Mutes Error.plain (liftM ((r.debugging false).compile t) : Attempt σ Script)
      (liftM ((r.debugging true).compile t)) := by
  show Mutes Error.plain
    (liftM ((t.compile r.settings.delimiters r.settings.indentUnit).mapError Error.input) :
      Attempt σ Script)
    (liftM ((t.compile r.settings.delimiters r.settings.indentUnit).mapError Error.input))
  cases t.compile r.settings.delimiters r.settings.indentUnit with
  | ok script => exact .pure script
  | error fault => exact .throw rfl

theorem run_debugging (hruntime : r.runtime.IsBlind) {host host' : Host σ}
    (hhost : ∀ path scope, Mutes Error.plain (host path scope) (host' path scope)) (t : Template)
    (script : Script) (scope : Scope) :
    Mutes Error.plain ((r.debugging false).run host t script scope)
      ((r.debugging true).run host' t script scope) :=
  .lift_bind (hruntime.execute (r.request script scope) hhost) fun
    | .ok output => .pure output
    | .error f => .throw (failure_debugging t script f)

/-- Includes are answered alike, however many levels are left. -/
theorem host_debugging (hloader : r.loader.IsPlain) (hruntime : r.runtime.IsBlind) (levels : Nat)
    (directory : Option Path) (path : Path) (scope : Scope) :
    Mutes Error.plain ((r.debugging false).host directory levels path scope)
      ((r.debugging true).host directory levels path scope) := by
  induction levels generalizing directory path scope with
  | zero => exact .throw rfl
  | succ levels ih =>
    refine .bind (load_debugging hloader _) fun t => ?_
    exact .bind (compile_debugging t) fun script => run_debugging hruntime (ih _) t script scope

theorem execute_debugging (hloader : r.loader.IsPlain) (hruntime : r.runtime.IsBlind) (t : Template)
    (script : Script) (scope : Scope) :
    Mutes Error.plain ((r.debugging false).execute t script scope)
      ((r.debugging true).execute t script scope) :=
  run_debugging hruntime (host_debugging hloader hruntime _ _) t script scope

theorem render_debugging (hloader : r.loader.IsPlain) (hruntime : r.runtime.IsBlind) (t : Template)
    (scope : Scope) :
    Mutes Error.plain ((r.debugging false).render t scope) ((r.debugging true).render t scope) :=
  .bind (compile_debugging t) fun script =>
    .bind (execute_debugging hloader hruntime t script scope) fun _ => .pure _

theorem renderFile_debugging (hloader : r.loader.IsPlain) (hruntime : r.runtime.IsBlind)
    (path : Path) (scope : Scope) :
    Mutes Error.plain ((r.debugging false).renderFile path scope)
      ((r.debugging true).renderFile path scope) :=
  .bind (load_debugging hloader path) fun t => render_debugging hloader hruntime t scope

theorem check_debugging (hruntime : r.runtime.IsBlind) (t : Template) :
    Mutes Error.plain ((r.debugging false).check t) ((r.debugging true).check t) :=
  .bind (compile_debugging t) fun script =>
    .lift_bind (hruntime.check script.code) fun
      | .ok () => .pure script
      | .error f => .throw (failure_debugging t script f)

end Renderer

/-! ### Played scripts -/

namespace Playback

theorem loader_isPlain : loader.IsPlain := by
  refine fun path => .bind (.lift (record (.load path))) fun _ => .bind (.lift get) fun s => ?_
  show Mutes Error.plain (liftM (s.files.load path) : Attempt State Text) (liftM (s.files.load path))
  unfold Files.load
  cases s.files.read? path with
  | some source => exact .pure source
  | none => exact .throw rfl

/-- An action fares alike when what it includes is muted: of an error it only has that there is
one. -/
theorem play_mutes (request : Request) {host host' : Host State}
    (hhost : ∀ path scope, Mutes Error.plain (host path scope) (host' path scope))
    (action : Action) :
    Mutes ScriptFailure.plain (play request host action) (play request host' action) := by
  cases action with
  | write text => exact .pure text
  | «variable» name => exact .pure _
  | «include» path scope line =>
    exact .lift_bind (hhost path scope) fun
      | .ok output => .pure output
      | .error e => .throw rfl
  | call function arguments line =>
    rw [play, play]
    cases request.functions.get? function with
    | none => exact .throw rfl
    | some f =>
      dsimp only
      cases f arguments with
      | ok value => exact .pure _
      | error message => exact .throw rfl
  | fail kind message attributes line => exact .throw rfl

theorem firstFailure?_plain {f : ScriptFailure} {acts : List Action}
    (h : firstFailure? acts = some f) : f.plain = f := by
  induction acts with
  | nil => cases h
  | cons action rest ih =>
    cases action with
    | fail kind message attributes line =>
      cases h
      rfl
    | _ => exact ih h

theorem check_run (rules : List Rule) (code : Text) (s : State) :
    ((runtime rules).check code).run s =
      ((firstFailure? (actions rules code)).elim (.ok ()) .error,
        { s with log := .check code :: s.log }) := by
  simp only [runtime, StateT.run_bind]
  cases firstFailure? (actions rules code) <;> rfl

theorem runtime_isBlind (rules : List Rule) : (runtime rules).IsBlind where
  execute request host host' hhost := by
    intro s
    let started := ((record (.execute request.code request.scope request.functions.names)).run s).2
    let played (host : Host State) :=
      ((actions rules request.code).mapM (play request host)).run.run started
    have hplayed : played host =
        ((played host').1.mapError ScriptFailure.plain, (played host').2) :=
      Mutes.mapM (play_mutes request hhost) _ started
    show ((played host).1.map List.flatten, (played host).2) =
      (((played host').1.map List.flatten).mapError ScriptFailure.plain, (played host').2)
    rw [hplayed]
    cases (played host').1 <;> rfl
  check code := by
    intro s
    show ((runtime rules).check code).run s =
      ((((runtime rules).check code).run s).1.mapError ScriptFailure.plain,
        (((runtime rules).check code).run s).2)
    rw [check_run]
    cases hfirst : firstFailure? (actions rules code) with
    | none => rfl
    | some f =>
      refine Prod.ext ?_ rfl
      exact congrArg Except.error (firstFailure?_plain hfirst).symm

/-! ### Whole sessions -/

/-- What a renderer, or the one who keeps its files, can be asked. -/
inductive Step
  | render (t : Template) (scope : Scope)
  | renderFile (path : Path) (scope : Scope)
  | execute (t : Template) (script : Script) (scope : Scope)
  | load (path : Path)
  | compile (t : Template)
  | check (t : Template)
  | insert (path : Path) (text : Text)
  | remove (path : Path)

inductive Answer
  | rendered (result : Rendered)
  | output (text : Text)
  | template (t : Template)
  | script (script : Script)
  | inserted
  | removed (found : Bool)
deriving DecidableEq

def Step.perform (r : Renderer State) : Step → Attempt State Answer
  | .render t scope => return .rendered (← r.render t scope)
  | .renderFile path scope => return .rendered (← r.renderFile path scope)
  | .execute t script scope => return .output (← r.execute t script scope)
  | .load path => return .template (← r.load path)
  | .compile t => return .script (← r.compile t)
  | .check t => return .script (← r.check t)
  | .insert path text => do
    modify fun s => { s with files := s.files.insert path text }
    return .inserted
  | .remove path => do
    let files := (← get).files
    modify fun s => { s with files := files.remove path }
    return .removed (files.exists? path)

/-- Takes steps in order, also those after one that fails. -/
def runAll (r : Renderer State) (steps : List Step) : StateM State (List (Except Error Answer)) :=
  steps.mapM fun step => (step.perform r).run

theorem Step.perform_debugging (s : Settings) (rules : List Rule) (step : Step) :
    Mutes Error.plain (step.perform (renderer { s with debug := false } rules))
      (step.perform (renderer { s with debug := true } rules)) := by
  have hloader : (renderer s rules).loader.IsPlain := loader_isPlain
  have hruntime : (renderer s rules).runtime.IsBlind := runtime_isBlind rules
  cases step with
  | render t scope => exact (Renderer.render_debugging hloader hruntime t scope).bind fun _ => .pure _
  | renderFile path scope =>
    exact (Renderer.renderFile_debugging hloader hruntime path scope).bind fun _ => .pure _
  | execute t script scope =>
    exact (Renderer.execute_debugging hloader hruntime t script scope).bind fun _ => .pure _
  | load path => exact (Renderer.load_debugging hloader path).bind fun _ => .pure _
  | compile t =>
    exact (Renderer.compile_debugging (r := renderer s rules) t).bind fun _ => .pure _
  | check t => exact (Renderer.check_debugging hruntime t).bind fun _ => .pure _
  | insert path text => exact (Mutes.lift _).bind fun _ => .pure _
  | remove path => exact (Mutes.lift _).bind fun _ => (Mutes.lift _).bind fun _ => .pure _

theorem runAll_cons {r : Renderer State} {step : Step} {state state' : State}
    {answer : Except Error Answer} (h : (step.perform r).run.run state = (answer, state'))
    (rest : List Step) :
    (runAll r (step :: rest)).run state =
      (answer :: ((runAll r rest).run state').1, ((runAll r rest).run state').2) := by
  unfold runAll
  rw [List.mapM_cons, StateT.run_bind, h]
  rfl

theorem runAll_debugging (s : Settings) (rules : List Rule) (steps : List Step) (state : State) :
    (runAll (renderer { s with debug := false } rules) steps).run state =
      (((runAll (renderer { s with debug := true } rules) steps).run state).1.map
          (·.mapError Error.plain),
        ((runAll (renderer { s with debug := true } rules) steps).run state).2) := by
  induction steps generalizing state with
  | nil => rfl
  | cons step rest ih =>
    rw [runAll_cons (step.perform_debugging s rules state), runAll_cons rfl, ih]
    rfl

/-- **Debug mode changes verbosity only.** Whatever steps are taken, from whatever state, the
renderers in and out of debug mode ask for the same things in the same order and leave the same
files; they succeed at the same steps, with the same answers, and where one fails the other fails
with the same error up to diagnostics: the same places of includes, category and suggestions, the
same innermost error once its diagnostics are left out, and a message that only goes on longer. -/
theorem runAll_debug (s : Settings) (rules : List Rule) (steps : List Step) (state : State) :
    let quiet := (runAll (renderer { s with debug := false } rules) steps).run state
    let loud := (runAll (renderer { s with debug := true } rules) steps).run state
    quiet = (loud.1.map (·.mapError Error.plain), loud.2) ∧
    ∀ e, .error e ∈ loud.1 → e.plain.frames = e.frames ∧ e.plain.category = e.category ∧
      e.plain.suggestions = e.suggestions ∧ e.plain.innermost = e.innermost.plain ∧
      e.plain.message <+: e.message :=
  ⟨runAll_debugging s rules steps state, fun e _ =>
    ⟨e.frames_plain, e.category_plain, e.suggestions_plain, e.innermost_plain,
      e.message_plain_isPrefix⟩⟩

end Playback
end Stencil
