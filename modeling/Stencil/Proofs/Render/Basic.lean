import Stencil.Render.Renderer

/-! What renderers do, step by step.

An attempt that is known to come to a value goes on with that value, and one that fails is over.
Rendering a template is compiling it and running its script (`Renderer.render_of_host`), and so is
answering an include, once the template is found (`Renderer.host_eq`). -/
namespace Stencil

/-! ### Attempts -/

section Attempts

variable {σ ε α β : Type} {state state' : σ}

theorem run_bind_ok {m : ExceptT ε (StateM σ) α} {a : α} (f : α → ExceptT ε (StateM σ) β)
    (h : m.run.run state = (.ok a, state')) :
    (m >>= f).run.run state = (f a).run.run state' := by
  rw [ExceptT.run_bind, StateT.run_bind, h]
  rfl

theorem run_bind_error {m : ExceptT ε (StateM σ) α} {e : ε} (f : α → ExceptT ε (StateM σ) β)
    (h : m.run.run state = (.error e, state')) :
    (m >>= f).run.run state = (.error e, state') := by
  rw [ExceptT.run_bind, StateT.run_bind, h]
  rfl

theorem run_bind_lift {m : StateM σ α} {a : α} (f : α → ExceptT ε (StateM σ) β)
    (h : m.run state = (a, state')) :
    ((liftM m : ExceptT ε (StateM σ) α) >>= f).run.run state = (f a).run.run state' := by
  refine run_bind_ok f ?_
  show (Except.ok <$> m).run state = _
  rw [StateT.run_map, h]
  rfl

end Attempts

/-! ### Renderers -/

namespace Renderer

variable {σ : Type} {r : Renderer σ} {t : Template} {script : Script} {scope : Scope}
  {result : Except ScriptFailure Text} {s s' : σ}

theorem compile_eq (h : t.compile r.settings.delimiters r.settings.indentUnit = .ok script) :
    r.compile t = .ok script := by
  rw [compile, h]
  rfl

/-- Running a script is executing its code, and telling a failure at its line. -/
theorem run_eq {host : Host σ}
    (h : (r.runtime.execute (r.request script scope) host).run s = (result, s')) :
    (r.run host t script scope).run.run s = (result.mapError (r.failure t script), s') := by
  unfold run
  refine (run_bind_lift _ h).trans ?_
  cases result with
  | ok output => rfl
  | error f => rfl

/-- Rendering a template is running its script, with includes answered by the renderer. -/
theorem render_of_host
    (hcompile : t.compile r.settings.delimiters r.settings.indentUnit = .ok script)
    (hrun : (r.runtime.execute (r.request script scope)
      (r.host t.directory? r.settings.maxIncludeDepth)).run s = (result, s')) :
    (r.render t scope).run.run s =
      ((result.mapError (r.failure t script)).map (⟨·, script.code⟩), s') := by
  have hexecute : (r.execute t script scope).run.run s =
      (result.mapError (r.failure t script), s') := run_eq hrun
  unfold render
  rw [compile_eq hcompile]
  refine (run_bind_ok _ (a := script) rfl).trans ?_
  cases result with
  | ok output => exact run_bind_ok _ hexecute
  | error f => exact run_bind_error _ hexecute

/-- A script that runs alike whatever answers its includes. -/
theorem render_eq (hcompile : t.compile r.settings.delimiters r.settings.indentUnit = .ok script)
    (hrun : ∀ host, (r.runtime.execute (r.request script scope) host).run s = (result, s)) :
    (r.render t scope).run.run s =
      ((result.mapError (r.failure t script)).map (⟨·, script.code⟩), s) :=
  render_of_host hcompile (hrun _)

/-- An include is answered by the output of the template that is found. -/
theorem host_eq {directory : Option Path} {levels : Nat} {path : Path} {output : Text}
    (hload : (r.load (target directory path)).run.run s = (.ok t, s))
    (hcompile : t.compile r.settings.delimiters r.settings.indentUnit = .ok script)
    (hrun : (r.runtime.execute (r.request script scope) (r.host t.directory? levels)).run s =
      (.ok output, s)) :
    (r.host directory (levels + 1) path scope).run.run s = (.ok output, s) := by
  unfold host
  refine (run_bind_ok _ hload).trans ?_
  rw [compile_eq hcompile]
  exact (run_bind_ok _ (a := script) rfl).trans (run_eq hrun)

end Renderer
end Stencil
