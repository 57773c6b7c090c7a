import Stencil.Proofs.Lua.Strict

/-! What engines do for a renderer.

A renderer gets the output of a script as the engine has it, and of a script that does not run to
its end the failure that the report stands for. -/
namespace Stencil.Lua

variable {σ : Type} {r : Request} {host : Host σ} {s s' : σ} {text : Text}

namespace Engine

variable {E : Engine σ}

theorem execute_run : (E.runtime.execute r host).run s =
    (((E.run r host).run s).1.mapError Report.failure, ((E.run r host).run s).2) := rfl

theorem execute_eq_ok_iff : (E.runtime.execute r host).run s = (.ok text, s') ↔
    (E.run r host).run s = (.ok text, s') := by
  rw [execute_run]
  obtain ⟨result | output, after⟩ := (E.run r host).run s
  · exact iff_of_false nofun nofun
  · constructor
    · rintro ⟨⟩
      rfl
    · rintro ⟨⟩
      rfl

end Engine

/-- The interpreter ends as the code of the script does. -/
theorem run_of_runCode {report : Option Report} {m : Machine}
    (h : ((runCode ⟨host, r.scope, r.functions⟩ r.code).run.run {}).run s = ((.ok report, m), s')) :
    (interpreter.run r host).run s = ((report.map .error).getD (.ok m.output), s') := by
  unfold interpreter
  rw [StateT.run_bind, h]
  cases report with
  | none => rfl
  | some report => rfl

/-- A script that raises anything has no output. -/
theorem run_of_fails (h : Fails s (runScript ⟨host, r.scope, r.functions⟩ r.code) {}) :
    ∃ report, ((interpreter.run r host).run s).1 = .error report := by
  obtain ⟨raised, m, world, hcode⟩ := h.caught _
  unfold interpreter
  rw [StateT.run_bind, runCode, hcode, ExceptT.run_bind, StateT.run_bind, StateT.run_bind]
  obtain ⟨⟨_ | report, _⟩, _⟩ :=
    ((reportOf ⟨host, r.scope, r.functions⟩ raised).run.run m).run world
  · exact ⟨_, rfl⟩
  · exact ⟨_, rfl⟩

end Stencil.Lua
