import Stencil.Proofs.Lua.Evaluation

/-! How a script is started.

The statements of a script run in an environment with one variable, the one that global variables
are found with (`scriptEnv`). `Yields.runChunk` reduces running a script to running them. -/
namespace Stencil.Lua

variable {σ : Type} {world : σ} {context : Context σ}

/-- The environment that the statements of a script begin in. -/
def scriptEnv (name : Text) (cell : Nat) (arguments : List Value) : Env :=
  ⟨name, [], [(globalsName, cell)], arguments⟩

namespace Machine

/-- The machine with a script as a function. -/
def load (m : Machine) (name : Text) (body : List Statement) : Machine :=
  { m with
    cells := m.cells.push (.table globals)
    closures := m.closures.push ⟨.mk [] true body 0, scriptEnv name m.cells.size []⟩ }

/-- The machine on which the statements of a script begin. -/
def start (m : Machine) (name : Text) (body : List Statement) : Machine :=
  { m.load name body with
    frames := ⟨some name, 0, .closure m.closures.size, none⟩ :: m.frames }

theorem closures_load (m : Machine) (name : Text) (body : List Statement) :
    (m.load name body).closures[m.closures.size]? =
      some ⟨.mk [] true body 0, scriptEnv name m.cells.size []⟩ := Array.getElem?_push_size

end Machine

theorem Extends.start (m : Machine) (name : Text) (body : List Statement) :
    Extends m (m.start name body) [] :=
  (Extends.pushCell m (.table globals)).trans (.of_eq rfl rfl rfl)

namespace Finds

variable {m : Machine} {name script : Text} {body : List Statement} {arguments : List Value}
  {v : Value}

/-- At its start a script finds the global variables. -/
theorem start (htable : globals < m.objects.size) (hname : name ≠ globalsName)
    (hv : (m.object globals).getText name = v) (hnil : v.isNil = false) :
    Finds (scriptEnv script m.cells.size arguments) (m.start script body) name v := by
  refine .inTable m.cells.size ?_ ?_ ?_ ?_ htable hv hnil
  · simp [scriptEnv, Env.cell?, Env.local?, Env.captured?, Ne.symm hname]
  · simp [scriptEnv, Env.cell?, Env.local?, Env.captured?]
  · simp [Machine.start, Machine.load]
  · simp [Machine.start, Machine.load, Machine.cell]

end Finds

namespace Yields

variable {m m' : Machine} {name : Text} {body : List Statement} {arguments : List Value} {env : Env}

theorem loadChunk (name : Text) (body : List Statement) (m : Machine) :
    Yields world (loadChunk name body : Eval σ Value) m (.closure m.closures.size)
      (m.load name body) := (newCell _ m).bind (bind (newClosure _ _) (pure _ _))

theorem enterScript (name : Text) (body : List Statement) (m : Machine) :
    Yields world (Eval.enter ⟨some name, 0, .closure m.closures.size, none⟩ : Eval σ Unit)
      (m.load name body) () (m.start name body) := modify _ _

/-- A script that runs to its end leaves the machine that its statements leave. -/
theorem runChunk
    (h : Yields world (execBlock (invoke context (maxDepth - 1)) body
      (scriptEnv name m.cells.size arguments)) (m.start name body) (.proceed, env) m') :
    Yields world (runChunk context name body arguments) m ()
      { m' with frames := m'.frames.drop 1 } := by
  have hexec : Yields world (execFunction (invoke context (maxDepth - 1))
      ⟨.mk [] true body 0, scriptEnv name m.cells.size []⟩ arguments) (m.start name body) .proceed
      m' := (pure _ _).bind (h.bind (pure _ _))
  have hstep : Yields world (step (invoke context (maxDepth - 1)) context
      ⟨.closure m.closures.size, arguments, none⟩) (m.load name body) (.inr [])
      { m' with frames := m'.frames.drop 1 } := by
    refine (get _).bind ?_
    dsimp only
    rw [m.closures_load]
    exact (enterScript name body m).bind (hexec.bind ((modify _ _).bind (pure _ _)))
  have hinvoke : Yields world (invoke context maxDepth (.closure m.closures.size) arguments none)
      (m.load name body) [] { m' with frames := m'.frames.drop 1 } := of_step hstep
  exact (loadChunk name body m).bind (hinvoke.bind (pure _ _))

end Yields
end Stencil.Lua
