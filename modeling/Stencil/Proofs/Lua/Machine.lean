import Stencil.Lua.Machine

/-! What effects do to a machine.

`Yields` says with which value an effect ends and which machine it leaves. A script that only
prints and counts leaves alone what was there before it: `Extends` says so, and what it has written
in the meantime. `Writes` is the two together, and composes by `Writes.bind`. -/
namespace Stencil.Lua

variable {σ α β : Type}

namespace Machine

/-- The table with a number. -/
def object (m : Machine) (id : Nat) : Object := (m.objects[id]?).getD {}

/-- The value of the variable with a number. -/
def cell (m : Machine) (id : Nat) : Value := (m.cells[id]?).getD .nil

end Machine

/-! ### Results -/

/-- What stands behind an effect that has a result goes on from where it has come to. -/
theorem run_bind_of_ok {act : Eval σ α} {m m' : Machine} {world world' : σ} {a : α}
    (h : (act.run.run m).run world = ((.ok a, m'), world')) (f : α → Eval σ β) :
    ((act >>= f).run.run m).run world = ((f a).run.run m').run world' := by
  rw [ExceptT.run_bind, StateT.run_bind, StateT.run_bind, h]
  rfl

/-- From one machine the effect comes to another with a value; the world outside is as it was. -/
def Yields (world : σ) (act : Eval σ α) (m : Machine) (a : α) (m' : Machine) : Prop :=
  (act.run.run m).run world = ((.ok a, m'), world)

namespace Yields

variable {world : σ} {act : Eval σ α} {m m' m'' : Machine} {a : α} {b : β}

theorem pure (a : α) (m : Machine) : Yields world (pure a : Eval σ α) m a m := rfl

/-- What comes behind an effect goes on from where it ends. -/
theorem run_bind (h : Yields world act m a m') (f : α → Eval σ β) :
    ((act >>= f).run.run m).run world = ((f a).run.run m').run world := run_bind_of_ok h f

theorem bind {f : α → Eval σ β} (h : Yields world act m a m') (hf : Yields world (f a) m' b m'') :
    Yields world (act >>= f) m b m'' := (h.run_bind f).trans hf

/-- An effect that raises nothing leaves nothing to catch. -/
theorem caught {handle : Value → Eval σ α} (h : Yields world act m a m') :
    Yields world (tryCatch act handle) m a m' := by
  rw [Yields, ExceptT.run_tryCatch, StateT.run_bind, StateT.run_bind, show _ = _ from h]
  rfl

/-- An effect on the world outside that changes nothing there. -/
theorem lift {x : StateM σ α} (h : x.run world = (a, world)) (m : Machine) :
    Yields world (monadLift x : Eval σ α) m a m := by
  show (x >>= fun a => Pure.pure (Except.ok a, m)).run world = _
  rw [StateT.run_bind, h]
  rfl

theorem get (m : Machine) : Yields world (get : Eval σ Machine) m m m := rfl

theorem modify (f : Machine → Machine) (m : Machine) :
    Yields world (modify f : Eval σ Unit) m () (f m) := rfl

theorem newCell (v : Value) (m : Machine) :
    Yields world (Eval.newCell v : Eval σ Nat) m m.cells.size { m with cells := m.cells.push v } :=
  rfl

theorem newTable (o : Object) (m : Machine) :
    Yields world (Eval.newTable o : Eval σ Nat) m m.objects.size
      { m with objects := m.objects.push o } := rfl

theorem object (id : Nat) (m : Machine) :
    Yields world (Eval.object id : Eval σ Object) m (m.object id) m := rfl

theorem changeObject (id : Nat) (f : Object → Object) (m : Machine) :
    Yields world (Eval.changeObject id f : Eval σ Unit) m ()
      { m with objects := m.objects.modify id f } := rfl

theorem newClosure (c : Closure) (m : Machine) :
    Yields world (Eval.newClosure c : Eval σ Nat) m m.closures.size
      { m with closures := m.closures.push c } := rfl

end Yields

/-! ### What is left alone -/

/-- The tables and cells that there were on a machine have their values on a later one, and a
text has been written since. -/
structure Extends (m m' : Machine) (text : Text) : Prop where
  tables : m.objects.size ≤ m'.objects.size
  object : ∀ {id}, id < m.objects.size → m'.object id = m.object id
  cells : m.cells.size ≤ m'.cells.size
  cell : ∀ {id}, id < m.cells.size → m'.cell id = m.cell id
  output : m'.output = m.output ++ text

namespace Extends

variable {m m' m'' : Machine} {t u : Text}

/-- A machine that has the same tables and cells and has written the same. -/
theorem of_eq (hobjects : m'.objects = m.objects) (hcells : m'.cells = m.cells)
    (hwritten : m'.written = m.written) : Extends m m' [] where
  tables := Nat.le_of_eq (congrArg Array.size hobjects.symm)
  object _ := by rw [Machine.object, hobjects, Machine.object]
  cells := Nat.le_of_eq (congrArg Array.size hcells.symm)
  cell _ := by rw [Machine.cell, hcells, Machine.cell]
  output := by rw [Machine.output, hwritten, Machine.output, List.append_nil]

theorem refl (m : Machine) : Extends m m [] := of_eq rfl rfl rfl

theorem trans (h : Extends m m' t) (h' : Extends m' m'' u) : Extends m m'' (t ++ u) where
  tables := Nat.le_trans h.tables h'.tables
  object hid := (h'.object (Nat.lt_of_lt_of_le hid h.tables)).trans (h.object hid)
  cells := Nat.le_trans h.cells h'.cells
  cell hid := (h'.cell (Nat.lt_of_lt_of_le hid h.cells)).trans (h.cell hid)
  output := by rw [h'.output, h.output, List.append_assoc]

/-- A new variable. -/
theorem pushCell (m : Machine) (v : Value) : Extends m { m with cells := m.cells.push v } [] where
  tables := Nat.le_refl _
  object _ := rfl
  cells := by simp
  cell hid := by simp only [Machine.cell, Array.getElem?_push_lt hid, Array.getElem?_eq_getElem hid]
  output := (List.append_nil _).symm

/-- A new table. -/
theorem pushObject (m : Machine) (o : Object) :
    Extends m { m with objects := m.objects.push o } [] where
  tables := by simp
  object hid := by
    simp only [Machine.object, Array.getElem?_push_lt hid, Array.getElem?_eq_getElem hid]
  cells := Nat.le_refl _
  cell _ := rfl
  output := (List.append_nil _).symm

/-- Tables that are new may change. -/
theorem changeObject {id : Nat} (f : Object → Object) (h : Extends m m' t)
    (hid : m.objects.size ≤ id) : Extends m { m' with objects := m'.objects.modify id f } t where
  tables := by simpa using h.tables
  object hother := by
    rw [← h.object hother]
    simp only [Machine.object, Array.getElem?_modify]
    rw [if_neg (by omega)]
  cells := h.cells
  cell := h.cell
  output := h.output

end Extends

/-- The effect ends with a value, extends the machine and writes a text. -/
def Writes (world : σ) (act : Eval σ α) (m : Machine) (a : α) (text : Text) : Prop :=
  ∃ m', Yields world act m a m' ∧ Extends m m' text

namespace Writes

variable {world : σ} {act : Eval σ α} {m : Machine} {a : α} {b : β} {t u : Text}

theorem pure (a : α) (m : Machine) : Writes world (pure a : Eval σ α) m a [] :=
  ⟨m, .pure a m, .refl m⟩

theorem bind {f : α → Eval σ β} (h : Writes world act m a t)
    (hf : ∀ {m'}, Extends m m' t → Writes world (f a) m' b u) :
    Writes world (act >>= f) m b (t ++ u) := by
  obtain ⟨m', hact, hm'⟩ := h
  obtain ⟨m'', hrest, hm''⟩ := hf hm'
  exact ⟨m'', hact.bind hrest, hm'.trans hm''⟩

/-- The first effect writes nothing. -/
theorem silent {f : α → Eval σ β} (h : Writes world act m a [])
    (hf : ∀ {m'}, Extends m m' [] → Writes world (f a) m' b u) : Writes world (act >>= f) m b u :=
  h.bind hf

/-- The second effect writes nothing. -/
theorem bindSilent {f : α → Eval σ β} (h : Writes world act m a t)
    (hf : ∀ {m'}, Extends m m' t → Writes world (f a) m' b []) :
    Writes world (act >>= f) m b t := by
  have := h.bind hf
  rwa [List.append_nil] at this

theorem caught {handle : Value → Eval σ α} (h : Writes world act m a t) :
    Writes world (tryCatch act handle) m a t := by
  obtain ⟨m', hact, hm'⟩ := h
  exact ⟨m', hact.caught, hm'⟩

theorem get (m : Machine) : Writes world (get : Eval σ Machine) m m [] := ⟨m, .get m, .refl m⟩

/-- An effect on the calls under way, or on what scripts cannot see. -/
theorem modify {f : Machine → Machine} (hobjects : (f m).objects = m.objects)
    (hcells : (f m).cells = m.cells) (hwritten : (f m).written = m.written) :
    Writes world (modify f : Eval σ Unit) m () [] :=
  ⟨f m, .modify f m, .of_eq hobjects hcells hwritten⟩

theorem atLine (line : Nat) (m : Machine) : Writes world (Eval.atLine line : Eval σ Unit) m () [] :=
  modify rfl rfl rfl

theorem write (t : Text) (m : Machine) : Writes world (Eval.write t : Eval σ Unit) m () t := by
  refine ⟨_, .modify _ m, Nat.le_refl _, fun _ => rfl, Nat.le_refl _, fun _ => rfl, ?_⟩
  simp [Machine.output]

/-- The machine that the first effect leaves is known. -/
theorem behind {m' : Machine} {f : α → Eval σ β} (hact : Yields world act m a m')
    (hm : Extends m m' []) (h : Writes world (f a) m' b u) : Writes world (act >>= f) m b u := by
  obtain ⟨m'', hrest, hm''⟩ := h
  exact ⟨m'', hact.bind hrest, hm.trans hm''⟩

theorem readCell (id : Nat) (m : Machine) :
    Writes world (Eval.readCell id : Eval σ Value) m (m.cell id) [] :=
  silent (get m) fun _ => pure _ _

theorem object (id : Nat) (m : Machine) :
    Writes world (Eval.object id : Eval σ Object) m (m.object id) [] :=
  silent (get m) fun _ => pure _ _

end Writes

end Stencil.Lua
