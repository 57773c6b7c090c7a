import Stencil.Lua.Run
import Stencil.Proofs.Lua.Machine
import Stencil.Proofs.Lua.Object

/-! What expressions and calls do.

`Finds` says what an environment has under a name, be it a variable or a global variable; it stays
true while a machine is extended. There is one lemma for each kind of expression that a program
has, and one for calls of functions that the script does not define. -/
namespace Stencil.Lua

variable {σ : Type} {world : σ} {invoke : Invoke σ} {env : Env} {m m' : Machine} {t u : Text}

/-! ### Names -/

/-- The value that a script finds under a name. -/
inductive Finds (env : Env) (m : Machine) (name : Text) (v : Value) : Prop
  | inCell (cell : Nat) (hname : env.cell? name = some cell) (hcell : cell < m.cells.size)
      (hv : m.cell cell = v)
  | inTable (cell : Nat) (hname : env.cell? name = none)
      (henv : env.cell? globalsName = some cell) (hcell : cell < m.cells.size)
      (hglobals : m.cell cell = .table globals) (htable : globals < m.objects.size)
      (hv : (m.object globals).getText name = v) (hnil : v.isNil = false)

namespace Env

theorem cell?_add_self (env : Env) (name : Text) (cell : Nat) :
    (env.add name cell).cell? name = some cell := by
  simp [cell?, local?, add]

theorem cell?_add_of_ne (env : Env) {name other : Text} (cell : Nat) (h : name ≠ other) :
    (env.add name cell).cell? other = env.cell? other := by
  simp [cell?, local?, captured?, add, h]

end Env

namespace Finds

variable {name other : Text} {v : Value}

theorem later (h : Finds env m name v) (hm : Extends m m' t) : Finds env m' name v := by
  cases h with
  | inCell cell hname hcell hv =>
    exact .inCell cell hname (Nat.lt_of_lt_of_le hcell hm.cells) ((hm.cell hcell).trans hv)
  | inTable cell hname henv hcell hglobals htable hv hnil =>
    refine .inTable cell hname henv (Nat.lt_of_lt_of_le hcell hm.cells)
      ((hm.cell hcell).trans hglobals) (Nat.lt_of_lt_of_le htable hm.tables) ?_ hnil
    rw [hm.object htable]
    exact hv

/-- A variable hides its own name only, as long as that is not what global variables are found
with. -/
theorem add (h : Finds env m other v) (cell : Nat) (hother : name ≠ other)
    (hglobals : name ≠ globalsName) : Finds (env.add name cell) m other v := by
  cases h with
  | inCell own hname hcell hv =>
    exact .inCell own ((env.cell?_add_of_ne cell hother).trans hname) hcell hv
  | inTable own hname henv hcell htable hsize hv hnil =>
    exact .inTable own ((env.cell?_add_of_ne cell hother).trans hname)
      ((env.cell?_add_of_ne cell hglobals).trans henv) hcell htable hsize hv hnil

/-- A new variable has its value. -/
theorem new (env : Env) (m : Machine) (name : Text) (v : Value) :
    Finds (env.add name m.cells.size) { m with cells := m.cells.push v } name v := by
  refine .inCell _ (env.cell?_add_self _ _) ?_ ?_
  · show m.cells.size < (m.cells.push v).size
    rw [Array.size_push]
    exact Nat.lt_succ_self _
  · simp [Machine.cell]

end Finds

/-- One new variable. -/
theorem Yields.bindVariable (env : Env) (m : Machine) (name : Text) (v : Value) :
    Yields world (env.bind [name] [v] : Eval σ Env) m (env.add name m.cells.size)
      { m with cells := m.cells.push v } := bind (newCell v m) (pure _ _)

/-- A call that is over with its first step. -/
theorem Yields.of_step {context : Context σ} {depth : Nat} {f : Value}
    {arguments values : List Value} {naming : Option Naming}
    (h : Yields world (step (Lua.invoke context depth) context ⟨f, arguments, naming⟩) m
      (.inr values) m') :
    Yields world (Lua.invoke context (depth + 1) f arguments naming) m values m' := by
  obtain ⟨rounds, hrounds⟩ : ∃ n, maxRounds = n + 1 := ⟨0x3FFFFFFFFFFFFFFF, rfl⟩
  unfold Lua.invoke
  rw [hrounds, complete]
  exact h.bind (pure _ _)

/-- A call of a function that the script does not define. -/
theorem Yields.invoke_native {context : Context σ} {depth : Nat} {f : Native}
    {arguments values : List Value} {naming : Option Naming}
    (h : Yields world (callNative (Lua.invoke context depth) context f (f.called naming arguments))
      { m with frames := ⟨none, 0, .native f, naming⟩ :: m.frames } values m') :
    Yields world (Lua.invoke context (depth + 1) (.native f) arguments naming) m values
      { m' with frames := m'.frames.drop 1 } :=
  of_step (bind (bind (modify _ m) (h.bind (bind (modify _ m') (pure values _)))) (pure _ _))

namespace Writes

/-! ### Expressions -/

/-- An index that the table has a value for does not ask the metatable. -/
theorem index {id : Nat} {key v : Value} {naming : Option Naming}
    (h : (m.object id).get key = v) (hv : v.isNil = false) :
    Writes world (index invoke ⟨.table id, naming⟩ key) m v [] := by
  unfold Lua.index maxChain indexIn
  refine silent (object id m) fun _ => silent (pure _ _) fun _ => ?_
  dsimp only
  rw [h, hv]
  exact pure _ _

theorem readVariable {name : Text} {v : Value} (h : Finds env m name v) :
    Writes world (readVariable invoke env name) m v [] := by
  unfold Lua.readVariable
  cases h with
  | inCell cell hname _ hv =>
    rw [hname, ← hv]
    exact readCell cell m
  | inTable cell hname henv hcell hglobals htable hv hnil =>
    rw [hname, henv]
    refine silent (readCell cell m) fun hm => ?_
    rw [hglobals]
    refine index ?_ hnil
    rw [hm.object htable]
    exact hv

theorem name {name : Text} {v : Value} (h : Finds env m name v) (line : Nat) :
    Writes world (eval invoke (.name name line) env) m [v] [] := by
  unfold eval
  exact silent (atLine line m) fun hm => silent (readVariable (h.later hm)) fun _ => pure _ _

theorem evalList_cons {e e' : Expr} {es : List Expr} {v : Value} {values others : List Value}
    (hfirst : Writes world (eval invoke e env) m values [])
    (hv : first values = v)
    (hrest : ∀ {m'}, Extends m m' [] → Writes world (evalList invoke (e' :: es) env) m' others t) :
    Writes world (evalList invoke (e :: e' :: es) env) m (v :: others) t := by
  unfold evalList
  refine silent hfirst fun hm => ?_
  rw [hv]
  exact bindSilent (hrest hm) fun _ => pure _ _

/-- A call of a function by its name. -/
theorem call {function : Text} {f : Value} {arguments : List Expr} {values results : List Value}
    (hf : Finds env m function f) (line : Nat)
    (harguments : ∀ {m'}, Extends m m' [] →
      Writes world (evalList invoke arguments env) m' values [])
    (hcall : ∀ {m'}, Extends m m' [] →
      ∀ naming, Writes world (invoke f values naming) m' results t) :
    Writes world (eval invoke (.call (.name function line) arguments line) env) m results t := by
  unfold eval
  refine silent (name hf line) fun hm => silent (harguments hm) fun hm' => ?_
  exact silent (atLine line _) fun hm'' => hcall (hm.trans (hm'.trans hm'')) _

/-- Two texts that are put together. -/
theorem concat {e e' : Expr} {a b : Text} (line : Nat)
    (ha : Writes world (eval invoke e env) m [.ofText a] [])
    (hb : ∀ {m'}, Extends m m' [] → Writes world (eval invoke e' env) m' [.ofText b] []) :
    Writes world (eval invoke (.binary .concat e e' line) env) m [.ofText (a ++ b)] [] := by
  have happly : ∀ m naming naming', Writes world
      (applyBinary invoke .concat ⟨.ofText a, naming⟩ ⟨.ofText b, naming'⟩) m
      (.ofText (a ++ b)) [] := by
    intro m naming naming'
    show Writes world (Pure.pure (Value.string (a.bytes ++ b.bytes))) _ _ _
    rw [← Text.bytes_append]
    exact pure _ _
  unfold eval
  refine silent ha fun hm => silent (hb hm) fun _ => silent (atLine line _) fun _ => ?_
  exact silent (happly _ _ _) fun _ => pure _ _

/-! ### Statements -/

theorem callStatement {e : Expr} {values : List Value}
    (h : Writes world (eval invoke e env) m values t) :
    Writes world (exec invoke (.call e) env) m (.proceed, env) t := by
  unfold exec
  exact bindSilent h fun _ => pure _ _

/-- A statement that the block goes on behind, in the environment from before. -/
theorem execBlock_cons {s : Statement} {rest : List Statement}
    (h : Writes world (exec invoke s env) m (.proceed, env) t)
    (hrest : ∀ {m'}, Extends m m' t →
      Writes world (execBlock invoke rest env) m' (.proceed, env) u) :
    Writes world (execBlock invoke (s :: rest) env) m (.proceed, env) (t ++ u) := by
  rw [execBlock]
  exact bind h fun hm => hrest hm

theorem execBlock_nil : Writes world (execBlock invoke [] env) m (.proceed, env) [] := by
  rw [execBlock]
  exact pure _ _

/-! ### Calls -/

variable {context : Context σ}

/-- A call of a function that the script does not define. -/
theorem invoke_native {depth : Nat} {f : Native} {arguments values : List Value}
    {naming : Option Naming}
    (h : ∀ {m'}, Extends m m' [] →
      Writes world (callNative (Lua.invoke context depth) context f (f.called naming arguments)) m'
        values t) :
    Writes world (Lua.invoke context (depth + 1) (.native f) arguments naming) m values t := by
  have henter : Extends m { m with frames := ⟨none, 0, .native f, naming⟩ :: m.frames } [] :=
    .of_eq rfl rfl rfl
  obtain ⟨m', hcall, hm'⟩ := h henter
  have hleave : Extends m' { m' with frames := m'.frames.drop 1 } [] := .of_eq rfl rfl rfl
  have hall := henter.trans (hm'.trans hleave)
  rw [List.append_nil] at hall
  exact ⟨_, .invoke_native hcall, hall⟩

end Writes
end Stencil.Lua
