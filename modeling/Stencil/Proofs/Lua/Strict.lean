import Stencil.Proofs.Lua.Preparation

/-! Strict global variables.

Before a script is run another one makes it an error to read a global variable that was never set:
it calls `setmetatable` with the table under `_G`. That only gives a table a metatable, so what was
set is still found (`prepare_furnishes`). Both names may be those of variables of the template. The
call works out as long as there is no variable `setmetatable`, and `_G` is an object if it is a
variable (`Scope.Spares`); otherwise it fails, and no script can be run (`prepare_fails`). -/
namespace Stencil

/-- The value is an object. -/
def Json.isObject : Json → Bool
  | members _ => true
  | _ => false

/-- The variables leave alone what makes the global variables strict: none is called
`setmetatable`, and one called `_G` is an object. -/
def Scope.Spares (scope : Scope) : Prop :=
  ∀ e ∈ scope.entries, e.1 ≠ "setmetatable".toList ∧ (e.1 = "_G".toList → e.2.isObject = true)

instance (scope : Scope) : Decidable scope.Spares :=
  inferInstanceAs (Decidable (∀ e ∈ scope.entries, _))

/-- The names of the global variables that make the others strict. -/
def Lua.strictNames : List Text := ["_G".toList, "setmetatable".toList]

theorem Scope.Spares.of_not_mem {scope : Scope}
    (h : ∀ name ∈ Lua.strictNames, name ∉ scope.names) : scope.Spares := by
  intro e he
  have hname : e.1 ∉ Lua.strictNames := fun hmem => h e.1 hmem (List.mem_map_of_mem he)
  exact ⟨fun heq => hname (heq ▸ by decide), fun heq => absurd (heq ▸ by decide) hname⟩

theorem Scope.Spares.setMetatable {scope : Scope} (h : scope.Spares) :
    "setmetatable".toList ∉ scope.names := by
  intro hmem
  obtain ⟨e, he, hname⟩ := List.mem_map.1 hmem
  exact (h e he).1 hname

namespace Lua

variable {σ : Type} {world : σ} {context : Context σ} {m m' m'' : Machine} {env : Env} {name : Text}

/-! ### The script -/

/-- Sets a metatable with a function that is asked for the global variables that are missing. -/
def strictCall (missing : Function) : Expr :=
  .call (.name "setmetatable" 3)
    [.name "_G" 3, .table [.entry (.string (Text.bytes "__index")) (.function missing) 9]] 3

def strictBody (missing : Function) : List Statement :=
  [.locals ["declared".toList] [.rest], .call (strictCall missing)]

/-- The function in a `strictBody`. -/
def strictFunction? : List Statement → Option Function
  | [.locals [declared] [.rest], .call (.call (.name f 3)
      [.name g 3, .table [.entry (.string key) (.function missing) 9]] 3)] =>
    if declared = "declared".toList ∧ f = "setmetatable".toList ∧ g = "_G".toList ∧
      key = Text.bytes "__index" then some missing else none
  | _ => none

theorem eq_of_strictFunction? {body : List Statement} {missing : Function}
    (h : strictFunction? body = some missing) : body = strictBody missing := by
  unfold strictFunction? at h
  split at h
  · split at h
    · next hparts =>
      obtain ⟨rfl, rfl, rfl, rfl⟩ := hparts
      cases h
      rfl
    · cases h
  · cases h

theorem parse_strictGlobals : ∃ missing, parse strictGlobals = .ok (strictBody missing) := by
  have hparse : ((parse strictGlobals).toOption.bind strictFunction?).isSome = true := by
    decide +kernel
  cases hbody : parse strictGlobals with
  | error e =>
    rw [hbody] at hparse
    cases hparse
  | ok body =>
    rw [hbody] at hparse
    obtain ⟨missing, hmissing⟩ := Option.isSome_iff_exists.1 hparse
    exact ⟨missing, congrArg Except.ok (eq_of_strictFunction? hmissing)⟩

/-- A table with a function under a text. -/
theorem Yields.functionTable (invoke : Invoke σ) (env : Env) (key : Text) (f : Function) (line : Nat)
    (m : Machine) :
    ∃ m', Yields world (eval invoke (.table [.entry (.string key.bytes) (.function f) line]) env) m
      [.table m.objects.size] m' ∧ Extends m m' [] := by
  refine ⟨{ m.atLine line with
    objects := ((m.objects.push {}).modify m.objects.size (·.set (.ofText key)
      (.closure m.closures.size))).modify m.objects.size (·.setItems [])
    closures := m.closures.push ⟨f, env.enclosed⟩ }, rfl, ?_⟩
  have hpush : Extends m { m.atLine line with
      objects := m.objects.push {}, closures := m.closures.push ⟨f, env.enclosed⟩ } [] :=
    (Extends.pushObject m {}).trans (.of_eq rfl rfl rfl)
  exact (hpush.changeObject (·.set (.ofText key) (.closure m.closures.size))
    (Nat.le_refl _)).changeObject (·.setItems []) (Nat.le_refl _)

/-- A table without metatable that is no list can be given one. -/
theorem Yields.protectedMetatable {id : Nat} (hmetatable : (m.object id).metatable = none)
    (hlist : (m.object id).isList = false) :
    Yields world (Call.protectedMetatable (.table id) : Eval σ (Option Value)) m none m := by
  unfold Call.protectedMetatable
  refine (object id m).bind ?_
  rw [hlist]
  refine (object id m).bind (b := .nil) ?_ |>.bind (pure _ _)
  rw [hmetatable]
  exact pure _ _

/-! ### Reading global variables -/

theorem Extends.global {text : Text} (h : Extends m m' text) (hm : globals < m.objects.size) :
    m'.global = m.global := by
  funext name
  rw [Machine.global, h.object hm, Machine.global]

theorem Installed.later (h : Installed context m) (hm : Extends m m' []) :
    Installed context m' where
  toFurnished := h.toFurnished.of_global (Nat.lt_of_lt_of_le h.tables hm.tables)
    (hm.output.trans (List.append_nil _)) (hm.global h.tables)
  metatable := by rw [hm.object h.tables, h.metatable]
  isList := by rw [hm.object h.tables, h.isList]
  strings := Nat.lt_of_lt_of_le h.strings hm.tables
  uncallable := by rw [hm.object h.strings, h.uncallable]
  declared name hname hfunction j hj := by
    rw [hm.global h.tables]
    exact (h.declared name hname hfunction j hj).later (.of_extends h.tables hm)

/-- An environment in which a global variable that was never set is nil. -/
structure Lenient (env : Env) (m : Machine) : Prop where
  cell : ∃ cell, env.cell? globalsName = some cell ∧ cell < m.cells.size ∧
    m.cell cell = .table globals
  tables : globals < m.objects.size
  metatable : (m.object globals).metatable = none

namespace Lenient

theorem later {text : Text} (h : Lenient env m) (hm : Extends m m' text) : Lenient env m' where
  cell := by
    obtain ⟨cell, henv, hcell, hglobals⟩ := h.cell
    exact ⟨cell, henv, Nat.lt_of_lt_of_le hcell hm.cells, (hm.cell hcell).trans hglobals⟩
  tables := Nat.lt_of_lt_of_le h.tables hm.tables
  metatable := by rw [hm.object h.tables, h.metatable]

theorem index (h : Lenient env m) {invoke : Invoke σ} {naming : Option Naming} :
    Writes world (index invoke ⟨.table globals, naming⟩ (.ofText name)) m (m.global name) [] := by
  by_cases hnil : m.global name = .nil
  · rw [hnil]
    have hget : (m.object globals).get (.ofText name) = .nil := hnil
    have hmetafield : Yields world (metafield (.table globals) "__index" : Eval σ Value) m .nil m := by
      refine (Yields.object globals m).bind ?_
      rw [h.metatable]
      exact .pure _ _
    unfold Lua.index maxChain indexIn
    refine ⟨m, ((Yields.object globals m).bind (.pure _ _)).bind ?_, .refl m⟩
    dsimp only
    rw [hget]
    exact (Yields.pure _ m).bind (hmetafield.bind (.pure _ _))
  · refine Writes.index rfl ?_
    show (m.global name).isNil = false
    cases hv : m.global name with
    | nil => exact absurd hv hnil
    | _ => rfl

/-- A name that is no variable of the script. -/
theorem evalName (h : Lenient env m) {invoke : Invoke σ} (hname : env.cell? name = none)
    (line : Nat) :
    Writes world (eval invoke (.name name line) env) m [m.global name] [] := by
  unfold eval
  refine .silent (Writes.atLine line m) fun {m'} hm' => ?_
  obtain ⟨cell, henv, _, hglobals⟩ := (h.later hm').cell
  have hread : Writes world (readVariable invoke env name) m' (m.global name) [] := by
    unfold readVariable
    rw [hname, henv]
    refine .silent (Writes.readCell cell m') fun {m''} hm => ?_
    have hglobal : m''.global = m.global := (hm.global (h.later hm').tables).trans
      (hm'.global h.tables)
    rw [hglobals, ← hglobal]
    exact ((h.later hm').later hm).index
  exact .silent hread fun _ => .pure _ _

end Lenient

/-! ### Failures -/

/-- From one machine the effect ends in a raised value. -/
def Fails {α : Type} (world : σ) (act : Eval σ α) (m : Machine) : Prop :=
  ∃ v m' world', (act.run.run m).run world = ((.error v, m'), world')

namespace Fails

variable {α β : Type} {act : Eval σ α} {a : α}

theorem throw (v : Value) (m : Machine) : Fails world (throw v : Eval σ α) m := ⟨v, m, world, rfl⟩

theorem bind {f : α → Eval σ β} (h : Fails world act m) : Fails world (act >>= f) m := by
  obtain ⟨v, m', world', hact⟩ := h
  refine ⟨v, m', world', ?_⟩
  rw [ExceptT.run_bind, StateT.run_bind, StateT.run_bind, hact]
  rfl

theorem behind {f : α → Eval σ β} (h : Yields world act m a m') (hf : Fails world (f a) m') :
    Fails world (act >>= f) m := by
  obtain ⟨v, m'', world', hrest⟩ := hf
  exact ⟨v, m'', world', (h.run_bind f).trans hrest⟩

/-- What fails goes on with the handler of what was raised. -/
theorem caught (h : Fails world act m) (handle : Value → Eval σ α) :
    ∃ v m' world', ((tryCatch act handle).run.run m).run world =
      ((handle v).run.run m').run world' := by
  obtain ⟨v, m', world', hact⟩ := h
  refine ⟨v, m', world', ?_⟩
  rw [ExceptT.run_tryCatch, StateT.run_bind, StateT.run_bind, hact]
  rfl

theorem raiseAt (level : Nat) (message : Text) (m : Machine) :
    Fails world (Eval.raiseAt level message : Eval σ α) m := behind (.get m) (throw _ _)

theorem expected (c : Call) (i : Nat) (type : Text) (m : Machine) :
    Fails world (c.expected i type : Eval σ α) m := by
  unfold Call.expected Call.refuse
  dsimp only
  split
  · exact raiseAt 1 _ m
  · exact raiseAt 1 _ m

/-- A call fails with its first step. -/
theorem of_step {f : Value} {arguments : List Value} {naming : Option Naming} {depth : Nat}
    (h : Fails world (step (invoke context depth) context ⟨f, arguments, naming⟩) m) :
    Fails world (invoke context (depth + 1) f arguments naming) m := by
  obtain ⟨rounds, hrounds⟩ : ∃ n, maxRounds = n + 1 := ⟨0x3FFFFFFFFFFFFFFF, rfl⟩
  unfold invoke
  rw [hrounds, complete]
  exact h.bind

end Fails

theorem Stands.metafield_call {j : Json} {v : Value} (h : Stands m j v)
    (hstrings : (m.object stringMetatable).getText "__call" = .nil) :
    Yields world (metafield v "__call" : Eval σ Value) m .nil m := by
  have htable : ∀ {id}, (m.object id).metatable = none →
      Yields world (metafield (.table id) "__call" : Eval σ Value) m .nil m := by
    intro id hmetatable
    refine (Yields.object id m).bind ?_
    rw [hmetatable]
    exact .pure _ _
  cases h with
  | array _ _ hmetatable _ => exact htable hmetatable
  | members _ _ hmetatable _ => exact htable hmetatable
  | plain hj =>
    cases j with
    | string t =>
      cases hj
      refine (Yields.object stringMetatable m).bind ?_
      rw [hstrings]
      exact .pure _ _
    | array | members => cases hj
    | null | bool | int | float =>
      cases hj
      exact .pure _ _

/-- A value from outside cannot be called. -/
theorem Stands.invoke_fails {j : Json} {v : Value} {arguments : List Value}
    {naming : Option Naming} (h : Stands m j v) (depth : Nat)
    (hstrings : (m.object stringMetatable).getText "__call" = .nil) :
    Fails world (invoke context (depth + 1) v arguments naming) m := by
  have hmetafield : Yields world (metafield v "__call" : Eval σ Value) m .nil m :=
    h.metafield_call hstrings
  have hrefuse : Fails world (refuse "call" ⟨v, naming⟩ : Eval σ (PendingCall ⊕ List Value)) m :=
    .raiseAt 0 _ m
  refine .of_step ?_
  unfold step
  cases h with
  | array | members => exact .behind hmetafield hrefuse
  | plain hj =>
    cases j with
    | array | members => cases hj
    | null | bool | int | float | string =>
      cases hj
      exact .behind hmetafield hrefuse

/-- A value from outside that is no object can be given no metatable. -/
theorem Stands.setMetatable_fails {j : Json} {v : Value} {metatable : Nat}
    {naming : Option Naming} (h : Stands m j v) (depth : Nat) (hj : j.isObject = false) :
    Fails world (invoke context (depth + 1) (.native (.core .setMetatable))
      [v, .table metatable] naming) m := by
  let entered : Machine := { m with
    frames := ⟨none, 0, .native (.core .setMetatable), naming⟩ :: m.frames }
  have hcall : Fails world (callNative (invoke context depth) context (.core .setMetatable)
      (Native.called (.core .setMetatable) naming [v, .table metatable])) entered := by
    cases h with
    | members => cases hj
    | @array _ id hid hsize hmetatable hlist =>
      have hprotected : Yields world (Call.protectedMetatable (.table id) : Eval σ (Option Value))
          entered (some (.bool false)) entered := by
        refine (Yields.object id entered).bind ?_
        rw [show (entered.object id).isList = true from hlist]
        exact .pure _ _
      exact .behind (Yields.pure id entered) (.behind (Yields.pure (some metatable) entered)
        (.behind hprotected (.bind (.raiseAt 1 _ entered))))
    | plain hplain =>
      cases j with
      | array | members => cases hplain
      | null | bool | int | float | string =>
        cases hplain
        exact (Fails.expected _ 0 "table" entered).bind
  exact .of_step (.bind (.behind (.modify _ m) hcall.bind))

/-! ### The call -/

/-- A metatable for a table changes no global variable. -/
theorem setMetatable_yields (world : σ) (context : Context σ) (depth : Nat)
    (naming : Option Naming) {id : Nat}
    (hid : id < m.objects.size) (hmetatable : (m.object id).metatable = none)
    (hlist : (m.object id).isList = false) (metatable : Nat) :
    ∃ m', Yields world (invoke context (depth + 1) (.native (.core .setMetatable))
      [.table id, .table metatable] naming) m [.table id] m' ∧
      m'.objects.size = m.objects.size ∧ m'.output = m.output ∧ m'.global = m.global := by
  let m' : Machine := { m with objects := m.objects.modify id ({ · with metatable }) }
  have hcall : Yields world (callNative (invoke context depth) context (.core .setMetatable)
      (Native.called (.core .setMetatable) naming [.table id, .table metatable]))
      { m with frames := ⟨none, 0, .native (.core .setMetatable), naming⟩ :: m.frames } [.table id]
      { m' with frames := ⟨none, 0, .native (.core .setMetatable), naming⟩ :: m.frames } := by
    let entered : Machine := { m with
      frames := ⟨none, 0, .native (.core .setMetatable), naming⟩ :: m.frames }
    have hprotected : Yields world (Call.protectedMetatable (.table id) : Eval σ (Option Value))
        entered none entered := Yields.protectedMetatable hmetatable hlist
    exact (Yields.pure id entered).bind ((Yields.pure (some metatable) entered).bind
      (hprotected.bind ((Yields.changeObject id _ _).bind (.pure _ _))))
  refine ⟨m', .invoke_native hcall, by simp [m'], rfl, ?_⟩
  funext name
  rw [Machine.global, Machine.global]
  by_cases heq : id = globals
  · rw [← heq, m.object_modify _ hid]
    rfl
  · rw [m.object_modify_of_ne _ heq]

/-- What the call of `strictBody` comes down to: a call of the function under `setmetatable` with
the value under `_G` and a new table. -/
theorem strictCall_run (world : σ) (context : Context σ) (depth : Nat) (missing : Function)
    (h : Lenient env m) (hset : env.cell? "setmetatable" = none) (hglobals : env.cell? "_G" = none) :
    ∃ metatable naming m', Extends m m' [] ∧
      ((eval (invoke context depth) (strictCall missing) env).run.run m).run world =
        ((invoke context depth (m.global "setmetatable") [m.global "_G", .table metatable]
          naming).run.run m').run world := by
  obtain ⟨m₁, hfunction, hm₁⟩ : Writes world (eval (invoke context depth)
      (.name "setmetatable" 3) env) m [m.global "setmetatable"] [] := h.evalName hset 3
  obtain ⟨m₂, hfirst, hm₂⟩ : Writes world (eval (invoke context depth) (.name "_G" 3) env) m₁
      [m₁.global "_G"] [] := (h.later hm₁).evalName hglobals 3
  obtain ⟨m₃, htable, hm₃⟩ :=
    Yields.functionTable (invoke context depth) env "__index" missing 9 m₂
  obtain ⟨m₄, hline, hm₄⟩ : Writes world (Eval.atLine 3 : Eval σ Unit) m₃ () [] := Writes.atLine 3 m₃
  have harguments : Yields world (evalList (invoke context depth) [.name "_G" 3,
      .table [.entry (.string (Text.bytes "__index")) (.function missing) 9]] env) m₁
      [m₁.global "_G", .table m₂.objects.size] m₃ := by
    refine hfirst.bind (Yields.bind htable ?_)
    exact .pure [m₁.global "_G", Value.table m₂.objects.size] m₃
  refine ⟨m₂.objects.size, naming? env (.name "setmetatable" 3), m₄,
    hm₁.trans (hm₂.trans (hm₃.trans hm₄)), ?_⟩
  rw [← congrFun (hm₁.global h.tables) "_G".toList]
  exact (hfunction.run_bind _).trans ((harguments.run_bind _).trans (hline.run_bind _))

/-! ### The whole script -/

/-- A script whose statements fail is over. -/
theorem Fails.runChunk {name : Text} {body : List Statement} {arguments : List Value}
    (h : Fails world (execBlock (invoke context (maxDepth - 1)) body
      (scriptEnv name m.cells.size arguments)) (m.start name body)) :
    Fails world (runChunk context name body arguments) m := by
  have hstep : Fails world (step (invoke context (maxDepth - 1)) context
      ⟨.closure m.closures.size, arguments, none⟩) (m.load name body) := by
    refine .behind (.get _) ?_
    dsimp only
    rw [m.closures_load]
    exact .behind (.enterScript name body m) (.bind (.behind (.pure _ _) h.bind))
  have hinvoke : Fails world (invoke context maxDepth (.closure m.closures.size) arguments none)
      (m.load name body) := .of_step hstep
  exact .behind (.loadChunk name body m) hinvoke.bind

/-- Effects that run alike run alike with the same behind them. -/
theorem run_bind_congr {α β : Type} {act act' : Eval σ α}
    (h : (act.run.run m).run world = (act'.run.run m').run world) (f : α → Eval σ β) :
    ((act >>= f).run.run m).run world = ((act' >>= f).run.run m').run world := by
  rw [ExceptT.run_bind, StateT.run_bind, StateT.run_bind, h, ExceptT.run_bind, StateT.run_bind,
    StateT.run_bind]

/-- The statements of `strictBody` come down to the call of `setmetatable`. -/
theorem strictBody_run (world : σ) (context : Context σ) (missing : Function)
    (hm : globals < m.objects.size) (hmetatable : (m.object globals).metatable = none)
    (declared : Value) :
    ∃ metatable naming env m', Extends m m' [] ∧
      ((execBlock (invoke context (maxDepth - 1)) (strictBody missing)
          (scriptEnv strictName m.cells.size [declared])).run.run
        (m.start strictName (strictBody missing))).run world =
      ((invoke context (maxDepth - 1) (m.global "setmetatable")
          [m.global "_G", .table metatable] naming >>= fun _ => pure (.proceed, env) :
        Eval σ (Control × Env)).run.run m').run world := by
  let m₁ := m.start strictName (strictBody missing)
  let m₂ : Machine := { m₁ with cells := m₁.cells.push declared }
  let env := scriptEnv strictName m.cells.size [declared]
  let inner := env.add "declared" m₁.cells.size
  have hm₂ : Extends m m₂ [] :=
    (Extends.start m strictName (strictBody missing)).trans (.pushCell m₁ declared)
  have hlocals : Yields world
      (exec (invoke context (maxDepth - 1)) (.locals ["declared".toList] [.rest])
      env) m₁ (.proceed, inner) m₂ :=
    (Yields.pure [declared] m₁).bind ((Yields.bindVariable env m₁ "declared" declared).bind
      (.pure _ _))
  have hnone : ∀ {name}, name ≠ globalsName → "declared".toList ≠ name →
      inner.cell? name = none := fun hname hdeclared =>
    (env.cell?_add_of_ne _ hdeclared).trans
      (by simp [env, scriptEnv, Env.cell?, Env.local?, Env.captured?, Ne.symm hname])
  have hlenient : Lenient inner m₂ := by
    have hcell : m.cells.size < m₁.cells.size := by simp [m₁, Machine.start, Machine.load]
    refine ⟨⟨m.cells.size, ?_, ?_, ?_⟩, Nat.lt_of_lt_of_le hm hm₂.tables, ?_⟩
    · exact (env.cell?_add_of_ne _ (by decide)).trans
        (by simp [env, scriptEnv, Env.cell?, Env.local?, Env.captured?])
    · exact Nat.lt_of_lt_of_le hcell (Extends.pushCell m₁ declared).cells
    · refine ((Extends.pushCell m₁ declared).cell hcell).trans ?_
      simp [m₁, Machine.start, Machine.load, Machine.cell]
    · rw [hm₂.object hm, hmetatable]
  obtain ⟨metatable, naming, m₃, hm₃, hcall⟩ := strictCall_run world context
    (maxDepth - 1) missing hlenient (hnone (by decide) (by decide)) (hnone (by decide) (by decide))
  rw [hm₂.global hm] at hcall
  refine ⟨metatable, naming, inner, m₃, hm₂.trans hm₃, ?_⟩
  refine Eq.trans (hlocals.run_bind _) ?_
  refine Eq.trans ?_ (run_bind_congr hcall _)
  show ((execBlock (invoke context (maxDepth - 1)) [.call (strictCall missing)] inner).run.run
    m₂).run world = _
  simp only [execBlock, exec, bind_assoc, pure_bind]

/-! ### Everything before a script -/

/-- Everything before a script comes down to the call of `setmetatable`. -/
theorem prepare_run (world : σ) (context : Context σ)
    (hfunctions : ∀ name ∈ Settings.reservedNames, name ∉ context.functions.names) :
    ∃ m metatable naming, Installed context m ∧
      (∀ {values m'}, Yields world (invoke context (maxDepth - 1) (m.global "setmetatable")
          [m.global "_G", .table metatable] naming) m values m' →
        Yields world (prepare context) {} () { m' with frames := m'.frames.drop 1 }) ∧
      (Fails world (invoke context (maxDepth - 1) (m.global "setmetatable")
          [m.global "_G", .table metatable] naming) m →
        Fails world (prepare context) {}) := by
  obtain ⟨m₁, hinstall, hm₁⟩ := installTemplate_yields world context hfunctions
  obtain ⟨missing, hparse⟩ := parse_strictGlobals
  let m₂ : Machine := { m₁ with objects := m₁.objects.push (declaredTable context.scope) }
  have hm₂ : Installed context m₂ := hm₁.later (.pushObject m₁ _)
  obtain ⟨metatable, naming, env, m, hm, hbody⟩ := strictBody_run world context missing
    hm₂.tables hm₂.metatable (.table m₁.objects.size)
  rw [← hm.global hm₂.tables] at hbody
  have hprepare : ((prepare context).run.run {}).run world = ((runChunk context strictName
      (strictBody missing) [.table m₁.objects.size]).run.run m₂).run world := by
    unfold prepare
    rw [hparse]
    exact (installLanguage_yields.run_bind _).trans ((hinstall.run_bind _).trans
      ((Yields.newTable _ m₁).run_bind _))
  refine ⟨m, metatable, naming, hm₂.later hm, fun hcall => ?_, fun hcall => ?_⟩
  · exact hprepare.trans (Yields.runChunk (hbody.trans (hcall.bind (.pure (Control.proceed, env) _))))
  · obtain ⟨v, m', world', hraised⟩ := hcall.bind (f := fun _ => pure (Control.proceed, env))
    obtain ⟨v, m', world', hfailed⟩ := Fails.runChunk ⟨v, m', world', hbody.trans hraised⟩
    exact ⟨v, m', world', hprepare.trans hfailed⟩

/-- What the script finds under `_G`, when that is a table that can be given a metatable. -/
theorem Installed.exists_table (h : Installed context m) (hscope : context.scope.Spares)
    (hfunction : "_G".toList ∉ context.functions.names) :
    ∃ id, m.global "_G" = .table id ∧ id < m.objects.size ∧ (m.object id).metatable = none ∧
      (m.object id).isList = false := by
  by_cases hname : "_G".toList ∈ context.scope.names
  · obtain ⟨⟨_, j⟩, hj, rfl⟩ := List.mem_map.1 hname
    have hobject : j.isObject = true := (hscope _ hj).2 rfl
    have hstands := h.declared "_G" (by decide) hfunction _ hj
    generalize m.global _ = v at hstands ⊢
    cases hstands with
    | members _ hsize hmetatable hlist => exact ⟨_, rfl, hsize, hmetatable, hlist⟩
    | array => cases hobject
    | plain hplain =>
      cases j with
      | members => cases hplain
      | _ => cases hobject
  · refine ⟨globals, ?_, h.tables, h.metatable, h.isList⟩
    rw [h.language "_G" (by decide) hname hfunction]
    decide +kernel

theorem Installed.setMetatable (h : Installed context m)
    (hscope : "setmetatable".toList ∉ context.scope.names)
    (hfunction : "setmetatable".toList ∉ context.functions.names) :
    m.global "setmetatable" = .native (.core .setMetatable) := by
  rw [h.language "setmetatable" (by decide) hscope hfunction]
  decide +kernel

/-- **Everything that comes before a script can be done** where the variables spare what makes the
global variables strict, and leaves a machine with what a script needs. -/
theorem prepare_furnishes (world : σ) (context : Context σ) (hscope : context.scope.Spares)
    (hfunctions : ∀ name ∈ strictNames ++ Settings.reservedNames, name ∉ context.functions.names) :
    ∃ m, Yields world (prepare context) {} () m ∧ Furnished context m := by
  obtain ⟨m, metatable, naming, h, hyields, _⟩ := prepare_run world context
    fun name hname => hfunctions name (List.mem_append_right _ hname)
  obtain ⟨id, hglobals, hid, hmetatable, hlist⟩ :=
    h.exists_table hscope (hfunctions _ (by decide))
  rw [h.setMetatable hscope.setMetatable (hfunctions _ (by decide)), hglobals] at hyields
  obtain ⟨m', hcall, hsize, houtput, hglobal⟩ := setMetatable_yields world context
    (maxDepth - 2) naming hid hmetatable hlist metatable
  exact ⟨_, hyields hcall, h.toFurnished.of_global (hsize ▸ h.tables) houtput hglobal⟩

/-- **No script can be run** where a variable hides what makes the global variables strict. -/
theorem prepare_fails (world : σ) (context : Context σ) (hscope : ¬context.scope.Spares)
    (hfunctions : ∀ name ∈ strictNames ++ Settings.reservedNames, name ∉ context.functions.names) :
    Fails world (prepare context) {} := by
  obtain ⟨m, metatable, naming, h, _, hfails⟩ := prepare_run world context
    fun name hname => hfunctions name (List.mem_append_right _ hname)
  refine hfails ?_
  by_cases hset : "setmetatable".toList ∈ context.scope.names
  · obtain ⟨⟨name, j⟩, hj, rfl⟩ := List.mem_map.1 hset
    exact (h.declared _ (by decide) (hfunctions _ (by decide)) j hj).invoke_fails
      (maxDepth - 2) h.uncallable
  · obtain ⟨j, hj, hobject⟩ : ∃ j, ("_G".toList, j) ∈ context.scope.entries ∧
        j.isObject = false := by
      refine Classical.byContradiction fun hnone => hscope fun e he => ⟨fun heq => ?_, fun heq => ?_⟩
      · exact hset (heq ▸ List.mem_map_of_mem he)
      · exact Bool.not_eq_false _ ▸ fun hobject => hnone ⟨e.2, heq ▸ he, hobject⟩
    rw [h.setMetatable hset (hfunctions _ (by decide))]
    exact (h.declared _ (by decide) (hfunctions _ (by decide)) j hj).setMetatable_fails
      (maxDepth - 2) hobject

theorem mem_neededNames (h : name ∈ strictNames) : name ∈ neededNames :=
  (by decide : ∀ n ∈ strictNames, n ∈ neededNames) name h

/-- Where nothing at all is hidden, `tostring` is there as well. -/
theorem prepare_yields (world : σ) (context : Context σ)
    (hscope : ∀ name ∈ neededNames, name ∉ context.scope.names)
    (hfunctions : ∀ name ∈ neededNames ++ Settings.reservedNames, name ∉ context.functions.names) :
    ∃ m, Yields world (prepare context) {} () m ∧ Prepared context m := by
  have hspares : context.scope.Spares :=
    .of_not_mem fun name hname => hscope name (mem_neededNames hname)
  obtain ⟨m, hprepare, h⟩ := prepare_furnishes world context hspares fun name hname =>
    hfunctions name ((by decide : ∀ n ∈ strictNames ++ Settings.reservedNames,
      n ∈ neededNames ++ Settings.reservedNames) name hname)
  refine ⟨m, hprepare, h, ?_⟩
  rw [h.language _ (by decide) (hscope _ (by decide)) (hfunctions _ (by decide))]
  decide +kernel

end Lua
end Stencil
