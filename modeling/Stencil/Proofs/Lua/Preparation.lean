import Stencil.Lua.Fragment
import Stencil.Proofs.Lua.Script

/-! What a script begins with.

Before the script itself the global variables are set: those of the language, then the variables of
the template, then the functions for templates and of the host. A later one hides an earlier one of
its name (`installTemplate_yields`). -/
namespace Stencil.Lua

variable {σ : Type} {world : σ} {context : Context σ} {m m' m'' : Machine} {names others : List Text}

/-- The global variable with a name. -/
def Machine.global (m : Machine) (name : Text) : Value := (m.object globals).getText name

/-! ### Setting global variables -/

/-- On a later machine the global variables have their values, but for some names, and their table
is otherwise as it was, as are the other tables; nothing has been written. -/
structure Sets (names : List Text) (m m' : Machine) : Prop where
  tables : globals < m'.objects.size
  size : m.objects.size ≤ m'.objects.size
  object : ∀ {id}, id ≠ globals → id < m.objects.size → m'.object id = m.object id
  output : m'.output = m.output
  metatable : (m'.object globals).metatable = (m.object globals).metatable
  isList : (m'.object globals).isList = (m.object globals).isList
  global : ∀ {name}, name ∉ names → m'.global name = m.global name

namespace Sets

theorem refl (hm : globals < m.objects.size) : Sets names m m :=
  ⟨hm, Nat.le_refl _, fun _ _ => rfl, rfl, rfl, rfl, fun _ => rfl⟩

theorem mono (h : Sets names m m') (hnames : ∀ name ∈ names, name ∈ others) : Sets others m m' :=
  { h with global := fun hname => h.global fun hmem => hname (hnames _ hmem) }

theorem trans (h : Sets names m m') (h' : Sets others m' m'') : Sets (names ++ others) m m'' where
  tables := h'.tables
  size := Nat.le_trans h.size h'.size
  object hne hid := (h'.object hne (Nat.lt_of_lt_of_le hid h.size)).trans (h.object hne hid)
  output := h'.output.trans h.output
  metatable := h'.metatable.trans h.metatable
  isList := h'.isList.trans h.isList
  global hname := by
    rw [List.mem_append, not_or] at hname
    exact (h'.global hname.2).trans (h.global hname.1)

theorem of_extends (hm : globals < m.objects.size) (h : Extends m m' []) : Sets [] m m' where
  tables := Nat.lt_of_lt_of_le hm h.tables
  size := h.tables
  object _ hid := h.object hid
  output := h.output.trans (List.append_nil _)
  metatable := by rw [h.object hm]
  isList := by rw [h.object hm]
  global _ := by rw [Machine.global, h.object hm, Machine.global]

end Sets

/-- The machine with a global variable set. -/
def Machine.setGlobal (m : Machine) (name : Text) (v : Value) : Machine :=
  { m with objects := m.objects.modify globals (·.setText name v) }

theorem Machine.object_modify (m : Machine) {id : Nat} (f : Object → Object)
    (h : id < m.objects.size) :
    Machine.object { m with objects := m.objects.modify id f } id = f (m.object id) := by
  simp only [Machine.object, Array.getElem?_modify, Array.getElem?_eq_getElem h]
  rfl

theorem Machine.object_modify_of_ne (m : Machine) {id other : Nat} (f : Object → Object)
    (h : id ≠ other) :
    Machine.object { m with objects := m.objects.modify id f } other = m.object other := by
  simp only [Machine.object, Array.getElem?_modify, if_neg h]

theorem Machine.global_setGlobal (h : globals < m.objects.size) (name other : Text) (v : Value) :
    (m.setGlobal name v).global other = if name = other then v else m.global other := by
  rw [global, setGlobal, object_modify m _ h, Object.getText_setText, global]

theorem Sets.setGlobal (h : globals < m.objects.size) (name : Text) (v : Value) :
    Sets [name] m (m.setGlobal name v) where
  tables := by
    rw [Machine.setGlobal]
    simpa using h
  size := by simp [Machine.setGlobal]
  object hne _ := m.object_modify_of_ne _ (Ne.symm hne)
  output := rfl
  metatable := by
    rw [Machine.setGlobal, Machine.object_modify m _ h]
    rfl
  isList := by
    rw [Machine.setGlobal, Machine.object_modify m _ h]
    rfl
  global hname := by
    rw [Machine.global_setGlobal h, if_neg fun heq => hname (List.mem_singleton.2 heq.symm)]

/-- What is last among some values under a name. -/
def lastUnder (fields : List (Value × Value)) (name : Text) : Option Value :=
  (fields.reverse.find? fun e => e.1 = .ofText name).map Prod.snd

theorem lastUnder_cons (e : Value × Value) (rest : List (Value × Value)) (name : Text) :
    lastUnder (e :: rest) name =
      (lastUnder rest name).or (if e.1 = .ofText name then some e.2 else none) := by
  unfold lastUnder
  rw [List.reverse_cons, List.find?_append]
  cases rest.reverse.find? fun e => e.1 = .ofText name with
  | some found => rfl
  | none =>
    by_cases he : e.1 = .ofText name
    · simp [he]
    · simp [he]

/-- Functions are set one after the other, and of several under a name the last one counts. -/
theorem setFunctions_yields {fields : List (Value × Value)} (hm : globals < m.objects.size)
    (hfields : ∀ e ∈ fields, ∃ name ∈ names, e.1 = .ofText name) :
    ∃ m', Yields world
      (fields.forM fun (key, v) => Eval.changeObject globals (·.set key v) : Eval σ Unit)
      m () m' ∧ Sets names m m' ∧
      ∀ name, m'.global name = (lastUnder fields name).getD (m.global name) := by
  induction fields generalizing m with
  | nil => exact ⟨m, .pure () m, .refl hm, fun _ => rfl⟩
  | cons e rest ih =>
    obtain ⟨key, v⟩ := e
    obtain ⟨name, hname, rfl : key = .ofText name⟩ := hfields (key, v) (List.mem_cons_self ..)
    have hset := Sets.setGlobal hm name v
    obtain ⟨m', hrest, hm', hlast⟩ :=
      ih hset.tables fun e he => hfields e (List.mem_cons_of_mem _ he)
    refine ⟨m', (Yields.changeObject _ _ m).bind hrest, ?_, fun other => ?_⟩
    · refine (hset.trans hm').mono fun other hother => ?_
      rcases List.mem_append.1 hother with hother | hother
      · rwa [List.mem_singleton.1 hother]
      · exact hother
    · rw [hlast, lastUnder_cons, Machine.global_setGlobal hm]
      dsimp only
      by_cases heq : name = other
      · rw [if_pos heq, if_pos (congrArg Value.ofText heq)]
        cases lastUnder rest other with
        | some found => rfl
        | none => rfl
      · rw [if_neg heq, if_neg fun h => heq (Value.ofText_injective h), Option.or_none]

/-! ### Values of the template -/

mutual

/-- A value from outside is built of new tables. -/
theorem writes_ofJson : ∀ (j : Json) (m : Machine), ∃ v, Writes world (ofJson j : Eval σ Value) m v []
  | .null, m => ⟨_, .pure _ m⟩
  | .bool _, m => ⟨_, .pure _ m⟩
  | .int _, m => ⟨_, .pure _ m⟩
  | .float _, m => ⟨_, .pure _ m⟩
  | .string _, m => ⟨_, .pure _ m⟩
  | .array items, m => by
    obtain ⟨values, m', hitems, hm'⟩ := writes_ofItems items m
    exact ⟨_, _, hitems.bind ((Yields.newTable _ m').bind (.pure _ _)), hm'.trans (.pushObject m' _)⟩
  | .members entries, m => by
    obtain ⟨fields, m', hmembers, hm'⟩ := writes_ofMembers entries m
    exact ⟨_, _, hmembers.bind ((Yields.newTable _ m').bind (.pure _ _)),
      hm'.trans (.pushObject m' _)⟩

theorem writes_ofItems : ∀ (items : List Json) (m : Machine),
    ∃ values, Writes world (ofItems items : Eval σ (List Value)) m values []
  | [], m => ⟨_, .pure _ m⟩
  | j :: js, m => by
    obtain ⟨v, m', hfirst, hm'⟩ := writes_ofJson j m
    obtain ⟨values, m'', hrest, hm''⟩ := writes_ofItems js m'
    exact ⟨_, m'', hfirst.bind (hrest.bind (.pure _ _)), hm'.trans hm''⟩

theorem writes_ofMembers : ∀ (entries : List (Text × Json)) (m : Machine),
    ∃ fields, Writes world (ofMembers entries : Eval σ (List (Value × Value))) m fields []
  | [], m => ⟨_, .pure _ m⟩
  | (name, j) :: rest, m => by
    obtain ⟨v, m', hfirst, hm'⟩ := writes_ofJson j m
    obtain ⟨fields, m'', hrest, hm''⟩ := writes_ofMembers rest m'
    exact ⟨_, m'', hfirst.bind (hrest.bind (.pure _ _)), hm'.trans hm''⟩

end

/-- The value of a variable that takes no table. -/
def plainValue? : Json → Option Value
  | .null => some .nil
  | .bool b => some (.bool b)
  | .int n => some (.number (numberOfInt n))
  | .float x => some (.number (.float (Number.bitsOf x)))
  | .string s => some (.ofText s)
  | .array _ | .members _ => none

theorem ofJson_of_plainValue? {j : Json} {v : Value} (h : plainValue? j = some v) :
    (ofJson j : Eval σ Value) = pure v := by
  unfold plainValue? at h
  unfold ofJson
  split at h
  all_goals
    cases h
    try rfl

/-- What the value of a variable is like: one that takes no table is known, and a list or an object
is a table of its own without a metatable. -/
inductive Stands (m : Machine) : Json → Value → Prop
  | plain {j : Json} {v : Value} (h : plainValue? j = some v) : Stands m j v
  | array {items : List Json} {id : Nat} (hid : globals < id) (hsize : id < m.objects.size)
      (hmetatable : (m.object id).metatable = none) (hlist : (m.object id).isList = true) :
      Stands m (.array items) (.table id)
  | members {entries : List (Text × Json)} {id : Nat} (hid : globals < id)
      (hsize : id < m.objects.size) (hmetatable : (m.object id).metatable = none)
      (hlist : (m.object id).isList = false) : Stands m (.members entries) (.table id)

namespace Stands

variable {j : Json} {v w : Value}

theorem eq_of_plainValue? (h : Stands m j v) (hw : plainValue? j = some w) : v = w := by
  cases h with
  | plain hv => exact Option.some.inj (hv.symm.trans hw)
  | array | members => cases hw

theorem later (h : Stands m j v) (hm : Sets names m m') : Stands m' j v := by
  cases h with
  | plain hv => exact .plain hv
  | array hid hsize hmetatable hlist =>
    rw [← hm.object (Nat.ne_of_gt hid) hsize] at hmetatable hlist
    exact .array hid (Nat.lt_of_lt_of_le hsize hm.size) hmetatable hlist
  | members hid hsize hmetatable hlist =>
    rw [← hm.object (Nat.ne_of_gt hid) hsize] at hmetatable hlist
    exact .members hid (Nat.lt_of_lt_of_le hsize hm.size) hmetatable hlist

end Stands

theorem Machine.object_push (m : Machine) (o : Object) :
    Machine.object { m with objects := m.objects.push o } m.objects.size = o := by
  simp [Machine.object]

theorem ofJson_stands (world : σ) (hm : globals < m.objects.size) (j : Json) :
    ∃ v m', Yields world (ofJson j : Eval σ Value) m v m' ∧ Extends m m' [] ∧ Stands m' j v := by
  cases hj : plainValue? j with
  | some v =>
    rw [ofJson_of_plainValue? hj]
    exact ⟨v, m, .pure v m, .refl m, .plain hj⟩
  | none =>
    cases j with
    | null | bool | int | float | string => cases hj
    | array items =>
      obtain ⟨values, m', hitems, hm'⟩ : ∃ values,
        Writes world (ofItems items : Eval σ (List Value)) m values [] := writes_ofItems items m
      have hid := Nat.lt_of_lt_of_le hm hm'.tables
      refine ⟨_, _, hitems.bind ((Yields.newTable _ m').bind (.pure _ _)),
        hm'.trans (.pushObject m' _), .array hid (by simp) ?_ ?_⟩
      all_goals
        rw [Machine.object_push]
        rfl
    | members entries =>
      obtain ⟨fields, m', hmembers, hm'⟩ : ∃ fields,
        Writes world (ofMembers entries : Eval σ (List (Value × Value))) m fields [] :=
        writes_ofMembers entries m
      have hid := Nat.lt_of_lt_of_le hm hm'.tables
      refine ⟨_, _, hmembers.bind ((Yields.newTable _ m').bind (.pure _ _)),
        hm'.trans (.pushObject m' _), .members hid (by simp) ?_ ?_⟩
      all_goals
        rw [Machine.object_push]

/-- The variables of a scope are set. -/
theorem setScope_yields {entries : List (Text × Json)} (hm : globals < m.objects.size)
    (hsorted : entries.Pairwise fun a b => a.1 < b.1) :
    ∃ m', Yields world (entries.forM fun (name, j) => do setGlobal name (← ofJson j) : Eval σ Unit)
      m () m' ∧ Sets (entries.map Prod.fst) m m' ∧
      ∀ name j, (name, j) ∈ entries → Stands m' j (m'.global name) := by
  induction entries generalizing m with
  | nil => exact ⟨m, .pure () m, .refl hm, nofun⟩
  | cons e rest ih =>
    obtain ⟨name, j⟩ := e
    obtain ⟨hfirst, hrest⟩ := List.pairwise_cons.1 hsorted
    obtain ⟨v, m₁, hvalue, hm₁, hstands⟩ := ofJson_stands world hm j
    have htables := Nat.lt_of_lt_of_le hm hm₁.tables
    have hset := Sets.setGlobal htables name v
    obtain ⟨m', hothers, hm', hvalues⟩ := ih hset.tables hrest
    have hname : name ∉ rest.map Prod.fst := by
      intro hmem
      obtain ⟨other, hother, heq⟩ := List.mem_map.1 hmem
      exact List.lt_irrefl name (heq ▸ hfirst other hother)
    refine ⟨m', (hvalue.bind (Yields.changeObject _ _ m₁)).bind hothers,
      (Sets.of_extends hm hm₁).trans (hset.trans hm'), ?_⟩
    intro other j' hmem
    rcases List.mem_cons.1 hmem with heq | hmem
    · cases heq
      rw [hm'.global hname, Machine.global_setGlobal htables, if_pos rfl]
      exact (hstands.later hset).later hm'
    · exact hvalues other j' hmem

/-! ### The functions for templates -/

/-- The names that the functions for templates have. -/
theorem functionsOf_template : (functionsOf .template TemplateFunction.named).fields =
    TemplateFunction.named.map fun (name, f) => (.ofText name, .native (.template f)) := by
  decide +kernel

theorem names_template : ∀ e ∈ TemplateFunction.named, e.1 ∈ Settings.reservedNames := by decide

theorem setTemplateFunctions_yields (hm : globals < m.objects.size) :
    ∃ m', Yields world (setGlobals (functionsOf .template TemplateFunction.named) : Eval σ Unit)
        m () m' ∧
      Sets Settings.reservedNames m m' ∧
      ∀ name f, (name, f) ∈ TemplateFunction.named → m'.global name = .native (.template f) := by
  have hkeys : ∀ e ∈ (functionsOf .template TemplateFunction.named).fields,
      ∃ name ∈ Settings.reservedNames, e.1 = .ofText name := by
    intro e he
    obtain ⟨name, hname, hkey⟩ := mem_fields_tableOf he
    obtain ⟨f, hf, rfl⟩ := List.mem_map.1 hname
    exact ⟨f.1, names_template f hf, hkey⟩
  obtain ⟨m', hyields, hset, hlast⟩ := setFunctions_yields (σ := σ) hm hkeys
  refine ⟨m', hyields, hset, fun name f hf => ?_⟩
  have hlastUnder : ∀ e ∈ TemplateFunction.named,
      lastUnder (functionsOf .template TemplateFunction.named).fields e.1 =
        some (.native (.template e.2)) := by
    rw [functionsOf_template]
    decide
  rw [hlast, hlastUnder _ hf]
  rfl

theorem setHostFunctions_yields (hm : globals < m.objects.size) (names : List Text) :
    ∃ m', Yields world (setGlobals (functionsOf Native.host (names.map fun name => (name, name))) :
      Eval σ Unit) m () m' ∧ Sets names m m' := by
  have hkeys : ∀ e ∈ (functionsOf Native.host (names.map fun name => (name, name))).fields,
      ∃ name ∈ names, e.1 = .ofText name := by
    intro e he
    obtain ⟨name, hname, hkey⟩ := mem_fields_tableOf he
    rw [List.map_map] at hname
    obtain ⟨_, hmem, rfl⟩ := List.mem_map.1 hname
    exact ⟨_, hmem, hkey⟩
  obtain ⟨m', hyields, hset, _⟩ := setFunctions_yields (σ := σ) hm hkeys
  exact ⟨m', hyields, hset⟩

/-! ### All global variables -/

/-- The machine with the global variables of the language. -/
def languageMachine : Machine := ((((installLanguage : Eval Unit Unit).run).run {}).run ()).1.2

theorem installLanguage_yields :
    Yields world (installLanguage : Eval σ Unit) {} () languageMachine := rfl

/-- What a machine has for a script when no function of the host hides what is needed. -/
structure Furnished (context : Context σ) (m : Machine) : Prop where
  tables : globals < m.objects.size
  output : m.output = []
  template : ∀ name f, (name, f) ∈ TemplateFunction.named → m.global name = .native (.template f)
  plain : ∀ name j v, (name, j) ∈ context.scope.entries → plainValue? j = some v →
    name ∉ Settings.reservedNames → name ∉ context.functions.names → m.global name = v
  language : ∀ name ∈ neededNames, name ∉ context.scope.names → name ∉ context.functions.names →
    m.global name = languageMachine.global name

theorem Furnished.of_global (h : Furnished context m) (htables : globals < m'.objects.size)
    (houtput : m'.output = m.output) (hglobal : m'.global = m.global) : Furnished context m' where
  tables := htables
  output := houtput.trans h.output
  template name f hf := (congrFun hglobal name).trans (h.template name f hf)
  plain name j v hmem hv hname hfunction :=
    (congrFun hglobal name).trans (h.plain name j v hmem hv hname hfunction)
  language name hname hscope hfunction :=
    (congrFun hglobal name).trans (h.language name hname hscope hfunction)

/-- What a machine has when no variable and no function of the host hides what is needed. -/
structure Prepared (context : Context σ) (m : Machine) : Prop extends Furnished context m where
  toString : m.global "tostring" = .native (.core .toString)

/-- What a machine has before the global variables are made strict. -/
structure Installed (context : Context σ) (m : Machine) : Prop extends Furnished context m where
  metatable : (m.object globals).metatable = none
  isList : (m.object globals).isList = false
  strings : stringMetatable < m.objects.size
  uncallable : (m.object stringMetatable).getText "__call" = .nil
  declared : ∀ name ∈ neededNames, name ∉ context.functions.names →
    ∀ j, (name, j) ∈ context.scope.entries → Stands m j (m.global name)

theorem installTemplate_yields (world : σ) (context : Context σ)
    (hfunctions : ∀ name ∈ Settings.reservedNames, name ∉ context.functions.names) :
    ∃ m, Yields world (installTemplate context : Eval σ Unit) languageMachine () m ∧
      Installed context m := by
  have htables : globals < languageMachine.objects.size := by decide +kernel
  obtain ⟨m₁, hyields₁, hset₁, hvariables⟩ :=
    setScope_yields (σ := σ) htables context.scope.sorted
  obtain ⟨m₂, hyields₂, hset₂, htemplate⟩ := setTemplateFunctions_yields (σ := σ) hset₁.tables
  obtain ⟨m₃, hyields₃, hset₃⟩ :=
    setHostFunctions_yields (σ := σ) hset₂.tables context.functions.names
  have hset := (hset₁.trans hset₂).trans hset₃
  have hneeded : ∀ name ∈ neededNames, name ∉ context.functions.names →
      m₃.global name = m₁.global name := by
    intro name hname hfunction
    have hreserved : name ∉ Settings.reservedNames :=
      (by decide : ∀ n ∈ neededNames, n ∉ Settings.reservedNames) name hname
    rw [hset₃.global hfunction, hset₂.global hreserved]
  have hreserved : ∀ name ∈ Settings.reservedNames, m₃.global name = m₂.global name :=
    fun name hname => hset₃.global (hfunctions name hname)
  refine ⟨m₃, hyields₁.bind (hyields₂.bind hyields₃), ⟨?_, ?_, ?_, ?_, ?_⟩, ?_, ?_, ?_, ?_, ?_⟩
  · exact hset.tables
  · exact hset.output.trans (by decide +kernel)
  · intro name f hf
    rw [hreserved _ (names_template _ hf), htemplate name f hf]
  · intro name j v hmem hv hname hfunction
    rw [hset₃.global hfunction, hset₂.global hname]
    exact (hvariables name j hmem).eq_of_plainValue? hv
  · exact fun name hname hscope hfunction =>
      (hneeded name hname hfunction).trans (hset₁.global hscope)
  · exact hset.metatable.trans (by decide +kernel)
  · exact hset.isList.trans (by decide +kernel)
  · exact Nat.lt_of_lt_of_le (by decide +kernel) hset.size
  · rw [hset.object (by decide) (by decide +kernel)]
    decide +kernel
  · intro name hname hfunction j hj
    rw [hneeded name hname hfunction]
    exact ((hvariables name j hj).later hset₂).later hset₃

end Stencil.Lua
