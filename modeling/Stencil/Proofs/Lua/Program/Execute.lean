import Stencil.Lua.Fragment
import Stencil.Proofs.Lua.Engine
import Stencil.Proofs.Lua.Strict
import Stencil.Proofs.Lua.Program.Run

/-! What the runtime makes of a program.

The code of a program that keeps within the limits of the reader is read, and its output is what
the program means (`Program.execute_code`), also for any other engine that can load it
(`Program.run_code`). The variables and functions around it may be any that
leave the few names alone that every script needs. A script that asks for nothing but the functions
for templates needs even less (`execute_furnished`), and without that no script is run at all
(`execute_fails`). -/
namespace Stencil.Lua

variable {σ : Type} {scope : Scope} {functions : Table HostFunction}

/-- What the variables of a template do not hide, those of all templates do not. -/
theorem Unhidden.of_merge {globals : Scope} (h : Unhidden (globals.merge scope) functions) :
    Unhidden (globals.merge .empty) functions where
  scope name hname hmem := h.scope name hname (Table.mem_names_merge hmem)
  functions := h.functions

/-- Neither a variable nor a function of the host keeps scripts from being started. -/
structure Starts (scope : Scope) (functions : Table HostFunction) : Prop where
  scope : scope.Spares
  functions : ∀ name ∈ strictNames ++ Settings.reservedNames, name ∉ functions.names

theorem Unhidden.starts (h : Unhidden scope functions) : Starts scope functions where
  scope := .of_not_mem fun name hname => h.scope name (mem_neededNames hname)
  functions name hname := by
    refine h.functions name ?_
    rcases List.mem_append.1 hname with hname | hname
    · exact List.mem_append_left _ (mem_neededNames hname)
    · exact List.mem_append_right _ hname

/-- A script finds a boolean variable under a name. -/
structure IsCondition (scope : Scope) (functions : Table HostFunction) (name : Text) (b : Bool) :
    Prop where
  isName : isVariableName name = true
  value : (name, .bool b) ∈ scope.entries
  reserved : name ∉ Settings.reservedNames
  functions : name ∉ functions.names
  globals : name ≠ globalsName

/-- A program as the runtime can be given it. -/
structure Program.Runs (scope : Scope) (functions : Table HostFunction) (holds : Text → Bool)
    (p : Program) : Prop where
  conditions : ∃ conditions, p.Closed conditions [] ∧
    ∀ name ∈ conditions, IsCondition scope functions name (holds name)
  levels : p.levels ≤ Reader.maxNesting
  loops : 4 * p.loops ≤ maxVariables

/-- A script begins with what a program needs. -/
theorem Prepared.sees {context : Context σ} {m : Machine} {conditions : List Text}
    {holds : Text → Bool} {values : Text → Int} (h : Prepared context m) (body : List Statement)
    (hconditions : ∀ name ∈ conditions,
      IsCondition context.scope context.functions name (holds name)) :
    Sees (scriptEnv scriptName m.cells.size []) (m.start scriptName body) conditions [] holds
      values where
  print := .start h.tables (by decide) (h.template "print" .print (by decide)) rfl
  str := .start h.tables (by decide) (h.template "str" .str (by decide)) rfl
  condition name hname := by
    obtain ⟨_, hvalue, hreserved, hfunction, hglobals⟩ := hconditions name hname
    exact .start h.tables hglobals (h.plain name _ _ hvalue rfl hreserved hfunction) rfl
  counter := nofun
  inRange := nofun
  tables := h.tables
  toString := h.toString

section
variable {code text : Text} {body : List Statement} {host : Host σ} {s : σ}

/-- A script that is read, and that writes a text when it is begun behind everything that comes
before it, has that text for its output. -/
theorem execute_of_prepare {m : Machine} (hprepare : Yields s (prepare ⟨host, scope, functions⟩) {} () m)
    (houtput : m.output = []) (hparse : parse code = .ok body)
    (hbody : Writes s (execBlock (invoke ⟨host, scope, functions⟩ (maxDepth - 1)) body
      (scriptEnv scriptName m.cells.size [])) (m.start scriptName body)
      (.proceed, scriptEnv scriptName m.cells.size []) text) :
    (execute ⟨code, scope, functions⟩ host).run s = (.ok text, s) := by
  obtain ⟨m', hchunk, hm'⟩ := hbody
  have htext : m'.output = text := by
    rw [hm'.output, (Extends.start m scriptName body).output, houtput]
    rfl
  have hcode : Yields s (runCode ⟨host, scope, functions⟩ code) {} none
      { m' with frames := m'.frames.drop 1 } := by
    refine Yields.caught (hprepare.bind ?_)
    rw [hparse]
    exact (Yields.runChunk hchunk).bind (.pure _ _)
  have hrun := run_of_runCode (r := ⟨code, scope, functions⟩) hcode
  exact htext ▸ Engine.execute_eq_ok_iff.2 hrun

theorem execute_furnished (hstarts : Starts scope functions) (hparse : parse code = .ok body)
    (hbody : ∀ {m : Machine}, Furnished ⟨host, scope, functions⟩ m →
      Writes s (execBlock (invoke ⟨host, scope, functions⟩ (maxDepth - 1)) body
        (scriptEnv scriptName m.cells.size [])) (m.start scriptName body)
        (.proceed, scriptEnv scriptName m.cells.size []) text) :
    (execute ⟨code, scope, functions⟩ host).run s = (.ok text, s) := by
  obtain ⟨m, hprepare, h⟩ :=
    prepare_furnishes s ⟨host, scope, functions⟩ hstarts.scope hstarts.functions
  exact execute_of_prepare hprepare h.output hparse (hbody h)

/-- A script that is read, and that writes a text when it is begun on a prepared machine, has that
text for its output. -/
theorem execute_eq (hunhidden : Unhidden scope functions) (hparse : parse code = .ok body)
    (hbody : ∀ {m : Machine}, Prepared ⟨host, scope, functions⟩ m →
      Writes s (execBlock (invoke ⟨host, scope, functions⟩ (maxDepth - 1)) body
        (scriptEnv scriptName m.cells.size [])) (m.start scriptName body)
        (.proceed, scriptEnv scriptName m.cells.size []) text) :
    (execute ⟨code, scope, functions⟩ host).run s = (.ok text, s) := by
  obtain ⟨m, hprepare, h⟩ :=
    prepare_yields s ⟨host, scope, functions⟩ hunhidden.scope hunhidden.functions
  exact execute_of_prepare hprepare h.output hparse (hbody h)

/-- Where a variable hides what makes the global variables strict, every script fails. -/
theorem execute_fails (hscope : ¬scope.Spares)
    (hfunctions : ∀ name ∈ strictNames ++ Settings.reservedNames, name ∉ functions.names)
    (code : Text) (host : Host σ) (s : σ) :
    ∃ f, ((execute ⟨code, scope, functions⟩ host).run s).1 = .error f := by
  obtain ⟨report, hrun⟩ := run_of_fails (r := ⟨code, scope, functions⟩)
    (prepare_fails s ⟨host, scope, functions⟩ hscope hfunctions).bind
  exact ⟨report.failure, congrArg (Except.mapError Report.failure) hrun⟩

end

/-- A script that is not read is refused, whatever it would have done. -/
theorem execute_of_parse_error {code : Text} {e : ParseError} {host : Host σ} {s : σ}
    (hunhidden : Unhidden scope functions) (hparse : parse code = .error e) :
    (execute ⟨code, scope, functions⟩ host).run s = (.error e.report.failure, s) := by
  let context : Context σ := ⟨host, scope, functions⟩
  obtain ⟨m, hprepare, _⟩ := prepare_yields s context hunhidden.scope hunhidden.functions
  have hcode : Yields s (runCode context code) {} (some e.report) m := by
    refine Yields.caught (hprepare.bind ?_)
    rw [hparse]
    exact .pure _ _
  have hrun : (interpreter.run ⟨code, scope, functions⟩ host).run s = (.error e.report, s) :=
    run_of_runCode (r := ⟨code, scope, functions⟩) hcode
  exact Engine.execute_run.trans (by rw [hrun]; rfl)

/-- **The output of a program is what it means.** -/
theorem Program.execute_code (unit : Nat) {p : Program} {holds : Text → Bool} (values : Text → Int)
    (hruns : p.Runs scope functions holds) (hunhidden : Unhidden scope functions) (host : Host σ)
    (s : σ) :
    (execute ⟨p.code unit, scope, functions⟩ host).run s = (.ok (p.eval holds values), s) := by
  obtain ⟨⟨conditions, hclosed, hconditions⟩, hlevels, hloops⟩ := hruns
  have hparse := parse_code unit hclosed (fun name hname => (hconditions name hname).isName) hlevels
    hloops
  exact execute_eq hunhidden hparse fun hprepared =>
    writes_chunk p hclosed (hprepared.sees (p.chunk 1) hconditions)

/-! ### Programs for any engine -/

theorem Literal.isBasic_expr (l : Literal) (counters : List Text) (line : Nat) :
    (l.expr line).IsBasic counters := by
  unfold expr
  split
  · exact .negative _ _
  · exact .integer _

/-- A program needs no more of the language than its statements. -/
theorem Program.areBasic_chunk {conditions tested : List Text} (p : Program)
    (hconditions : ∀ name ∈ conditions, name ∈ tested) :
    ∀ {counters : List Text} {line : Nat}, p.Closed conditions counters →
      Statement.AreBasic tested counters (p.chunk line) := by
  induction p with
  | done => exact fun _ => .done
  | print content endLine rest ih =>
    intro _ _ hclosed
    refine .print (List.forall_mem_cons.2 ⟨.string _, ?_⟩) (ih hclosed)
    cases endLine with
    | true => exact nofun
    | false => exact List.forall_mem_singleton.2 (.string _)
  | write name rest ih =>
    intro _ _ hclosed
    refine .print (List.forall_mem_cons.2 ⟨.str (.name hclosed.1 _) _, ?_⟩) (ih hclosed.2)
    exact List.forall_mem_singleton.2 (.string _)
  | count name start limit body rest ihBody ihRest =>
    intro _ _ hclosed
    exact .countLoop (start.isBasic_expr _ _) (limit.isBasic_expr _ _) (.integer 1)
      (ihBody hclosed.2.1) (ihRest hclosed.2.2)
  | when condition body rest ihBody ihRest =>
    intro _ _ hclosed
    exact .conditional (hconditions _ hclosed.1) (ihBody hclosed.2.1) .done (ihRest hclosed.2.2)
  | choose condition body otherwise rest ihBody ihOtherwise ihRest =>
    intro _ _ hclosed
    exact .conditional (hconditions _ hclosed.1) (ihBody hclosed.2.1) (ihOtherwise hclosed.2.2.1)
      (ihRest hclosed.2.2.2)

/-- **The output of a program is what it means**, for every engine that can load it. -/
theorem Program.run_code {E : Engine σ} (hE : E.RunsBasic) (unit : Nat) {p : Program}
    {holds : Text → Bool} (values : Text → Int) (hruns : p.Runs scope functions holds)
    (hunhidden : Unhidden scope functions) (hload : E.load (p.code unit) = .ok ()) (host : Host σ)
    (s : σ) :
    (E.run ⟨p.code unit, scope, functions⟩ host).run s = (.ok (p.eval holds values), s) := by
  have hexecute := p.execute_code unit values hruns hunhidden host s
  obtain ⟨⟨conditions, hclosed, hconditions⟩, hlevels, hloops⟩ := hruns
  have hparse := parse_code unit hclosed (fun name hname => (hconditions name hname).isName) hlevels
    hloops
  have hnames : ∀ name ∈ conditions, name ∈ scope.names := fun name hname =>
    List.mem_map_of_mem (f := Prod.fst) (hconditions name hname).value
  exact hE _ _ _ _ _ _ hunhidden hparse (p.areBasic_chunk hnames hclosed) hload
    (Engine.execute_eq_ok_iff.1 hexecute)

theorem interpreter_runsBasic : (interpreter : Engine σ).RunsBasic :=
  fun _ _ _ _ _ _ _ _ _ _ hrun => hrun

/-- The interpreter loads what its reader reads. -/
theorem Program.load_code (unit : Nat) {p : Program} {holds : Text → Bool}
    (hruns : p.Runs scope functions holds) :
    (interpreter : Engine σ).load (p.code unit) = .ok () := by
  obtain ⟨⟨conditions, hclosed, hconditions⟩, hlevels, hloops⟩ := hruns
  have hparse := parse_code unit hclosed (fun name hname => (hconditions name hname).isName) hlevels
    hloops
  show ((parse (p.code unit)).mapError ParseError.report).map (fun _ => ()) = _
  rw [hparse]
  rfl

end Stencil.Lua
