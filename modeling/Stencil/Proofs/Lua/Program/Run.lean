import Stencil.Proofs.Lua.Count
import Stencil.Proofs.Lua.Library
import Stencil.Proofs.Lua.Program.Syntax

/-! What a program does when it is run.

In an environment that has what the program needs (`Sees`) the chunk of a program writes what the
program means. The induction is on the program, for every environment: in a loop there is one more
variable, and each round is another machine. -/
namespace Stencil.Lua

variable {σ : Type} {world : σ} {context : Context σ} {depth : Nat} {env : Env} {m m' : Machine}
  {t : Text}
  {conditions counters : List Text} {holds : Text → Bool} {values : Text → Int}

/-- An environment with the functions that a program calls, its conditions and the variables of
the loops around it. -/
structure Sees (env : Env) (m : Machine) (conditions counters : List Text) (holds : Text → Bool)
    (values : Text → Int) : Prop where
  print : Finds env m "print" (.native (.template .print))
  str : Finds env m "str" (.native (.template .str))
  condition : ∀ name ∈ conditions, Finds env m name (.bool (holds name))
  counter : ∀ name ∈ counters, Finds env m name (.int (values name))
  inRange : ∀ name ∈ counters, Number.inRange (values name) = true
  tables : globals < m.objects.size
  toString : (m.object globals).getText "tostring" = .native (.core .toString)

namespace Sees

theorem later (h : Sees env m conditions counters holds values) (hm : Extends m m' t) :
    Sees env m' conditions counters holds values where
  print := h.print.later hm
  str := h.str.later hm
  condition name hname := (h.condition name hname).later hm
  counter name hname := (h.counter name hname).later hm
  inRange := h.inRange
  tables := Nat.lt_of_lt_of_le h.tables hm.tables
  toString := by
    rw [hm.object h.tables]
    exact h.toString

/-- The environment in a round of a loop. -/
theorem round {name : Text} {i : Int} (h : Sees env m conditions counters holds values)
    (hname : name ∉ conditions) (hneeded : name ∉ ["print".toList, "str".toList, "_ENV".toList])
    (hi : Number.inRange i = true) :
    Sees (env.add name m.cells.size) { m with cells := m.cells.push (.int i) } conditions
      (name :: counters) holds (fun n => if n = name then i else values n) := by
  have hm := Extends.pushCell m (.int i)
  have hother : ∀ {other v}, Finds env m other v → other ≠ name →
      Finds (env.add name m.cells.size) { m with cells := m.cells.push (.int i) } other v :=
    fun hv hne => (hv.later hm).add _ (Ne.symm hne) fun heq => hneeded (heq ▸ by decide)
  refine ⟨hother h.print ?_, hother h.str ?_, fun other hcondition => ?_, fun other hvariable => ?_,
    fun other hvariable => ?_, h.tables, h.toString⟩
  · exact fun heq => hneeded (heq ▸ by decide)
  · exact fun heq => hneeded (heq ▸ by decide)
  · exact hother (h.condition other hcondition) fun heq => hname (heq ▸ hcondition)
  · by_cases heq : other = name
    · rw [if_pos heq, heq]
      exact .new env m name _
    · rw [if_neg heq]
      exact hother (h.counter other ((List.mem_cons.1 hvariable).resolve_left heq)) heq
  · by_cases heq : other = name
    · rw [if_pos heq]
      exact hi
    · rw [if_neg heq]
      exact h.inRange other ((List.mem_cons.1 hvariable).resolve_left heq)

end Sees

namespace Writes

theorem literal {invoke : Invoke σ} (l : Literal) (line : Nat) :
    Writes world (eval invoke (l.expr line) env) m [.number (.int l.toInt64)] [] := by
  unfold Literal.expr Literal.toInt64
  cases l.negative with
  | false => exact pure _ _
  | true =>
    refine silent (pure _ _) fun _ => silent (atLine line _) fun _ => ?_
    exact silent (pure _ _) fun _ => pure _ _

/-- A call of `print` with a text that is known. -/
theorem printStatement {content : Text} (endLine : Bool) {e : Expr} (line : Nat)
    (h : Finds env m "print" (.native (.template .print)))
    (he : ∀ {m'}, Extends m m' [] →
      Writes world (eval (invoke context (depth + 2)) e env) m' [.ofText content] []) :
    Writes world (exec (invoke context (depth + 2))
      (.call (.call (.name "print" line) (e :: if endLine then [] else [.string []]) line)) env) m
      (.proceed, env) (content ++ if endLine then ['\n'] else []) := by
  have harguments : ∀ {m'}, Extends m m' [] →
      Writes world
        (evalList (invoke context (depth + 2)) (e :: if endLine then [] else [.string []]) env) m'
        (.ofText content :: ((if endLine then none else some []).map Value.ofText).toList) [] := by
    intro m' hm
    cases endLine with
    | true => exact he hm
    | false => exact evalList_cons (he hm) rfl fun _ => pure _ _
  have hprint : Writes world (eval (invoke context (depth + 2))
      (.call (.name "print" line) (e :: if endLine then [] else [.string []]) line) env) m []
      (content ++ (if endLine then none else some []).getD ['\n']) :=
    call h line harguments fun _ naming => print _ _
  have hend : (if endLine then none else some []).getD ['\n'] =
      (if endLine then ['\n'] else [] : Text) := by
    cases endLine with
    | true => rfl
    | false => rfl
  rw [hend] at hprint
  exact callStatement hprint

/-- A call of `str` with a variable. -/
theorem strCall {name : Text} (line : Nat) (h : Sees env m conditions counters holds values)
    (hname : name ∈ counters) :
    Writes world
      (eval (invoke context (depth + 2)) (.call (.name "str" line) [.name name line] line) env)
      m [.ofText (Number.integerText (values name))] [] :=
  call h.str line (fun hm => Writes.name ((h.later hm).counter name hname) line)
    fun hm _ => str (h.inRange name hname) (h.later hm).tables (h.later hm).toString

theorem conditional {invoke : Invoke σ} {condition : Text} {body otherwise : List Statement}
    {b : Bool} {thenText elseText : Text} (line : Nat) (hcondition : Finds env m condition (.bool b))
    (hbody : ∀ {m'}, Extends m m' [] →
      Writes world (execBlock invoke body env) m' (.proceed, env) thenText)
    (hotherwise : ∀ {m'}, Extends m m' [] →
      Writes world (execBlock invoke otherwise env) m' (.proceed, env) elseText) :
    Writes world (exec invoke (.conditional (.name condition line) body otherwise) env) m
      (.proceed, env) (if b then thenText else elseText) := by
  unfold exec
  refine silent (name hcondition line) fun hm => ?_
  cases b with
  | true => exact bindSilent (hbody hm) fun _ => pure _ _
  | false => exact bindSilent (hotherwise hm) fun _ => pure _ _

theorem countLoop {invoke : Invoke σ} {name : Text} {body : List Statement} {text : Int → Text}
    (start limit : Literal) (line : Nat)
    (h : ∀ {m' t}, Extends m m' t → ∀ i, Number.inRange i = true →
      Writes world (execBlock invoke body (env.add name m'.cells.size))
        { m' with cells := m'.cells.push (.int i) } (.proceed, env.add name m'.cells.size)
        (text i)) :
    Writes world
      (exec invoke (.countLoop name (start.expr line) (limit.expr line) (.number (.int 1)) body
      line) env) m (.proceed, env)
      ((Program.range start.toInt64.toInt limit.toInt64.toInt).flatMap text) := by
  unfold exec
  refine silent (literal start line) fun hstart => silent (literal limit line) fun hlimit => ?_
  refine silent (pure _ _) fun hstep => silent (atLine line _) fun hline => ?_
  have hm := hstart.trans (hlimit.trans (hstep.trans hline))
  refine bindSilent (count _ _ fun hm' i hlow hhigh => ?_) fun _ => pure _ _
  have hi : Number.inRange i = true := by
    have := start.toInt64.le_toInt
    have := limit.toInt64.toInt_lt
    simp only [Number.inRange, Bool.and_eq_true, decide_eq_true_eq]
    omega
  exact behind (.bindVariable env _ name _) (.pushCell _ _)
    (bindSilent (h (hm.trans hm') i hi) fun _ => pure _ _)

end Writes

/-- **The chunk of a program writes what the program means.** -/
theorem Program.writes_chunk (p : Program) :
    ∀ {counters : List Text} {line : Nat} {env : Env} {m : Machine} {values : Text → Int},
      p.Closed conditions counters → Sees env m conditions counters holds values →
      Writes world (execBlock (invoke context (depth + 2)) (p.chunk line) env) m (.proceed, env)
        (p.eval holds values) := by
  induction p with
  | done => exact fun _ _ => .execBlock_nil
  | print content endLine rest ih =>
    intro counters line env m values hclosed h
    refine .execBlock_cons (.printStatement endLine line h.print fun _ => .pure _ _) fun hm => ?_
    exact ih hclosed (h.later hm)
  | write name rest ih =>
    intro counters line env m values hclosed h
    have hprint : Writes world (exec (invoke context (depth + 2)) (.call (.call (.name "print" line)
        [.call (.name "str" line) [.name name line] line, .string []] line)) env) m (.proceed, env)
        (Number.integerText (values name) ++ []) :=
      Writes.printStatement false line h.print fun hm => Writes.strCall line (h.later hm) hclosed.1
    rw [List.append_nil] at hprint
    exact .execBlock_cons hprint fun hm => ih hclosed.2 (h.later hm)
  | count name start limit body rest ihBody ihRest =>
    intro counters line env m values hclosed h
    obtain ⟨⟨_, hname, hneeded⟩, hbody, hrest⟩ := hclosed
    refine .execBlock_cons (.countLoop start limit line fun hm i hi => ?_) fun hm => ?_
    · exact ihBody hbody ((h.later hm).round hname hneeded hi)
    · exact ihRest hrest (h.later hm)
  | when condition body rest ihBody ihRest =>
    intro counters line env m values hclosed h
    obtain ⟨hcondition, hbody, hrest⟩ := hclosed
    refine .execBlock_cons (.conditional line (h.condition condition hcondition) (fun hm => ?_)
      fun _ => .execBlock_nil) fun hm => ?_
    · exact ihBody hbody (h.later hm)
    · exact ihRest hrest (h.later hm)
  | choose condition body otherwise rest ihBody ihOtherwise ihRest =>
    intro counters line env m values hclosed h
    obtain ⟨hcondition, hbody, hotherwise, hrest⟩ := hclosed
    refine .execBlock_cons (.conditional line (h.condition condition hcondition) (fun hm => ?_)
      fun hm => ?_) fun hm => ?_
    · exact ihBody hbody (h.later hm)
    · exact ihOtherwise hotherwise (h.later hm)
    · exact ihRest hrest (h.later hm)

end Stencil.Lua
