import Stencil.Lua.Evaluation
import Stencil.Proofs.Lua.Position.Machine

/-! Where evaluation goes.

A function goes to a line before anything there can fail, and every line that it goes to is in its
body. So an expression that is on lines of a chunk is evaluated by a function of that chunk without
leaving these lines, and so is a statement; the call that a function ends in is made from its line.
The proofs are by recursion on what is evaluated, like the evaluation itself; loops are by induction
on the number of rounds. -/
namespace Stencil.Lua

variable {σ α β : Type} {P : Text → Nat → Prop} {n : Nat} {cs : List (Option Text)} {chunk : Text}
  {m : Machine} {env : Env}

/-! ### How a block is left -/

/-- How many of the innermost functions can be at no line: the function that runs, unless it ends in
a call. -/
def Control.fresh : Control → Nat
  | .tail .. => 0
  | _ => 1

/-- The effect comes back to the calls under way, of which `n` may be at no line before it and
`fresh` with its result. -/
def Leaves (P : Text → Nat → Prop) (cs : List (Option Text)) (n : Nat) (fresh : α → Nat)
    (act : Eval σ α) : Prop :=
  ∀ m, Placed P n cs m → Reaches P act m fun a => Placed P (fresh a) cs

namespace Leaves

variable {act : Eval σ α} {fresh : α → Nat}

theorem pure {a : α} (h : n ≤ fresh a) : Leaves P cs n fresh (pure a : Eval σ α) :=
  fun _ hm => .pure (hm.mono h)

theorem after {f : β → Eval σ α} {act : Eval σ β} (h : Keeps P n cs act)
    (hf : ∀ a, Leaves P cs n fresh (f a)) : Leaves P cs n fresh (act >>= f) :=
  fun m hm => (h m hm).bind fun a m' => hf a m'

theorem ite {c : Prop} [Decidable c] {act' : Eval σ α} (h : Leaves P cs n fresh act)
    (h' : Leaves P cs n fresh act') : Leaves P cs n fresh (if c then act else act') :=
  fun m hm => .ite (fun _ => h m hm) fun _ => h' m hm

theorem of_le {n' : Nat} (h : Leaves P cs n' fresh act) (hle : n ≤ n') : Leaves P cs n fresh act :=
  fun m hm => h m (hm.mono hle)

theorem atLine {line : Nat} (hline : P chunk line) (h : Leaves P (some chunk :: cs) 0 fresh act) :
    Leaves P (some chunk :: cs) 1 fresh (do Eval.atLine line; act) :=
  fun _ hm => .modify_bind (h _ (hm.atLine hline))

/-! ### Loops -/

theorem repeatUntil {absent : α} {round : Eval σ (Option α)} (habsent : 1 ≤ fresh absent)
    (h : Leaves P cs 1 (·.elim 1 fresh) round) (fuel : Nat) :
    Leaves P cs 1 fresh (repeatUntil absent round fuel) := by
  induction fuel with
  | zero => exact pure habsent
  | succ fuel ih =>
    refine fun m hm => (h m hm).bind fun r m' hm' => ?_
    cases r with
    | none => exact ih m' hm'
    | some a => exact .pure hm'

theorem loop {round : Eval σ (Option Control)} (h : Leaves P cs 1 (·.elim 1 Control.fresh) round) :
    Leaves P cs 1 Control.fresh (loop round) :=
  repeatUntil (show 1 ≤ Control.fresh .proceed from Nat.le_refl 1) h maxRounds

/-- Behind a round there are others, or what the loop leaves. -/
theorem afterRound {c : Control} {others : Eval σ Control} (hm : Placed P c.fresh cs m)
    (h : Leaves P cs 1 Control.fresh others) :
    Reaches P (match c.afterRound with
      | none => others
      | some c => Pure.pure c) m fun c => Placed P c.fresh cs := by
  cases c with
  | proceed => exact h m hm
  | leaveLoop | result _ | tail _ _ _ => exact .pure hm

section
variable {round : Value → Eval σ Control} (hround : ∀ v, Leaves P cs 1 Control.fresh (round v))
include hround

theorem countRounds (step : Int) (fuel : Nat) (i : Int) :
    Leaves P cs 1 Control.fresh (countRounds round step fuel i) := by
  induction fuel generalizing i with
  | zero => exact pure (Nat.le_refl 1)
  | succ fuel ih => exact fun m hm => (hround _ m hm).bind fun _ _ hm' => afterRound hm' (ih _)

theorem floatRounds (limit step : UInt64) (fuel : Nat) (x : UInt64) :
    Leaves P cs 1 Control.fresh (floatRounds round limit step fuel x) := by
  induction fuel generalizing x with
  | zero => exact pure (Nat.le_refl 1)
  | succ fuel ih =>
    refine ite (pure (Nat.le_refl 1)) fun m hm => ?_
    exact (hround _ m hm).bind fun _ _ hm' => afterRound hm' (ih _)

omit hround in
theorem countingNumber (what : Text) (v : Value) :
    Keeps P 0 cs (countingNumber what v : Eval σ Number) := by
  unfold Lua.countingNumber
  split
  · exact .pure _
  · exact .raise _

theorem count (start limit step : Value) :
    Leaves P cs 0 Control.fresh (count start limit step round) := by
  unfold Lua.count
  split
  · extract_lets after
    have hafter : Leaves P cs 0 Control.fresh (after ()) := by
      refine .after (countingNumber _ _) fun limit => ?_
      split
      · exact (countRounds hround _ _ _).of_le (Nat.zero_le 1)
      · exact pure (Nat.zero_le 1)
    exact ite (.after (.raise _) fun _ => hafter) hafter
  · refine .after (countingNumber _ _) fun limit => .after (countingNumber _ _) fun step =>
      .after (countingNumber _ _) fun start => ?_
    have hrounds : Leaves P cs 0 Control.fresh
        (Lua.floatRounds round limit.toBits step.toBits maxRounds start.toBits) :=
      (floatRounds hround _ _ _ _).of_le (Nat.zero_le 1)
    exact ite (.after (.raise _) fun _ => hrounds) hrounds

end
end Leaves

/-! ### Variables -/

/-- New variables are seen by the same chunk. -/
theorem Reaches.bindVariables (hm : Placed P n cs m) (env : Env) (names : List Text)
    (values : List Value) :
    Reaches P (env.bind names values : Eval σ Env) m fun env' m' =>
      env'.chunk = env.chunk ∧ Placed P n cs m' := by
  induction names generalizing m env values with
  | nil => exact .pure ⟨rfl, hm⟩
  | cons name names ih =>
    exact (Keeps.newCell _ m hm).bind fun cell m' hm' => ih hm' (env.add name cell) (values.drop 1)

theorem Leaves.bindVariables {f : Env → Eval σ α} {fresh : α → Nat} (henv : env.chunk = chunk)
    (names : List Text) (values : List Value)
    (hf : ∀ env, env.chunk = chunk → Leaves P cs n fresh (f env)) :
    Leaves P cs n fresh (do f (← env.bind names values)) := fun _ hm =>
  (Reaches.bindVariables hm env names values).bind fun env' m' h =>
    hf env' (h.1.trans henv) m' h.2

theorem Keeps.newFunction {f : Function} (hf : f.IsOn (P env.chunk)) :
    Keeps P n cs (newFunction f env : Eval σ Value) :=
  .bind (.newClosure hf) fun _ => .pure _

/-- The line of an entry that is assigned to. -/
def Target.IsOn (P : Nat → Prop) : Target → Prop
  | .cell _ => True
  | .entry _ _ line => P line

theorem Reaches.variableTarget {line : Nat} (hline : P chunk line) (env : Env) (name : Text)
    (hm : Placed P n cs m) :
    Reaches P (variableTarget env name line : Eval σ Target) m fun target m' =>
      target.IsOn (P chunk) ∧ Placed P n cs m' := by
  unfold Lua.variableTarget
  split
  · exact .pure ⟨trivial, hm⟩
  · dsimp only
    split
    · exact (Keeps.readCell _ m hm).bind fun _ _ hm' => .pure ⟨hline, hm'⟩
    · exact .pure ⟨hline, hm⟩

section
variable {invoke : Invoke σ} (hinvoke : Invoke.Returns P invoke)
include hinvoke

namespace Keeps

theorem readVariable (env : Env) (name : Text) : Keeps P 0 cs (readVariable invoke env name) := by
  unfold Lua.readVariable
  split
  · exact readCell _
  · dsimp only
    split
    · exact (readCell _).bind fun _ => index hinvoke _ _
    · exact (pure _).bind fun _ => index hinvoke _ _

theorem set (v : Value) {target : Target} (h : target.IsOn (P chunk)) :
    Keeps P 1 (some chunk :: cs) (target.set invoke v) := by
  cases target with
  | cell id => exact writeCell _ _
  | entry object key line => exact atLine h (assign hinvoke _ _ _)

theorem setAll {targets : List Target} (h : ∀ target ∈ targets, target.IsOn (P chunk))
    (values : List Value) : Keeps P 1 (some chunk :: cs) (setAll invoke targets values) := by
  induction targets generalizing values with
  | nil => exact pure _
  | cons target targets ih =>
    obtain ⟨htarget, htargets⟩ := List.forall_mem_cons.1 h
    exact (ih htargets _).bind fun _ => set hinvoke _ htarget

theorem applyBinary (op : BinaryOp) (a b : Operand) : Keeps P 0 cs (applyBinary invoke op a b) := by
  cases op with
  | arith op => exact arith hinvoke _ _ _
  | concat => exact concat hinvoke _ _
  | compare c => exact (compare hinvoke _ _ _).bind fun _ => pure _

theorem applyUnary (op : UnaryOp) (a : Operand) : Keeps P 0 cs (applyUnary invoke op a) := by
  cases op with
  | not => exact pure _
  | negate | complement => exact unaryArith hinvoke _ _ _ _
  | length => exact length hinvoke _

end Keeps

end

variable {invoke : Invoke σ}

namespace Keeps

/-! ### Expressions -/

mutual

theorem eval (hinvoke : Invoke.Returns P invoke) : ∀ (e : Expr) (env : Env), env.chunk = chunk →
    e.IsOn (P chunk) → Keeps P 1 (some chunk :: cs) (eval invoke e env)
  | .nil, _, _, _ | .bool _, _, _, _ | .number _, _, _, _ | .string _, _, _, _ | .rest, _, _, _ =>
    pure _
  | .function _, _, henv, h => (newFunction (henv ▸ h)).bind fun _ => pure _
  | .name _ _, _, _, h => atLine h ((readVariable hinvoke _ _).bind fun _ => pure _)
  | .index object key _, env, henv, h =>
    (eval hinvoke object env henv h.1).bind fun _ => (eval hinvoke key env henv h.2.1).bind fun _ =>
      atLine h.2.2 ((index hinvoke _ _).bind fun _ => pure _)
  | .call function arguments _, env, henv, h =>
    (eval hinvoke function env henv h.1).bind fun _ =>
      (evalList hinvoke arguments env henv h.2.1).bind fun _ => atLine h.2.2 (hinvoke _ _ _ _)
  | .method object _ arguments _, env, henv, h =>
    (eval hinvoke object env henv h.1).bind fun _ _ hm => .modify_bind <|
      (index hinvoke _ _ _ (hm.atLine h.2.2)).bind fun _ m' hm' =>
        ((evalList hinvoke arguments env henv h.2.1).bind fun _ => atLine h.2.2 (hinvoke _ _ _ _)) m'
          (hm'.mono (Nat.zero_le 1))
  | .unary _ operand _, env, henv, h =>
    (eval hinvoke operand env henv h.1).bind fun _ =>
      atLine h.2 ((applyUnary hinvoke _ _).bind fun _ => pure _)
  | .binary _ left right _, env, henv, h =>
    (eval hinvoke left env henv h.1).bind fun _ => (eval hinvoke right env henv h.2.1).bind fun _ =>
      atLine h.2.2 ((applyBinary hinvoke _ _ _).bind fun _ => pure _)
  | .and left right, env, henv, h =>
    (eval hinvoke left env henv h.1).bind fun _ =>
      ite ((eval hinvoke right env henv h.2).bind fun _ => pure _) (pure _)
  | .or left right, env, henv, h =>
    (eval hinvoke left env henv h.1).bind fun _ =>
      ite (pure _) ((eval hinvoke right env henv h.2).bind fun _ => pure _)
  | .paren inner, env, henv, h => (eval hinvoke inner env henv h).bind fun _ => pure _
  | .table fields, env, henv, h =>
    (newTable _).bind fun id => (evalFields hinvoke fields id env henv h).bind fun _ =>
      (changeObject _ _).bind fun _ => pure _

theorem evalList (hinvoke : Invoke.Returns P invoke) : ∀ (es : List Expr) (env : Env),
    env.chunk = chunk → Expr.AreOn (P chunk) es →
    Keeps P 1 (some chunk :: cs) (evalList invoke es env)
  | [], _, _, _ => pure _
  | [e], env, henv, h => eval hinvoke e env henv h.1
  | e :: e' :: es, env, henv, h =>
    (eval hinvoke e env henv h.1).bind fun _ =>
      (evalList hinvoke (e' :: es) env henv h.2).bind fun _ => pure _

theorem evalFields (hinvoke : Invoke.Returns P invoke) :
    ∀ (fields : List Field) (id : Nat) (env : Env), env.chunk = chunk → Field.AreOn (P chunk) fields →
    Keeps P 1 (some chunk :: cs) (evalFields invoke fields id env)
  | [], _, _, _, _ => pure _
  | [.item e], _, env, henv, h => eval hinvoke e env henv h.1
  | .item e :: field :: rest, id, env, henv, h =>
    (eval hinvoke e env henv h.1).bind fun _ =>
      (evalFields hinvoke (field :: rest) id env henv h.2).bind fun _ => pure _
  | .entry key value _ :: rest, id, env, henv, h =>
    (eval hinvoke key env henv h.1.1).bind fun _ =>
      (eval hinvoke value env henv h.1.2.1).bind fun _ _ hm => .modify_bind <|
        (rawSet _ _ _ _ (hm.atLine h.1.2.2)).bind fun _ m' hm' =>
          evalFields hinvoke rest id env henv h.2 m' (hm'.mono (Nat.zero_le 1))

end

end Keeps

/-! ### Statements -/

/-- What is assigned to is on a line of the chunk. -/
theorem Reaches.evalTarget (hinvoke : Invoke.Returns P invoke) {e : Expr} {env : Env}
    (henv : env.chunk = chunk) (he : e.IsOn (P chunk)) (htarget : Reader.isTarget e = true)
    (hm : Placed P 1 (some chunk :: cs) m) :
    Reaches P (evalTarget invoke env e) m fun target m' =>
      target.IsOn (P chunk) ∧ Placed P 1 (some chunk :: cs) m' := by
  cases e with
  | index object key line =>
    exact (Keeps.eval hinvoke object env henv he.1 m hm).bind fun _ m' hm' =>
      (Keeps.eval hinvoke key env henv he.2.1 m' hm').bind fun _ _ hm'' => .pure ⟨he.2.2, hm''⟩
  | name name line => exact variableTarget he env name hm
  | _ => cases htarget

theorem Reaches.evalTargets (hinvoke : Invoke.Returns P invoke) {targets : List Expr} {env : Env}
    (henv : env.chunk = chunk) (h : Expr.AreOn (P chunk) targets)
    (htargets : ∀ e ∈ targets, Reader.isTarget e = true) (hm : Placed P 1 (some chunk :: cs) m) :
    Reaches P (targets.mapM (Lua.evalTarget invoke env)) m fun places m' =>
      (∀ target ∈ places, target.IsOn (P chunk)) ∧ Placed P 1 (some chunk :: cs) m' := by
  induction targets generalizing m with
  | nil =>
    rw [List.mapM_nil]
    exact .pure ⟨List.forall_mem_nil _, hm⟩
  | cons e targets ih =>
    rw [List.mapM_cons]
    obtain ⟨he, hrest⟩ := List.forall_mem_cons.1 htargets
    refine (evalTarget hinvoke henv h.1 he hm).bind fun target m' h' => ?_
    exact (ih h.2 hrest h'.2).bind fun places m'' h'' =>
      .pure ⟨List.forall_mem_cons.2 ⟨h'.1, h''.1⟩, h''.2⟩

/-- A statement or a block leaves the calls under way as they were, but for its line, and goes on
with variables of the same chunk. -/
def Executes (P : Text → Nat → Prop) (chunk : Text) (cs : List (Option Text))
    (act : Eval σ (Control × Env)) : Prop :=
  ∀ m, Placed P 1 (some chunk :: cs) m → Reaches P act m fun r m' =>
    r.2.chunk = chunk ∧ Placed P r.1.fresh (some chunk :: cs) m'

namespace Executes

/-- A statement that leaves no variables behind. -/
theorem of_leaves {act : Eval σ Control} (henv : env.chunk = chunk)
    (h : Leaves P (some chunk :: cs) 1 Control.fresh act) :
    Executes P chunk cs (do return (← act, env)) :=
  fun m hm => (h m hm).bind fun _ _ h => .pure ⟨henv, h⟩

theorem after {act : Eval σ α} {f : α → Eval σ (Control × Env)}
    (h : Keeps P 1 (some chunk :: cs) act) (hf : ∀ a, Executes P chunk cs (f a)) :
    Executes P chunk cs (act >>= f) := fun m hm => (h m hm).bind fun a m' => hf a m'

theorem proceed (henv : env.chunk = chunk) :
    Executes P chunk cs (Pure.pure (.proceed, env) : Eval σ (Control × Env)) :=
  fun _ hm => .pure ⟨henv, hm⟩

/-- A round of a loop. -/
theorem round {act : Eval σ (Control × Env)} (h : Executes P chunk cs act) :
    Leaves P (some chunk :: cs) 1 (·.elim 1 Control.fresh) (do
      let (c, _) ← act
      return c.afterRound) := fun m hm => (h m hm).bind fun (c, _) _ hc => by
  cases c <;> exact .pure hc.2

/-- What is left of a block is how it is left. -/
theorem control {act : Eval σ (Control × Env)} (h : Executes P chunk cs act) :
    Leaves P (some chunk :: cs) 1 Control.fresh (do
      let (c, _) ← act
      return c) := fun m hm => (h m hm).bind fun _ _ hc => .pure hc.2

/-- The call that a function ends in is made from its line. -/
theorem returning (hinvoke : Invoke.Returns P invoke) (values : List Expr)
    (henv : env.chunk = chunk) (h : Expr.AreOn (P chunk) values) :
    Executes P chunk cs (Lua.exec invoke (.returning values) env) := by
  have hplain : Executes P chunk cs
      (do return (.result (← Lua.evalList invoke values env), env)) :=
    after (Keeps.evalList hinvoke values env henv h) fun _ _ hm => .pure ⟨henv, hm⟩
  cases values with
  | nil => exact hplain
  | cons e rest =>
    cases e with
    | call function arguments line =>
      cases rest with
      | cons _ _ => exact hplain
      | nil =>
        exact after (Keeps.eval hinvoke function env henv h.1.1) fun _ =>
          after (Keeps.evalList hinvoke arguments env henv h.1.2.1) fun _ _ hm =>
            .modify_bind (.pure ⟨henv, hm.atLine h.1.2.2⟩)
    | _ => exact hplain

mutual

theorem exec (hinvoke : Invoke.Returns P invoke) : ∀ (s : Statement) (env : Env),
    env.chunk = chunk → s.IsOn (P chunk) → Executes P chunk cs (exec invoke s env)
  | .locals names values, env, henv, h =>
    after (Keeps.evalList hinvoke values env henv h) fun values m hm =>
      (Reaches.bindVariables hm env names values).bind fun _ _ h => .pure ⟨h.1.trans henv, h.2⟩
  | .assign targets values, env, henv, h => fun _ hm =>
    (Reaches.evalTargets hinvoke henv h.1.1 h.1.2 hm).bind fun _ m h' =>
      after (Keeps.evalList hinvoke values env henv h.2) (fun _ =>
        after (Keeps.setAll hinvoke h'.1 _) fun _ => proceed henv) m h'.2
  | .call call, env, henv, h => after (Keeps.eval hinvoke call env henv h) fun _ => proceed henv
  | .block body, env, henv, h => fun m hm =>
    (execBlock hinvoke body env henv h m hm).bind fun _ _ h => .pure ⟨henv, h.2⟩
  | .whileLoop condition body, env, henv, h =>
    of_leaves henv <| .loop <| .after (Keeps.eval hinvoke condition env henv h.1) fun _ =>
      .ite (execBlock hinvoke body env henv h.2).round (.pure (Nat.le_refl 1))
  | .untilLoop body condition, env, henv, h =>
    of_leaves henv <| .loop fun m hm =>
      (execBlock hinvoke body env henv h.1 m hm).bind fun (c, inner) m' hc => by
        cases c with
        | proceed =>
          exact (Keeps.eval hinvoke condition inner hc.1 h.2 m' hc.2).bind fun _ _ hm' =>
            .pure (by split <;> exact hm')
        | leaveLoop | result _ | tail _ _ _ => exact .pure hc.2
  | .conditional condition body otherwise, env, henv, h =>
    after (Keeps.eval hinvoke condition env henv h.1) fun _ m hm => .ite
      (fun _ => (execBlock hinvoke body env henv h.2.1 m hm).bind fun _ _ h => .pure ⟨henv, h.2⟩)
      (fun _ => (execBlock hinvoke otherwise env henv h.2.2 m hm).bind fun _ _ h => .pure ⟨henv, h.2⟩)
  | .countLoop name start limit step body line, env, henv, h =>
    after (Keeps.eval hinvoke start env henv h.1.1) fun _ =>
      after (Keeps.eval hinvoke limit env henv h.1.2.1) fun _ =>
        after (Keeps.eval hinvoke step env henv h.1.2.2) fun _ =>
          of_leaves henv <| .atLine h.2.2 <| .count (fun v => .bindVariables henv [name] [v]
            fun env henv => (execBlock hinvoke body env henv h.2.1).control) _ _ _
  | .iteration names values body line, env, henv, h =>
    after (Keeps.evalList hinvoke values env henv h.1) fun _ =>
      after (Keeps.newCell _) fun control => of_leaves henv <| .loop <| .atLine h.2.2 <|
        .after (Keeps.readCell control) fun _ => .after (hinvoke _ _ _ _) fun next =>
          .ite (.pure (Nat.zero_le 1)) <| .after (Keeps.writeCell _ _) fun _ =>
            .of_le (.bindVariables henv names next fun env henv =>
              (execBlock hinvoke body env henv h.2.1).round) (Nat.zero_le 1)
  | .localFunction name body, env, henv, h =>
    after (Keeps.newCell _) fun cell => after (Keeps.newFunction (henv ▸ h)) fun _ =>
      after (Keeps.writeCell _ _) fun _ => proceed henv
  | .breaking, env, henv, _ => fun m hm => .pure ⟨henv, hm⟩
  | .returning values, _, henv, h => returning hinvoke values henv h

theorem execBlock (hinvoke : Invoke.Returns P invoke) :
    ∀ (body : List Statement) (env : Env), env.chunk = chunk → Statement.AreOn (P chunk) body →
      Executes P chunk cs (execBlock invoke body env)
  | [], _, henv, _ => proceed henv
  | s :: rest, env, henv, h => fun m hm =>
    (exec hinvoke s env henv h.1 m hm).bind fun r m' hr => by
      obtain ⟨c, env'⟩ := r
      cases c with
      | proceed => exact execBlock hinvoke rest env' hr.1 h.2 m' hr.2
      | leaveLoop | result _ | tail _ _ _ => exact .pure hr

end

end Executes

/-- The body of a function. -/
theorem Leaves.execFunction (hinvoke : Invoke.Returns P invoke) {c : Closure}
    (hc : c.body.IsOn (P c.env.chunk)) (arguments : List Value) :
    Leaves P (some c.env.chunk :: cs) 1 Control.fresh (execFunction invoke c arguments) := by
  obtain ⟨⟨parameters, takesRest, body, line⟩, env⟩ := c
  exact .bindVariables rfl parameters arguments fun env henv =>
    (Executes.execBlock hinvoke body env henv hc).control

end Stencil.Lua
