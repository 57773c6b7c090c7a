import Stencil.Lua.Parser

/-! The lines of what is read.

An expression or a statement that can fail when it is run knows its line, and so does the complaint
about a script that cannot be read. All these lines are lines of tokens: a reader that is given
tokens `P` holds of makes of them what `P` holds of as well (`StaysOn`). There is one lemma for each
reader, and `StaysOn.grammar` puts them together by the depth of nesting. -/
namespace Stencil.Lua

variable {P : Nat → Prop}

/-! ### Lines of syntax -/

mutual

/-- `P` holds of every line in an expression. -/
def Expr.IsOn (P : Nat → Prop) : Expr → Prop
  | .nil | .bool _ | .number _ | .string _ | .rest => True
  | .function f => f.IsOn P
  | .name _ line => P line
  | .index object key line => object.IsOn P ∧ key.IsOn P ∧ P line
  | .call f arguments line => f.IsOn P ∧ Expr.AreOn P arguments ∧ P line
  | .method object _ arguments line => object.IsOn P ∧ Expr.AreOn P arguments ∧ P line
  | .unary _ operand line => operand.IsOn P ∧ P line
  | .binary _ left right line => left.IsOn P ∧ right.IsOn P ∧ P line
  | .and left right | .or left right => left.IsOn P ∧ right.IsOn P
  | .paren inner => inner.IsOn P
  | .table fields => Field.AreOn P fields

def Expr.AreOn (P : Nat → Prop) : List Expr → Prop
  | [] => True
  | e :: rest => e.IsOn P ∧ Expr.AreOn P rest

def Field.AreOn (P : Nat → Prop) : List Field → Prop
  | [] => True
  | .item value :: rest => value.IsOn P ∧ Field.AreOn P rest
  | .entry key value line :: rest => (key.IsOn P ∧ value.IsOn P ∧ P line) ∧ Field.AreOn P rest

def Function.IsOn (P : Nat → Prop) : Function → Prop
  | .mk _ _ body _ => Statement.AreOn P body

/-- `P` holds of every line in a statement, and what is assigned to can be assigned to. -/
def Statement.IsOn (P : Nat → Prop) : Statement → Prop
  | .locals _ values => Expr.AreOn P values
  | .assign targets values =>
    (Expr.AreOn P targets ∧ ∀ e ∈ targets, Reader.isTarget e = true) ∧ Expr.AreOn P values
  | .call call => call.IsOn P
  | .block body => Statement.AreOn P body
  | .whileLoop condition body => condition.IsOn P ∧ Statement.AreOn P body
  | .untilLoop body condition => Statement.AreOn P body ∧ condition.IsOn P
  | .conditional condition body otherwise =>
    condition.IsOn P ∧ Statement.AreOn P body ∧ Statement.AreOn P otherwise
  | .countLoop _ start limit step body line =>
    (start.IsOn P ∧ limit.IsOn P ∧ step.IsOn P) ∧ Statement.AreOn P body ∧ P line
  | .iteration _ values body line => Expr.AreOn P values ∧ Statement.AreOn P body ∧ P line
  | .localFunction _ body => body.IsOn P
  | .breaking => True
  | .returning values => Expr.AreOn P values

def Statement.AreOn (P : Nat → Prop) : List Statement → Prop
  | [] => True
  | s :: rest => s.IsOn P ∧ Statement.AreOn P rest

end

theorem Expr.areOn_of_forall {es : List Expr} (h : ∀ e ∈ es, e.IsOn P) : Expr.AreOn P es := by
  induction es with
  | nil => trivial
  | cons e es ih => exact ⟨h e List.mem_cons_self, ih fun e he => h e (List.mem_cons_of_mem _ he)⟩

theorem Expr.AreOn.append {es : List Expr} {e : Expr} (h : Expr.AreOn P es) (he : e.IsOn P) :
    Expr.AreOn P (es ++ [e]) := by
  induction es with
  | nil => exact ⟨he, trivial⟩
  | cons first es ih => exact ⟨h.1, ih h.2⟩

theorem Field.AreOn.append {field : Field} {rest : List Field} (h : Field.AreOn P [field])
    (hrest : Field.AreOn P rest) : Field.AreOn P (field :: rest) := by
  cases field with
  | item value => exact ⟨h.1, hrest⟩
  | entry key value line => exact ⟨h.1, hrest⟩

/-! ### Readers -/

/-- The tokens that are ahead are on lines of `P`, and so is a token at the end of nothing. -/
structure Cursor.IsOn (P : Nat → Prop) (s : Cursor) : Prop where
  first : P 1
  ahead : ∀ l ∈ s.ahead, P l.line

theorem Cursor.IsOn.of_eq {s s' : Cursor} (h : s.IsOn P) (heq : s'.ahead = s.ahead) : s'.IsOn P :=
  ⟨h.first, heq ▸ h.ahead⟩

section
variable {α β : Type}

/-- What a reader comes to is on lines of `P`. -/
def IsReadOn (P : Nat → Prop) (Q : α → Prop) : Except ParseError (α × Cursor) → Prop
  | .ok (a, s) => s.IsOn P ∧ Q a
  | .error e => P e.line

/-- Given tokens on lines of `P`, a reader makes of them what `Q` holds of, or complains on a line
of `P`. -/
def StaysOn (P : Nat → Prop) (r : Reader α) (Q : α → Prop) : Prop :=
  ∀ s : Cursor, s.IsOn P → IsReadOn P Q (r.run s)

end

/-- Every line that comes of the readers of a grammar is on lines of `P`. -/
structure Reader.Grammar.StaysOn (P : Nat → Prop) (g : Grammar) : Prop where
  statement : Lua.StaysOn P g.statement (Statement.IsOn P)
  expr : ∀ limit, Lua.StaysOn P (g.expr limit) (Expr.IsOn P)

theorem Reader.Operator.isOn_apply (i : Operator) {left right : Expr} {l : Nat}
    (hleft : left.IsOn P) (hright : right.IsOn P) (hl : P l) : (i.apply left right l).IsOn P := by
  cases i with
  | op _ => exact ⟨hleft, hright, hl⟩
  | and => exact ⟨hleft, hright⟩
  | or => exact ⟨hleft, hright⟩

theorem Reader.forall_isTarget {targets : List Expr}
    (h : ∀ e ∈ targets.dropLast, isTarget e = true)
    (hlast : (targets.getLast?.map isTarget).getD false = true) :
    ∀ e ∈ targets, isTarget e = true := by
  rcases List.eq_nil_or_concat targets with rfl | ⟨before, last, rfl⟩
  · exact nofun
  · rw [List.concat_eq_append, List.dropLast_concat] at h
    rw [List.concat_eq_append, List.getLast?_concat] at hlast
    rw [List.concat_eq_append]
    exact List.forall_mem_append.2 ⟨h, List.forall_mem_singleton.2 hlast⟩

namespace StaysOn

open Reader

variable {α β : Type} {r : Reader α} {Q : α → Prop} {R : β → Prop}

theorem pure {a : α} (h : Q a) : StaysOn P (pure a : Reader α) Q := fun _ hs => ⟨hs, h⟩

theorem bind {f : α → Reader β} (h : StaysOn P r Q) (hf : ∀ a, Q a → StaysOn P (f a) R) :
    StaysOn P (r >>= f) R := by
  intro s hs
  have hr := h s hs
  rw [StateT.run_bind]
  cases hrun : r.run s with
  | error e =>
    rw [hrun] at hr
    exact hr
  | ok read =>
    rw [hrun] at hr
    exact hf read.1 hr.2 read.2 hr.1

theorem imp {Q' : α → Prop} (h : StaysOn P r Q) (hQ : ∀ a, Q a → Q' a) : StaysOn P r Q' := by
  intro s hs
  have hr := h s hs
  cases hrun : r.run s with
  | error e =>
    rw [hrun] at hr
    exact hr
  | ok read =>
    rw [hrun] at hr
    exact ⟨hr.1, hQ _ hr.2⟩

theorem ite {c : Prop} [Decidable c] {r' : Reader α} (h : c → StaysOn P r Q)
    (h' : ¬c → StaysOn P r' Q) : StaysOn P (if c then r else r') Q := by
  split
  · next hc => exact h hc
  · next hc => exact h' hc

theorem throw {e : ParseError} (h : P e.line) : StaysOn P (throw e : Reader α) Q := fun _ _ => h

theorem get : StaysOn P (get : Reader Cursor) (Cursor.IsOn P) := fun _ hs => ⟨hs, hs⟩

/-- A change to the cursor that leaves the tokens alone. -/
theorem change {f : Cursor → Cursor} (h : ∀ s, (f s).ahead = s.ahead) :
    StaysOn P (modify f : Reader Unit) fun _ => True := fun s hs => ⟨hs.of_eq (h s), trivial⟩

theorem set {s : Cursor} (h : s.IsOn P) : StaysOn P (set s : Reader Unit) fun _ => True :=
  fun _ _ => ⟨h, trivial⟩

/-! ### Tokens -/

theorem current : StaysOn P current fun l => P l.line := by
  unfold Reader.current
  refine .bind get fun s hs => ?_
  have hline : P (s.ahead.headD ⟨.finish, 1, endShown⟩).line := by
    cases hahead : s.ahead with
    | nil => exact hs.first
    | cons l rest => exact hs.ahead l (hahead ▸ List.mem_cons_self)
  dsimp only
  split
  · exact throw hline
  · exact pure hline

theorem complain (c : Text → Complaint) : StaysOn P (complain c : Reader α) Q :=
  .bind current fun _ hline => throw hline

theorem advance : StaysOn P advance fun _ => True := by
  have hdrop : StaysOn P (modify fun s => { s with ahead := s.ahead.drop 1 } : Reader Unit)
      fun _ => True := fun s hs =>
    ⟨⟨hs.first, fun l hl => hs.ahead l (List.mem_of_mem_drop hl)⟩, trivial⟩
  exact .bind hdrop fun _ _ => .bind current fun _ _ => pure trivial

theorem line : StaysOn P line P := .bind current fun _ h => pure h

theorem isAt (t : Token) : StaysOn P (isAt t) fun _ => True := .bind current fun _ _ => pure trivial

theorem accept (t : Token) : StaysOn P (accept t) fun _ => True :=
  .bind (isAt t) fun _ _ => ite (fun _ => .bind advance fun _ _ => pure trivial)
    fun _ => pure trivial

theorem expect (t : Token) : StaysOn P (expect t) fun _ => True :=
  .bind (accept t) fun _ _ => ite (fun _ => pure trivial) fun _ => complain _

theorem close (t opened : Token) (opening : Nat) : StaysOn P (close t opened opening) fun _ => True :=
  .bind (accept t) fun _ _ => ite (fun _ => pure trivial) fun _ =>
    .bind line fun _ _ => ite (fun _ => complain _) fun _ => complain _

theorem name : StaysOn P name fun _ => True := by
  refine .bind current fun l _ => ?_
  split
  · exact .bind advance fun _ _ => pure trivial
  · exact complain _

theorem declare (count : Nat) : StaysOn P (declare count) fun _ => True :=
  .bind get fun _ hs => ite
    (fun _ => .bind (complain _) fun _ (_ : True) => set (hs.of_eq rfl))
    fun _ => set (hs.of_eq rfl)

theorem newName : StaysOn P newName fun _ => True :=
  .bind name fun _ _ => .bind (declare 1) fun _ _ => pure trivial

theorem inScope (h : StaysOn P r Q) : StaysOn P (inScope r) Q :=
  .bind get fun _ _ => .bind h fun _ ha => .bind (change fun _ => rfl) fun _ _ => pure ha

theorem rounds : StaysOn P rounds fun _ => True := .bind get fun _ _ => pure trivial

theorem separated (t : Token) {item : Reader α} (h : StaysOn P item Q) (fuel : Nat) :
    StaysOn P (separated t item fuel) fun items => ∀ a ∈ items, Q a := by
  induction fuel with
  | zero => exact pure nofun
  | succ fuel ih =>
    refine .bind h fun a ha => .bind (accept t) fun _ _ => ite (fun _ => ?_) fun _ => ?_
    · exact .bind ih fun rest hrest => pure (List.forall_mem_cons.2 ⟨ha, hrest⟩)
    · exact pure (List.forall_mem_cons.2 ⟨ha, nofun⟩)

/-! ### Expressions -/

section
variable {inner : Grammar} (hinner : inner.StaysOn P)
include hinner

theorem exprs : StaysOn P (exprs inner) (Expr.AreOn P) :=
  .bind rounds fun _ _ => (separated _ (hinner.expr 0) _).imp fun _ => Expr.areOn_of_forall

omit hinner in
theorem endsBlock (withUntil : Bool) : StaysOn P (endsBlock withUntil) fun _ => True := by
  refine .bind current fun l _ => ?_
  split
  · exact pure trivial
  · exact pure trivial
  · exact pure trivial

theorem statements (fuel : Nat) : StaysOn P (statements inner fuel) (Statement.AreOn P) := by
  induction fuel with
  | zero => exact pure trivial
  | succ fuel ih =>
    refine .bind (endsBlock true) fun _ _ => ite (fun _ => pure trivial) fun _ => ?_
    refine .bind (isAt _) fun _ _ => .bind hinner.statement fun first hfirst => ?_
    refine ite (fun _ => pure ⟨hfirst, trivial⟩) fun _ => ?_
    exact .bind ih fun rest hrest => pure ⟨hfirst, hrest⟩

theorem block : StaysOn P (block inner) (Statement.AreOn P) :=
  inScope (.bind rounds fun _ _ => statements hinner _)

theorem loopBody : StaysOn P (loopBody inner) (Statement.AreOn P) :=
  .bind get fun _ _ => .bind (change fun _ => rfl) fun _ _ => .bind (block hinner) fun _ hbody =>
    .bind (change fun _ => rfl) fun _ _ => pure hbody

omit hinner in
theorem parameters (fuel : Nat) : StaysOn P (parameters fuel) fun _ => True := by
  induction fuel with
  | zero => exact pure trivial
  | succ fuel ih =>
    refine .bind current fun l _ => ?_
    split
    · refine .bind advance fun _ _ => .bind (declare 1) fun _ _ => .bind (accept _) fun _ _ => ?_
      exact ite (fun _ => .bind ih fun _ _ => pure trivial) fun _ => pure trivial
    · exact ite (fun _ => .bind advance fun _ _ => pure trivial) fun _ => complain _

omit hinner in
theorem refuseStrayBreak : StaysOn P refuseStrayBreak fun _ => True := by
  refine .bind get fun s _ => ?_
  split
  · exact .bind line fun _ hline => throw hline
  · exact pure trivial

theorem function (first : List Text) (opening : Nat) :
    StaysOn P (function inner first opening) (Function.IsOn P) := by
  refine .bind (expect _) fun _ _ => .bind get fun outer houter => ?_
  refine .bind (set (houter.of_eq rfl)) fun _ _ => .bind (isAt _) fun closed _ => ?_
  extract_lets after
  have hafter (read : List Text × Bool) : StaysOn P (after read) (Function.IsOn P) := by
    refine .bind (expect _) fun _ _ => .bind (change fun _ => rfl) fun _ _ => ?_
    refine .bind (block hinner) fun body hbody => .bind (close _ _ _) fun _ _ => ?_
    refine .bind refuseStrayBreak fun _ _ => .bind (change fun _ => rfl) fun _ _ => pure hbody
  refine ite (fun _ => .bind (.pure trivial) fun _ (_ : True) => hafter _) fun _ => ?_
  exact .bind rounds fun _ _ => .bind (parameters _) fun _ _ => hafter _

omit hinner in
theorem withLastLine (h : StaysOn P r Q) :
    StaysOn P (withLastLine r) fun read => Q read.1 ∧ P read.2 := by
  refine .bind current fun l hl => .bind get fun s hs => .bind h fun a ha => .bind get fun s' _ => ?_
  refine pure ⟨ha, ?_⟩
  have hpassed : ∀ l' ∈ l :: s.ahead.take (s.ahead.length - s'.ahead.length), P l'.line :=
    List.forall_mem_cons.2 ⟨hl, fun l' hl' => hs.ahead l' (List.mem_of_mem_take hl')⟩
  exact hpassed _ List.getLastD_mem_cons

theorem entry {key : Expr} (hkey : key.IsOn P) :
    StaysOn P (entry inner key) fun field => Field.AreOn P [field] :=
  .bind (withLastLine (hinner.expr 0)) fun _ hread => pure ⟨⟨hkey, hread⟩, trivial⟩

theorem field : StaysOn P (field inner) fun field => Field.AreOn P [field] := by
  refine .bind current fun l hl => ite (fun _ => .bind get fun s hs => ?_) fun _ => ?_
  · split
    · next hahead =>
      refine throw (hs.ahead ⟨_, _, _⟩ (hahead ▸ List.mem_cons_of_mem _ List.mem_cons_self))
    · exact .bind name fun _ _ => .bind advance fun _ _ => entry hinner trivial
    · exact .bind (hinner.expr 0) fun _ he => pure ⟨he, trivial⟩
  · refine .bind (accept _) fun _ _ => ite (fun _ => ?_) fun _ => ?_
    · exact .bind (hinner.expr 0) fun _ hkey => .bind (expect _) fun _ _ =>
        .bind (expect _) fun _ _ => entry hinner hkey
    · exact .bind (hinner.expr 0) fun _ he => pure ⟨he, trivial⟩

theorem fields (fuel : Nat) : StaysOn P (fields inner fuel) (Field.AreOn P) := by
  induction fuel with
  | zero => exact pure trivial
  | succ fuel ih =>
    refine .bind (isAt _) fun _ _ => ite (fun _ => pure trivial) fun _ => ?_
    refine .bind (field hinner) fun first hfirst => .bind (accept _) fun _ _ => ?_
    have hmore : StaysOn P (do return first :: (← Reader.fields inner fuel)) (Field.AreOn P) :=
      .bind ih fun rest hrest => pure (hfirst.append hrest)
    refine ite (fun _ => hmore) fun _ => .bind (accept _) fun _ _ => ?_
    exact ite (fun _ => hmore) fun _ => pure hfirst

theorem table : StaysOn P (table inner) (Expr.IsOn P) :=
  .bind line fun _ _ => .bind (expect _) fun _ _ => .bind rounds fun _ _ =>
    .bind (fields hinner _) fun _ hall => .bind (close _ _ _) fun _ _ => pure hall

theorem arguments : StaysOn P (arguments inner) (Expr.AreOn P) := by
  refine .bind current fun l _ => ?_
  split
  · exact .bind advance fun _ _ => pure ⟨trivial, trivial⟩
  · refine ite (fun _ => .bind (table hinner) fun _ h => pure ⟨h, trivial⟩) fun _ => ?_
    refine ite (fun _ => .bind advance fun _ _ => .bind (isAt _) fun _ _ => ?_) fun _ => complain _
    extract_lets after
    have hafter (all : List Expr) (hall : Expr.AreOn P all) :
        StaysOn P (after all) (Expr.AreOn P) := .bind (close _ _ _) fun _ _ => pure hall
    exact ite (fun _ => .bind (.pure trivial) hafter) fun _ => .bind (exprs hinner) hafter

theorem primary : StaysOn P (primary inner) (Expr.IsOn P) := by
  refine .bind current fun l hl => ?_
  split
  · exact .bind advance fun _ _ => pure hl
  · refine ite (fun _ => ?_) fun _ => complain _
    exact .bind advance fun _ _ => .bind (hinner.expr 0) fun _ he => .bind (close _ _ _) fun _ _ =>
      pure he

theorem suffixes (fuel : Nat) {e : Expr} (he : e.IsOn P) :
    StaysOn P (suffixes inner fuel e) (Expr.IsOn P) := by
  induction fuel generalizing e with
  | zero => exact pure he
  | succ fuel ih =>
    refine .bind current fun l hl => ite (fun _ => ?_) fun _ => ite (fun _ => ?_) fun _ =>
      ite (fun _ => ?_) fun _ => ite (fun _ => ?_) fun _ => pure he
    · exact .bind (arguments hinner) fun _ h => ih ⟨he, h, hl⟩
    · exact .bind advance fun _ _ => .bind name fun _ _ => ih ⟨he, trivial, hl⟩
    · exact .bind advance fun _ _ => .bind (hinner.expr 0) fun _ hkey => .bind (expect _) fun _ _ =>
        ih ⟨he, hkey, hl⟩
    · exact .bind advance fun _ _ => .bind name fun _ _ => .bind line fun _ hcall =>
        .bind (arguments hinner) fun _ h => ih ⟨he, h, hcall⟩

theorem suffixed : StaysOn P (suffixed inner) (Expr.IsOn P) :=
  .bind (primary hinner) fun _ he => .bind rounds fun _ _ => suffixes hinner _ he

theorem simple : StaysOn P (simple inner) (Expr.IsOn P) := by
  refine .bind current fun l _ => ?_
  have hconstant {e : Expr} (he : e.IsOn P) :
      StaysOn P (do Reader.advance; return e) (Expr.IsOn P) := .bind advance fun _ _ => pure he
  dsimp only
  split
  · exact hconstant trivial
  · exact hconstant trivial
  · refine ite (fun _ => hconstant trivial) fun _ => ite (fun _ => hconstant trivial) fun _ =>
      ite (fun _ => hconstant trivial) fun _ => ite (fun _ => ?_) fun _ =>
      ite (fun _ => table hinner) fun _ => ite (fun _ => ?_) fun _ => suffixed hinner
    · exact .bind get fun _ _ => ite (fun _ => hconstant trivial) fun _ => complain _
    · exact .bind advance fun _ _ => .bind (function hinner _ _) fun _ hf => pure hf

theorem operators (limit fuel : Nat) {left : Expr} (hleft : left.IsOn P) :
    StaysOn P (operators inner limit fuel left) (Expr.IsOn P) := by
  induction fuel generalizing left with
  | zero => exact pure hleft
  | succ fuel ih =>
    refine .bind current fun l hl => ?_
    split
    · refine ite (fun _ => ?_) fun _ => pure hleft
      exact .bind advance fun _ _ => .bind (hinner.expr _) fun _ hright =>
        ih (Operator.isOn_apply _ hleft hright hl)
    · exact pure hleft

theorem expr (limit : Nat) : StaysOn P (expr inner limit) (Expr.IsOn P) := by
  refine .bind current fun l hl => ?_
  have hafter {first : Expr} (hfirst : first.IsOn P) :
      StaysOn P (do Reader.operators inner limit (← Reader.rounds) first) (Expr.IsOn P) :=
    .bind rounds fun _ _ => operators hinner _ _ hfirst
  extract_lets after
  have hafter (first : Expr) (hfirst : first.IsOn P) : StaysOn P (after first) (Expr.IsOn P) :=
    .bind rounds fun _ _ => operators hinner _ _ hfirst
  split
  · exact .bind advance fun _ _ => .bind (hinner.expr _) fun _ h => .bind (.pure ⟨h, hl⟩) hafter
  · exact .bind (simple hinner) hafter

/-! ### Statements -/

theorem arms (opening fuel : Nat) : StaysOn P (arms inner opening fuel) (Statement.IsOn P) := by
  induction fuel with
  | zero => exact complain _
  | succ fuel ih =>
    refine .bind (hinner.expr 0) fun _ hcondition => .bind (expect _) fun _ _ => ?_
    refine .bind (block hinner) fun _ hbody => .bind (accept _) fun _ _ => ?_
    refine ite (fun _ => ?_) fun _ => ?_
    · exact .bind ih fun _ hrest => pure ⟨hcondition, hbody, hrest, trivial⟩
    · refine .bind (accept _) fun _ _ => ?_
      extract_lets after
      have hafter (otherwise : List Statement) (h : Statement.AreOn P otherwise) :
          StaysOn P (after otherwise) (Statement.IsOn P) :=
        .bind (close _ _ _) fun _ _ => pure ⟨hcondition, hbody, h⟩
      exact ite (fun _ => .bind (block hinner) hafter) fun _ => .bind (.pure trivial) hafter

theorem forLoop (opening : Nat) (hopening : P opening) :
    StaysOn P (forLoop inner opening) (Statement.IsOn P) := by
  refine inScope (.bind name fun first _ => .bind current fun l hl => ?_)
  have hfinish : StaysOn P (do
      Reader.expect (word "do")
      let body ← Reader.loopBody inner
      Reader.close (word "end") (word "for") opening
      return body) (Statement.AreOn P) :=
    .bind (expect _) fun _ _ => .bind (loopBody hinner) fun _ h => .bind (close _ _ _) fun _ _ =>
      pure h
  refine ite (fun _ => ?_) fun _ => ite (fun _ => ?_) fun _ => complain _
  · refine .bind (declare _) fun _ _ => .bind advance fun _ _ => ?_
    refine .bind (hinner.expr 0) fun _ hstart => .bind (expect _) fun _ _ => ?_
    refine .bind (hinner.expr 0) fun _ hlimit => .bind (accept _) fun _ _ => ?_
    extract_lets after
    have hafter (step : Expr) (hstep : step.IsOn P) :
        StaysOn P (after step) (Statement.IsOn P) :=
      .bind hfinish fun _ hbody => pure ⟨⟨hstart, hlimit, hstep⟩, hbody, hopening⟩
    exact ite (fun _ => .bind (hinner.expr 0) hafter) fun _ => .bind (.pure trivial) hafter
  · refine .bind (declare _) fun _ _ => .bind (accept _) fun _ _ => ?_
    extract_lets after
    have hafter (more : List Text) (_ : True) : StaysOn P (after more) (Statement.IsOn P) :=
      .bind (expect _) fun _ _ => .bind line fun _ hcall => .bind (exprs hinner) fun _ hvalues =>
        .bind hfinish fun _ hbody => pure ⟨hvalues, hbody, hcall⟩
    refine ite (fun _ => .bind rounds fun _ _ => ?_) fun _ => .bind (.pure trivial) hafter
    exact .bind ((separated _ newName _).imp fun _ _ => trivial) hafter

omit hinner in
theorem namePath (fuel : Nat) {e : Expr} (he : e.IsOn P) (htarget : isTarget e = true) :
    StaysOn P (namePath fuel e) fun e => e.IsOn P ∧ isTarget e = true := by
  induction fuel generalizing e with
  | zero => exact pure ⟨he, htarget⟩
  | succ fuel ih =>
    refine .bind (accept _) fun _ _ => ite (fun _ => ?_) fun _ => pure ⟨he, htarget⟩
    exact .bind name fun _ _ => .bind line fun _ hl => ih ⟨he, trivial, hl⟩ rfl

theorem functionStatement (opening : Nat) (hopening : P opening) :
    StaysOn P (functionStatement inner opening) (Statement.IsOn P) := by
  refine .bind name fun _ _ => .bind rounds fun _ _ => ?_
  refine .bind (namePath _ (e := .name _ _) hopening rfl) fun path hpath => ?_
  refine .bind (accept _) fun _ _ => ite (fun _ => .bind name fun _ _ => ?_) fun _ => ?_
  · refine .bind (function hinner _ _) fun f hf => pure ⟨⟨⟨?_, trivial⟩, ?_⟩, hf, trivial⟩
    · exact ⟨hpath.1, trivial, hopening⟩
    · exact List.forall_mem_singleton.2 rfl
  · refine .bind (function hinner _ _) fun f hf => pure ⟨⟨⟨hpath.1, trivial⟩, ?_⟩, hf, trivial⟩
    exact List.forall_mem_singleton.2 hpath.2

theorem assignment (fuel : Nat) {targets : List Expr} (htargets : Expr.AreOn P targets)
    (h : ∀ e ∈ targets.dropLast, isTarget e = true) :
    StaysOn P (assignment inner fuel targets) (Statement.IsOn P) := by
  induction fuel generalizing targets with
  | zero => exact complain _
  | succ fuel ih =>
    unfold Reader.assignment
    extract_lets after
    have hafter (hall : ∀ e ∈ targets, isTarget e = true) :
        StaysOn P (after ()) (Statement.IsOn P) := by
      refine .bind (accept _) fun _ _ => ite (fun _ => ?_) fun _ => ?_
      · refine .bind (suffixed hinner) fun next hnext => ih (htargets.append hnext) ?_
        rwa [List.dropLast_concat]
      · exact .bind (expect _) fun _ _ => .bind (exprs hinner) fun _ hvalues =>
          pure ⟨⟨htargets, hall⟩, hvalues⟩
    refine ite (fun hlast => hafter (Reader.forall_isTarget h hlast)) fun _ => ?_
    exact .bind (complain _) fun _ => False.elim

theorem exprStatement : StaysOn P (exprStatement inner) (Statement.IsOn P) := by
  refine .bind (suffixed hinner) fun e he => .bind current fun _ _ => ?_
  refine ite (fun _ => ?_) fun _ => ite (fun _ => pure he) fun _ => complain _
  exact .bind rounds fun _ _ => assignment hinner _ ⟨he, trivial⟩ nofun

theorem localStatement (opening : Nat) :
    StaysOn P (localStatement inner opening) (Statement.IsOn P) := by
  refine .bind (accept _) fun _ _ => ite (fun _ => ?_) fun _ => ?_
  · exact .bind newName fun _ _ => .bind (function hinner _ _) fun _ hf => pure hf
  · refine .bind rounds fun _ _ => .bind (separated _ newName _) fun _ _ => ?_
    refine .bind (accept _) fun _ _ => ite (fun _ => ?_) fun _ => pure trivial
    exact .bind (exprs hinner) fun _ h => pure h

theorem returnStatement : StaysOn P (returnStatement inner) (Statement.IsOn P) := by
  refine .bind (endsBlock _) fun _ _ => .bind (isAt _) fun _ _ => ?_
  extract_lets after
  have hafter (values : List Expr) (h : Expr.AreOn P values) :
      StaysOn P (after values) (Statement.IsOn P) := .bind (accept _) fun _ _ => pure h
  exact ite (fun _ => .bind (.pure trivial) hafter) fun _ => .bind (exprs hinner) hafter

omit hinner in
theorem breakStatement (at_ : Nat) : StaysOn P (breakStatement at_) (Statement.IsOn P) :=
  .bind (change fun s => by split <;> rfl) fun _ _ => pure trivial

theorem statement : StaysOn P (statement inner) (Statement.IsOn P) := by
  refine .bind current fun l hl => ?_
  split
  · exact .bind advance fun _ _ => pure trivial
  · split
    case h_1 => exact .bind advance fun _ _ => .bind rounds fun _ _ => arms hinner _ _
    case h_2 =>
      exact .bind advance fun _ _ => .bind (hinner.expr 0) fun _ hcondition =>
        .bind (expect _) fun _ _ => .bind (loopBody hinner) fun _ hbody =>
        .bind (close _ _ _) fun _ _ => pure ⟨hcondition, hbody⟩
    case h_3 =>
      exact .bind advance fun _ _ => .bind (block hinner) fun _ hbody =>
        .bind (close _ _ _) fun _ _ => pure hbody
    case h_4 => exact .bind advance fun _ _ => forLoop hinner _ hl
    case h_5 =>
      exact .bind advance fun _ _ => .bind (loopBody hinner) fun _ hbody =>
        .bind (close _ _ _) fun _ _ => .bind (hinner.expr 0) fun _ hcondition =>
        pure ⟨hbody, hcondition⟩
    case h_6 => exact .bind advance fun _ _ => functionStatement hinner _ hl
    case h_7 => exact .bind advance fun _ _ => localStatement hinner _
    case h_8 => exact .bind advance fun _ _ => returnStatement hinner
    case h_9 => exact .bind advance fun _ _ => breakStatement _
    case h_10 => exact exprStatement hinner
  · exact exprStatement hinner

end

theorem grammar (depth : Nat) : (grammar depth).StaysOn P := by
  induction depth with
  | zero => exact ⟨complain fun _ => .tooDeep, fun _ => complain fun _ => .tooDeep⟩
  | succ depth ih => exact ⟨statement ih, expr ih⟩

theorem chunk : StaysOn P chunk (Statement.AreOn P) := by
  refine .bind current fun _ _ => .bind (block (grammar _)) fun body hbody => ?_
  refine .bind (isAt _) fun _ _ => ?_
  extract_lets after
  have hafter : StaysOn P (after ()) (Statement.AreOn P) :=
    .bind refuseStrayBreak fun _ _ => pure hbody
  exact ite (fun _ => hafter) fun _ => .bind (complain _) fun _ => False.elim

end StaysOn

/-- A script that has been read is on lines of `P`, or the complaint about it is. -/
inductive IsParsedOn (P : Nat → Prop) : Except ParseError (List Statement) → Prop
  | ok {body : List Statement} (h : Statement.AreOn P body) : IsParsedOn P (.ok body)
  | error {e : ParseError} (h : P e.line) : IsParsedOn P (.error e)

/-- What is read of a script is on lines of its tokens, and so is the place of a complaint. -/
theorem parse_isOn {script : Text} (hfirst : P 1) (h : ∀ l ∈ tokens script, P l.line) :
    IsParsedOn P (parse script) := by
  have hread := StaysOn.chunk (P := P) ⟨tokens script, true, false, none, 0, 0⟩ ⟨hfirst, h⟩
  unfold parse
  cases hrun : Reader.chunk.run ⟨tokens script, true, false, none, 0, 0⟩ with
  | error e =>
    rw [hrun] at hread
    exact .error hread
  | ok read =>
    rw [hrun] at hread
    exact .ok hread.2

end Stencil.Lua
