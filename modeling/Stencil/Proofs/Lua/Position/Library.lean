import Stencil.Lua.Library
import Stencil.Proofs.Lua.Position.Machine

/-! Native functions come back to their callers.

A native function is called in a frame of its own that is on no line, so it may raise any value; all
it does to the calls under way is to call functions that come back. There is one lemma for each
function of the libraries, and `Keeps.callNative` for all of them. -/
namespace Stencil.Lua.Keeps

variable {σ α β : Type} {P : Text → Nat → Prop} {n : Nat} {cs : List (Option Text)}

/-- An effect on the world outside. -/
theorem lift (x : StateM σ α) : Keeps P n cs (monadLift x : Eval σ α) := fun _ hm _ => hm

theorem mapM {f : α → Eval σ β} (h : ∀ a, Keeps P n cs (f a)) (items : List α) :
    Keeps P n cs (items.mapM f) := by
  induction items with
  | nil =>
    rw [List.mapM_nil]
    exact pure _
  | cons a items ih =>
    rw [List.mapM_cons]
    exact (h a).bind fun _ => ih.bind fun _ => pure _

theorem forM {f : α → Eval σ Unit} (h : ∀ a, Keeps P n cs (f a)) (items : List α) :
    Keeps P n cs (items.forM f) := by
  induction items with
  | nil => exact pure _
  | cons a items ih => exact (h a).bind fun _ => ih

/-- A complaint where a condition holds, and what comes behind it otherwise. -/
theorem otherwise {c : Prop} [Decidable c] {refusal : Eval σ Unit} {rest : Unit → Eval σ α}
    (h : Keeps P n cs refusal) (hrest : Keeps P n cs (rest ())) :
    Keeps P n cs (if c then refusal >>= rest else rest ()) := ite (h.bind fun _ => hrest) hrest

/-- One of two effects, and what comes behind. -/
theorem either {c : Prop} [Decidable c] {act act' : Eval σ β} {rest : β → Eval σ α}
    (h : Keeps P n cs act) (h' : Keeps P n cs act') (hrest : ∀ a, Keeps P n cs (rest a)) :
    Keeps P n cs (if c then act >>= rest else act' >>= rest) := ite (h.bind hrest) (h'.bind hrest)

/-! ### Arguments -/

theorem refuseArgument (c : Call) (i : Nat) (reason : Text) :
    Keeps P 0 (none :: cs) (c.refuse i reason : Eval σ α) := ite (complain _) (complain _)

theorem any (c : Call) (i : Nat) : Keeps P 0 (none :: cs) (c.any i : Eval σ Value) := by
  unfold Call.any
  split
  · exact pure _
  · exact refuseArgument _ _ _

theorem table (c : Call) (i : Nat) : Keeps P 0 (none :: cs) (c.table i : Eval σ Nat) := by
  unfold Call.table
  split
  · exact pure _
  · exact refuseArgument _ _ _

theorem number (c : Call) (i : Nat) : Keeps P 0 (none :: cs) (c.number i : Eval σ Number) := by
  unfold Call.number
  split
  · exact pure _
  · exact refuseArgument _ _ _

theorem integer (c : Call) (i : Nat) : Keeps P 0 (none :: cs) (c.integer i : Eval σ Int) := by
  refine (number c i).bind fun k => ?_
  split
  · exact pure _
  · exact refuseArgument _ _ _

theorem bytes (c : Call) (i : Nat) : Keeps P 0 (none :: cs) (c.bytes i : Eval σ Bytes) := by
  unfold Call.bytes
  split
  · exact pure _
  · exact refuseArgument _ _ _

theorem optional (c : Call) (i : Nat) (absent : α) {read : Nat → Eval σ α}
    (h : Keeps P n cs (read i)) : Keeps P n cs (c.optional i absent read) := ite (pure _) h

/-! ### Numbers and strings -/

theorem truncatedMod (c : Call) :
    Keeps P 0 (none :: cs) (truncatedMod c : Eval σ Value) := by
  refine (number c 0).bind fun a => (number c 1).bind fun b => ?_
  split
  · exact otherwise (refuseArgument _ _ _) (pure _)
  · exact pure _

theorem callMath (f : MathFunction) (c : Call) :
    Keeps P 0 (none :: cs) (callMath f c : Eval σ (List Value)) := by
  have hbest (better : Number → Number → Bool) :
      Keeps P 0 (none :: cs) (bestNumber better c : Eval σ Value) :=
    (number c 0).bind fun _ => (mapM (fun _ => number c _) _).bind fun _ => pure _
  cases f with
  | abs =>
    refine (number c 0).bind fun k => ?_
    cases k <;> exact pure _
  | ceil | floor | sqrt => exact (number c 0).bind fun _ => pure _
  | fmod => exact (truncatedMod c).bind fun _ => pure _
  | max | min => exact (hbest _).bind fun _ => pure _
  | toInteger =>
    refine (any c 0).bind fun v => ?_
    split <;> exact pure _
  | type =>
    refine (any c 0).bind fun v => ?_
    split <;> exact pure _

theorem charByte (c : Call) (i : Nat) :
    Keeps P 0 (none :: cs) (charByte c i : Eval σ UInt8) :=
  (integer c i).bind fun _ => otherwise (refuseArgument _ _ _) (pure _)

theorem callString (f : StringFunction) (c : Call) :
    Keeps P 0 (none :: cs) (callString f c : Eval σ (List Value)) := by
  cases f with
  | byte =>
    exact (bytes c 0).bind fun _ => (optional c _ _ (integer c _)).bind fun _ =>
      (optional c _ _ (integer c _)).bind fun _ => pure _
  | char => exact (mapM (charByte c) _).bind fun _ => pure _
  | len | lower | reverse | upper => exact (bytes c 0).bind fun _ => pure _
  | repeated =>
    exact (bytes c 0).bind fun _ => (integer c _).bind fun _ =>
      (optional c _ _ (bytes c _)).bind fun _ => otherwise (complain _) (pure _)
  | sub =>
    exact (bytes c 0).bind fun _ => (integer c _).bind fun _ =>
      (optional c _ _ (integer c _)).bind fun _ => pure _

/-! ### Tables -/

section
variable {invoke : Invoke σ} (hinvoke : Invoke.Returns P invoke)
include hinvoke

theorem lengthOf (v : Value) : Keeps P 0 (none :: cs) (lengthOf invoke v) := by
  refine (length hinvoke _).bind fun v => ?_
  split
  · split
    · exact pure _
    · exact complain _
  · exact complain _

theorem valuesFrom (v : Value) (start : Int) (count : Nat) :
    Keeps P 0 cs (valuesFrom invoke v start count) := mapM (fun _ => index hinvoke _ _) _

omit hinvoke in
theorem piecesFrom (start : Int) (values : List Value) :
    Keeps P 0 (none :: cs) (piecesFrom start values : Eval σ (List Bytes)) := by
  induction values generalizing start with
  | nil => exact pure _
  | cons v values ih =>
    unfold Lua.piecesFrom
    split
    · exact (ih _).bind fun _ => pure _
    · exact complain _

theorem shiftUp (v : Value) (position : Int) (count : Nat) :
    Keeps P 0 cs (shiftUp invoke v position count) := by
  induction count with
  | zero => exact pure _
  | succ count ih =>
    exact (index hinvoke _ _).bind fun _ => (assign hinvoke _ _ _).bind fun _ => ih

theorem shiftDown (v : Value) (count : Nat) (position : Int) :
    Keeps P 0 cs (shiftDown invoke v count position) := by
  induction count generalizing position with
  | zero => exact pure _
  | succ count ih =>
    exact (index hinvoke _ _).bind fun _ => (assign hinvoke _ _ _).bind fun _ => ih _

theorem insertItem (c : Call) : Keeps P 0 (none :: cs) (insertItem invoke c) := by
  refine (table c 0).bind fun id => (lengthOf hinvoke _).bind fun size => ?_
  extract_lets last
  split
  · exact assign hinvoke _ _ _
  · refine (integer c 1).bind fun position => otherwise (refuseArgument _ _ _) ?_
    exact (shiftUp hinvoke _ _ _).bind fun _ => assign hinvoke _ _ _
  · exact complain _

theorem removeItem (c : Call) : Keeps P 0 (none :: cs) (removeItem invoke c) := by
  refine (table c 0).bind fun id => (lengthOf hinvoke _).bind fun size => ?_
  refine (optional c _ _ (integer c _)).bind fun position => otherwise (refuseArgument _ _ _) ?_
  exact (index hinvoke _ _).bind fun _ => (shiftDown hinvoke _ _ _).bind fun _ =>
    (assign hinvoke _ _ _).bind fun _ => pure _

theorem callTable (f : TableFunction) (c : Call) :
    Keeps P 0 (none :: cs) (callTable invoke f c) := by
  cases f with
  | concat =>
    refine (table c 0).bind fun id => (optional c _ _ (bytes c _)).bind fun separator =>
      (optional c _ _ (integer c _)).bind fun start => ?_
    refine either (lengthOf hinvoke _) (integer c _) fun stop => ?_
    exact (valuesFrom hinvoke _ _ _).bind fun _ => (piecesFrom _ _).bind fun _ => pure _
  | insert => exact (insertItem hinvoke c).bind fun _ => pure _
  | pack => exact (newTable _).bind fun _ => pure _
  | remove => exact (removeItem hinvoke c).bind fun _ => pure _
  | unpack =>
    refine (optional c _ _ (integer c _)).bind fun start => ?_
    refine either (lengthOf hinvoke _) (integer c _) fun stop => ?_
    exact otherwise (complain _) (valuesFrom hinvoke _ _ _)

/-! ### The core -/

omit hinvoke in
theorem raiseError (v : Value) (level : Int) :
    Keeps P 0 (none :: cs) (raiseError v level : Eval σ (List Value)) := by
  unfold Lua.raiseError
  split
  · exact ite (get.bind fun _ => throw _) (throw _)
  · exact throw _

/-- What a protected call raises is caught where the calls under way are known. -/
theorem protectedCall (f : Value) (arguments : List Value) :
    Keeps P 0 cs (protectedCall invoke f arguments) := by
  refine fun m hm => .get_bind (.tryCatch ?_ fun v m' hraised => ?_)
  · exact ((hinvoke _ _ _ _).bind fun _ => pure _) m hm
  · exact .modify_bind (.pure (hm.restore hraised.toIsSound))

omit hinvoke in
theorem protectedMetatable (v : Value) :
    Keeps P n cs (Call.protectedMetatable v : Eval σ (Option Value)) := by
  unfold Call.protectedMetatable
  split
  · exact (object _).bind fun _ => ite (pure _) ((metafield _ _).bind fun _ => pure _)
  · exact pure _

omit hinvoke in
theorem selectArguments (c : Call) :
    Keeps P 0 (none :: cs) (selectArguments c : Eval σ (List Value)) :=
  ite (pure _) ((integer c _).bind fun _ => ite (pure _) (ite (pure _) (ite (pure _)
    (refuseArgument _ _ _))))

theorem callCore (f : CoreFunction) (c : Call) : Keeps P 0 (none :: cs) (callCore invoke f c) := by
  cases f with
  | assert => exact (any c 0).bind fun _ => ite (pure _) (raiseError _ _)
  | error => exact (optional c _ _ (integer c _)).bind fun _ => raiseError _ _
  | type => exact (any c 0).bind fun _ => pure _
  | toString => exact (any c 0).bind fun _ => (display hinvoke _).bind fun _ => pure _
  | toNumber =>
    refine ite ((any c 0).bind fun _ => pure _) ((integer c 1).bind fun base => ?_)
    split
    · exact otherwise (refuseArgument _ _ _) (pure _)
    · exact refuseArgument _ _ _
  | ipairs => exact (any c 0).bind fun _ => pure _
  | ipairsStep => exact (integer c 1).bind fun _ => (index hinvoke _ _).bind fun _ => pure _
  | next =>
    refine (table c 0).bind fun id => (object _).bind fun o => ?_
    split
    · exact pure _
    · exact pure _
    · exact raise _
  | pairs =>
    refine (any c 0).bind fun v => (metafield _ _).bind fun h => ?_
    split
    · exact pure _
    · exact (hinvoke _ _ _ _).bind fun _ => pure _
  | pcall => exact (any c 0).bind fun _ => protectedCall hinvoke _ _
  | rawEqual => exact (any c 0).bind fun _ => (any c 1).bind fun _ => pure _
  | rawGet =>
    exact (table c 0).bind fun _ => (object _).bind fun _ => (any c 1).bind fun _ => pure _
  | rawSet =>
    exact (table c 0).bind fun _ => (any c 1).bind fun _ => (any c 2).bind fun _ =>
      (rawSet _ _ _).bind fun _ => pure _
  | rawLen =>
    unfold Lua.callCore
    dsimp only
    split
    · exact (object _).bind fun _ => pure _
    · exact pure _
    · exact refuseArgument _ _ _
  | select => exact selectArguments c
  | getMetatable =>
    unfold Lua.callCore
    dsimp only
    cases c.value 0 with
    | string _ => exact pure _
    | table id =>
      refine (protectedMetatable _).bind fun guard => (object _).bind fun o => ?_
      split <;> exact pure _
    | _ => exact (any c 0).bind fun _ => pure _
  | setMetatable =>
    refine (table c 0).bind fun id => ?_
    extract_lets change
    have hchange (metatable : Option Nat) : Keeps P 0 (none :: cs) (change metatable) :=
      (protectedMetatable _).bind fun _ => otherwise (complain _)
        ((changeObject _ _).bind fun _ => pure _)
    split
    · exact (pure _).bind hchange
    · exact (pure _).bind hchange
    · exact (refuseArgument _ _ _).bind hchange

/-! ### JSON -/

omit hinvoke in
mutual

theorem ofJson : ∀ j : Json, Keeps P n cs (ofJson j : Eval σ Value)
  | .null | .bool _ | .int _ | .float _ | .string _ => pure _
  | .array items => (ofItems items).bind fun _ => (newTable _).bind fun _ => pure _
  | .members entries => (ofMembers entries).bind fun _ => (newTable _).bind fun _ => pure _

theorem ofItems : ∀ items : List Json, Keeps P n cs (ofItems items : Eval σ (List Value))
  | [] => pure _
  | j :: items => (ofJson j).bind fun _ => (ofItems items).bind fun _ => pure _

theorem ofMembers : ∀ entries : List (Text × Json),
    Keeps P n cs (ofMembers entries : Eval σ (List (Value × Value)))
  | [] => pure _
  | (_, j) :: entries => (ofJson j).bind fun _ => (ofMembers entries).bind fun _ => pure _

end

/-! ### Templates -/

/-- A native function fails with what is raised in its course. -/
theorem guarded {act : Eval σ α} (h : Keeps P 0 (none :: cs) act) :
    Keeps P 0 (none :: cs) (guarded invoke act) := by
  refine fun m hm => .get_bind (.tryCatch (h m hm) fun v m' hraised => ?_)
  have hcause : Reaches P (causeOf invoke v) m' fun _ m'' => m''.IsPlaced P := by
    refine (Reaches.told hinvoke _ v hraised).bind fun told m'' hm'' => ?_
    split <;> exact .pure hm''.2
  exact hcause.bind fun cause m'' hm'' => .modify_bind (fail cause _ (hm.restore hm''.toIsSound))

omit hinvoke in
theorem exchanged (r : Except Mismatch α) : Keeps P 0 (none :: cs) (exchanged r : Eval σ α) := by
  unfold Lua.exchanged
  split
  · exact pure _
  · exact failWith _

omit hinvoke in
theorem requireText (label : Text) (v : Value) :
    Keeps P 0 (none :: cs) (requireText label v : Eval σ Text) := by
  unfold Lua.requireText
  split
  · exact pure _
  · exact failWith _

omit hinvoke in
theorem optionalText (v : Value) : Keeps P 0 (none :: cs) (optionalText v : Eval σ (Option Text)) :=
  ite (pure _) ((requireText _ _).bind fun _ => pure _)

theorem writeOptions (v : Value) : Keeps P 0 (none :: cs) (writeOptions invoke v) := by
  have hoption (name : Text) : Keeps P 0 (none :: cs)
      (Lua.guarded invoke (Lua.index invoke ⟨v, none⟩ (.ofText name))) :=
    guarded hinvoke (index hinvoke _ _)
  unfold Lua.writeOptions
  split
  · exact pure _
  · exact pure _
  · exact (hoption _).bind fun _ => (optionalText _).bind fun _ => (hoption _).bind fun _ =>
      (hoption _).bind fun _ => (optionalText _).bind fun _ => pure _
  · exact failWith _

theorem toText (v : Value) : Keeps P 0 (none :: cs) (toText invoke v) := by
  unfold Lua.toText
  split
  · exact pure _
  · exact get.bind fun _ => (exchanged _).bind fun _ => pure _
  · refine (object _).bind fun o => ite ?_ (failWith _)
    exact (guarded hinvoke (hinvoke _ _ _ _)).bind fun _ => requireText _ _

theorem printWith (ofCall : Text) (arguments : List Value) :
    Keeps P 0 (none :: cs) (printWith invoke ofCall arguments) := by
  unfold Lua.printWith
  extract_lets after
  have hafter (t : Text) : Keeps P 0 (none :: cs) (after t) :=
    (writeOptions hinvoke _).bind fun _ => write _
  split
  · exact (pure _).bind hafter
  · exact (toText hinvoke _).bind hafter

theorem includeWith (context : Context σ) (ofCall path : Text) (scope options : Value) :
    Keeps P 0 (none :: cs) (includeWith invoke context ofCall path scope options) := by
  unfold Lua.includeWith
  extract_lets after
  have hafter (scope : Scope) : Keeps P 0 (none :: cs) (after scope) := by
    refine (writeOptions hinvoke _).bind fun options => (lift _).bind fun rendered => ?_
    split
    · exact write _
    · exact fail _
  exact ite ((pure _).bind hafter) (get.bind fun _ => (exchanged _).bind hafter)

theorem callTemplate (context : Context σ) (f : TemplateFunction) (c : Call) :
    Keeps P 0 (none :: cs) (callTemplate invoke context f c) := by
  cases f with
  | print => exact (printWith hinvoke _ _).bind fun _ => pure _
  | printIndented =>
    exact (requireText _ _).bind fun _ => (printWith hinvoke _ _).bind fun _ => pure _
  | includeFile =>
    exact (requireText _ _).bind fun _ => (includeWith hinvoke _ _ _ _ _).bind fun _ => pure _
  | includeIndented =>
    exact (requireText _ _).bind fun _ => (requireText _ _).bind fun _ =>
      (includeWith hinvoke _ _ _ _ _).bind fun _ => pure _
  | str => exact (toText hinvoke _).bind fun _ => pure _
  | len =>
    unfold Lua.callTemplate
    dsimp only
    split
    · exact pure _
    · exact (object _).bind fun _ => pure _
    · exact failWith _
  | json => exact get.bind fun _ => (exchanged _).bind fun _ => pure _
  | locals => exact (ofJson _).bind fun _ => pure _

omit hinvoke in
theorem callHost (context : Context σ) (name : Text) (c : Call) :
    Keeps P 0 (none :: cs) (callHost context name c) := by
  refine get.bind fun m => (exchanged _).bind fun arguments => ?_
  split
  · exact pure _
  · split
    · exact (ofJson _).bind fun _ => pure _
    · exact failWith _

/-- **Native functions come back**, or raise something that is none of the script's lines. -/
theorem callNative (context : Context σ) (f : Native) (c : Call) :
    Keeps P 0 (none :: cs) (callNative invoke context f c) := by
  cases f with
  | core f => exact callCore hinvoke f c
  | string f => exact callString f c
  | table f => exact callTable hinvoke f c
  | math f => exact callMath f c
  | template f => exact callTemplate hinvoke context f c
  | host name => exact callHost context name c

end

/-! ### The first tables -/

theorem installLanguage : Keeps P n cs (installLanguage : Eval σ Unit) := by
  have hset (name : Text) (v : Value) : Keeps P n cs (setGlobal name v : Eval σ Unit) :=
    changeObject _ _
  refine (newTable _).bind fun _ => (newTable _).bind fun _ => (newTable _).bind fun _ => ?_
  refine (changeObject _ _).bind fun _ => (pure _).bind fun strings => ?_
  refine (newTable _).bind fun _ => (newTable _).bind fun _ => (newTable _).bind fun _ => ?_
  exact (hset _ _).bind fun _ => (hset _ _).bind fun _ => (hset _ _).bind fun _ =>
    (hset _ _).bind fun _ => (hset _ _).bind fun _ => hset _ _

theorem installTemplate (context : Context σ) : Keeps P n cs (installTemplate context) := by
  have hset (o : Object) : Keeps P n cs (setGlobals o : Eval σ Unit) :=
    forM (fun _ => changeObject _ _) _
  refine (forM (fun _ => ?_) _).bind fun _ => (hset _).bind fun _ => hset _
  exact (ofJson _).bind fun _ => changeObject _ _

end Stencil.Lua.Keeps
