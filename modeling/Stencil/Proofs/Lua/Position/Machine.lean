import Stencil.Lua.Operation
import Stencil.Proofs.Lua.Position.Syntax

/-! The lines that functions are at.

A function is called from a line, and what it raises is told with the line that it is at. `P` says
which lines there are in which chunk. On a machine in order every function that is under way is at a
line of its chunk (`Machine.IsPlaced`), and so was every function that was under way in a failure; a
function that has only been entered is not at a line yet (`Placed`), but before it raises anything
it is.

`Reaches` says what holds where an effect ends, unless it has raised something. An effect that comes
back to the calls that were under way `Keeps` them; there is one lemma for each operation. -/
namespace Stencil.Lua

variable {σ α β : Type} {P : Text → Nat → Prop} {n : Nat} {cs : List (Option Text)}
  {m m' : Machine}

/-! ### Machines -/

/-- The function is at a line of its chunk. -/
def Frame.IsPlaced (P : Text → Nat → Prop) (f : Frame) : Prop :=
  ∀ chunk ∈ f.chunk, P chunk f.line

/-- The function was at a line of its chunk. -/
def Level.IsPlaced (P : Text → Nat → Prop) (l : Level) : Prop :=
  ∀ p ∈ l.place, P p.chunk p.line

theorem Frame.IsPlaced.level {f : Frame} (h : f.IsPlaced P) (name : Text) :
    Level.IsPlaced P ⟨f.place, name⟩ := by
  intro p hp
  obtain ⟨chunk, hchunk, rfl⟩ := Option.map_eq_some_iff.1 hp
  exact h chunk hchunk

/-- The functions are on lines of their chunks, and so is what was under way in a failure. -/
structure Machine.IsSound (P : Text → Nat → Prop) (m : Machine) : Prop where
  closures : ∀ c ∈ m.closures, c.body.IsOn (P c.env.chunk)
  failures : ∀ f ∈ m.failures, ∀ call ∈ f.calls, call.IsPlaced P

/-- Every function that is under way is at a line. -/
structure Machine.IsPlaced (P : Text → Nat → Prop) (m : Machine) : Prop
    extends m.IsSound P where
  frames : ∀ f ∈ m.frames, f.IsPlaced P

/-- Functions of the chunks `cs` are under way, and each is at a line but perhaps the `n`
innermost. -/
structure Placed (P : Text → Nat → Prop) (n : Nat) (cs : List (Option Text)) (m : Machine) : Prop
    extends m.IsSound P where
  chunks : m.frames.map Frame.chunk = cs
  frames : ∀ f ∈ m.frames.drop n, f.IsPlaced P

theorem Machine.IsSound.of_eq (h : m.IsSound P) (hclosures : m'.closures = m.closures)
    (hfailures : m'.failures = m.failures) : m'.IsSound P :=
  ⟨hclosures ▸ h.closures, hfailures ▸ h.failures⟩

namespace Placed

/-- A machine with the same calls under way. -/
theorem of_frames (h : Placed P n cs m) (hsound : m'.IsSound P) (hframes : m'.frames = m.frames) :
    Placed P n cs m' := ⟨hsound, hframes ▸ h.chunks, hframes ▸ h.frames⟩

theorem mono {n' : Nat} (h : Placed P n cs m) (hle : n ≤ n') : Placed P n' cs m :=
  ⟨h.toIsSound, h.chunks, fun f hf => h.frames f ((List.drop_subset_drop_left _ hle) hf)⟩

/-- A function has been called. -/
theorem enter (h : Placed P 0 cs m) (f : Frame) :
    Placed P 1 (f.chunk :: cs) { m with frames := f :: m.frames } :=
  ⟨h.toIsSound.of_eq rfl rfl, congrArg (f.chunk :: ·) h.chunks, h.frames⟩

/-- A native function is on no line. -/
theorem enter_native (h : Placed P 0 cs m) (f : Value) (naming : Option Naming) :
    Placed P 0 (none :: cs) { m with frames := ⟨none, 0, f, naming⟩ :: m.frames } :=
  ⟨h.toIsSound.of_eq rfl rfl, congrArg (none :: ·) h.chunks,
    List.forall_mem_cons.2 ⟨nofun, h.frames⟩⟩

/-- The innermost call has come to its end. -/
theorem leave {c : Option Text} (h : Placed P 1 (c :: cs) m) :
    Placed P 0 cs { m with frames := m.frames.drop 1 } :=
  ⟨h.toIsSound.of_eq rfl rfl, by rw [List.map_drop, h.chunks]; rfl, h.frames⟩

/-- The innermost function has come to a line. -/
theorem atLine {c : Text} {line : Nat} (h : Placed P 1 (some c :: cs) m) (hline : P c line) :
    Placed P 0 (some c :: cs) (m.atLine line) := by
  obtain ⟨hsound, hchunks, hframes⟩ := h
  obtain ⟨f, rest, hm, hchunk, hrest⟩ := List.map_eq_cons_iff.1 hchunks
  rw [hm] at hframes
  have hf : Frame.IsPlaced P { f with line } := by
    intro chunk hc
    obtain rfl : c = chunk := Option.some.inj (hchunk.symm.trans hc)
    exact hline
  unfold Machine.atLine
  rw [hm]
  refine ⟨hsound.of_eq rfl rfl, ?_, List.forall_mem_cons.2 ⟨hf, hframes⟩⟩
  rw [List.map_cons, hchunk, hrest]

/-- Calls that were under way before are under way again. -/
theorem restore (h : Placed P n cs m) (hsound : m'.IsSound P) :
    Placed P n cs { m' with frames := m.frames } :=
  h.of_frames (hsound.of_eq rfl rfl) rfl

theorem isPlaced (h : Placed P 0 cs m) : m.IsPlaced P := ⟨h.toIsSound, h.frames⟩

end Placed

/-- The calls that are under way when something is raised. -/
theorem Machine.IsPlaced.placed (h : m.IsPlaced P) : Placed P 0 (m.frames.map Frame.chunk) m :=
  ⟨h.toIsSound, rfl, h.frames⟩

theorem Machine.IsPlaced.calls (h : m.IsPlaced P) : ∀ call ∈ m.calls, call.IsPlaced P :=
  List.forall_mem_map.2 fun f hf => (h.frames f hf).level _

/-! ### Effects -/

/-- Wherever an effect ends there is what `Q` says, or something has been raised. -/
def Reaches (P : Text → Nat → Prop) (act : Eval σ α) (m : Machine)
    (Q : α → Machine → Prop) : Prop :=
  ∀ world, match ((act.run.run m).run world).1 with
    | (.ok a, m') => Q a m'
    | (.error _, m') => m'.IsPlaced P

namespace Reaches

variable {act : Eval σ α} {Q Q' : α → Machine → Prop} {R : β → Machine → Prop}

theorem pure {a : α} (h : Q a m) : Reaches P (pure a : Eval σ α) m Q := fun _ => h

theorem get_bind {f : Machine → Eval σ β} (h : Reaches P (f m) m R) :
    Reaches P (get >>= f) m R := fun world => h world

/-- What comes behind a change goes on from the changed machine. -/
theorem modify_bind {change : Machine → Machine} {f : Unit → Eval σ β}
    (h : Reaches P (f ()) (change m) R) : Reaches P (modify change >>= f) m R := fun world => h world

theorem throw {v : Value} (h : m.IsPlaced P) : Reaches P (throw v : Eval σ α) m Q := fun _ => h

theorem bind {f : α → Eval σ β} (h : Reaches P act m Q)
    (hf : ∀ a m', Q a m' → Reaches P (f a) m' R) : Reaches P (act >>= f) m R := by
  intro world
  have hact := h world
  rw [ExceptT.run_bind, StateT.run_bind, StateT.run_bind]
  generalize (act.run.run m).run world = ended at hact ⊢
  obtain ⟨⟨result, m'⟩, world'⟩ := ended
  cases result with
  | ok a => exact hf a m' hact world'
  | error v => exact hact

theorem imp (h : Reaches P act m Q) (hQ : ∀ a m', Q a m' → Q' a m') :
    Reaches P act m Q' := by
  intro world
  have hact := h world
  generalize (act.run.run m).run world = ended at hact ⊢
  obtain ⟨⟨result, m'⟩, world'⟩ := ended
  cases result with
  | ok a => exact hQ a m' hact
  | error v => exact hact

theorem tryCatch {handle : Value → Eval σ α} (h : Reaches P act m Q)
    (hhandle : ∀ v m', m'.IsPlaced P → Reaches P (handle v) m' Q) :
    Reaches P (tryCatch act handle) m Q := by
  intro world
  have hact := h world
  rw [ExceptT.run_tryCatch, StateT.run_bind, StateT.run_bind]
  generalize (act.run.run m).run world = ended at hact ⊢
  obtain ⟨⟨result, m'⟩, world'⟩ := ended
  cases result with
  | ok a => exact hact
  | error v => exact hhandle v m' hact world'

theorem ite {c : Prop} [Decidable c] {act' : Eval σ α} (h : c → Reaches P act m Q)
    (h' : ¬c → Reaches P act' m Q) : Reaches P (if c then act else act') m Q := by
  split
  · next hc => exact h hc
  · next hc => exact h' hc

end Reaches

/-! ### What comes back to the calls under way -/

/-- The effect comes back to the calls that were under way, each still at a line. -/
def Keeps (P : Text → Nat → Prop) (n : Nat) (cs : List (Option Text)) (act : Eval σ α) : Prop :=
  ∀ m, Placed P n cs m → Reaches P act m fun _ => Placed P n cs

/-- Calls come back to what was under way. -/
def Invoke.Returns (P : Text → Nat → Prop) (invoke : Invoke σ) : Prop :=
  ∀ cs f arguments naming, Keeps P 0 cs (invoke f arguments naming)

namespace Keeps

variable {act : Eval σ α}

theorem pure (a : α) : Keeps P n cs (pure a : Eval σ α) := fun _ hm => .pure hm

theorem get : Keeps P n cs (get : Eval σ Machine) := fun _ hm _ => hm

theorem bind {f : α → Eval σ β} (h : Keeps P n cs act) (hf : ∀ a, Keeps P n cs (f a)) :
    Keeps P n cs (act >>= f) := fun m hm => (h m hm).bind fun a m' => hf a m'

theorem ite {c : Prop} [Decidable c] {act' : Eval σ α} (h : Keeps P n cs act)
    (h' : Keeps P n cs act') : Keeps P n cs (if c then act else act') :=
  fun m hm => .ite (fun _ => h m hm) fun _ => h' m hm

/-- The innermost function comes to a line before it does something. -/
theorem atLine {c : Text} {line : Nat} (hline : P c line) (h : Keeps P 0 (some c :: cs) act) :
    Keeps P 1 (some c :: cs) (do Eval.atLine line; act) := fun _ hm =>
  .modify_bind ((h _ (hm.atLine hline)).imp fun _ _ h => h.mono (Nat.zero_le 1))

/-! ### Errors -/

theorem throw (v : Value) : Keeps P 0 cs (throw v : Eval σ α) := fun _ hm => .throw hm.isPlaced

theorem raise (message : Text) : Keeps P 0 cs (Eval.raise message : Eval σ α) :=
  get.bind fun _ => throw _

theorem complain (message : Text) : Keeps P 0 cs (Eval.complain message : Eval σ α) :=
  get.bind fun _ => throw _

theorem fail (cause : FailureCause) : Keeps P 0 cs (Eval.fail cause : Eval σ α) := by
  intro m hm
  have hm' : Placed P 0 cs { m with failures := m.failures.push ⟨m.calls, cause⟩ } := by
    refine hm.of_frames ⟨hm.closures, fun f hf => ?_⟩ rfl
    rcases Array.mem_push.1 hf with hf | rfl
    · exact hm.failures f hf
    · exact hm.isPlaced.calls
  exact .bind (Q := fun _ => Placed P 0 cs) (fun _ => hm') fun _ m' hm' => throw _ m' hm'

theorem failure (id : Nat) : Keeps P n cs (Eval.failure id : Eval σ NativeFailure) :=
  get.bind fun _ => pure _

theorem failWith (message : Text) : Keeps P 0 cs (Eval.failWith message : Eval σ α) := fail _

/-! ### Variables, tables and functions -/

/-- A change to what is not a function, a failure or a call. -/
theorem modifyGet {f : Machine → α × Machine} (hclosures : ∀ m, (f m).2.closures = m.closures)
    (hfailures : ∀ m, (f m).2.failures = m.failures) (hframes : ∀ m, (f m).2.frames = m.frames) :
    Keeps P n cs (modifyGet f : Eval σ α) := fun m hm _ =>
  hm.of_frames ⟨hclosures m ▸ hm.closures, hfailures m ▸ hm.failures⟩ (hframes m)

theorem newCell (v : Value) : Keeps P n cs (Eval.newCell v : Eval σ Nat) :=
  modifyGet (fun _ => rfl) (fun _ => rfl) fun _ => rfl

theorem readCell (id : Nat) : Keeps P n cs (Eval.readCell id : Eval σ Value) :=
  get.bind fun _ => pure _

theorem writeCell (id : Nat) (v : Value) : Keeps P n cs (Eval.writeCell id v : Eval σ Unit) :=
  modifyGet (fun _ => rfl) (fun _ => rfl) fun _ => rfl

theorem newTable (o : Object) : Keeps P n cs (Eval.newTable o : Eval σ Nat) :=
  modifyGet (fun _ => rfl) (fun _ => rfl) fun _ => rfl

theorem object (id : Nat) : Keeps P n cs (Eval.object id : Eval σ Object) :=
  get.bind fun _ => pure _

theorem changeObject (id : Nat) (f : Object → Object) :
    Keeps P n cs (Eval.changeObject id f : Eval σ Unit) :=
  modifyGet (fun _ => rfl) (fun _ => rfl) fun _ => rfl

theorem write (t : Text) : Keeps P n cs (Eval.write t : Eval σ Unit) :=
  modifyGet (fun _ => rfl) (fun _ => rfl) fun _ => rfl

theorem newClosure {c : Closure} (hc : c.body.IsOn (P c.env.chunk)) :
    Keeps P n cs (Eval.newClosure c : Eval σ Nat) := fun m hm _ =>
  have hclosures : ∀ c' ∈ m.closures.push c, c'.body.IsOn (P c'.env.chunk) := by
    intro c' hc'
    rcases Array.mem_push.1 hc' with hc' | rfl
    · exact hm.closures c' hc'
    · exact hc
  hm.of_frames ⟨hclosures, hm.failures⟩ rfl

/-! ### Metatables -/

theorem metafield (v : Value) (event : Text) :
    Keeps P n cs (metafield v event : Eval σ Value) := by
  unfold Lua.metafield
  split
  · refine (object _).bind fun o => ?_
    split
    · exact (object _).bind fun _ => pure _
    · exact pure _
  · exact (object _).bind fun _ => pure _
  · exact pure _

theorem binaryMetafield (a b : Value) (event : Text) :
    Keeps P n cs (binaryMetafield a b event : Eval σ Value) :=
  (metafield a event).bind fun _ => ite (metafield b event) (pure _)

theorem refuse (action : Text) (a : Operand) : Keeps P 0 cs (refuse action a : Eval σ α) := raise _

/-! ### Indices -/

section
variable {invoke : Invoke σ} (hinvoke : Invoke.Returns P invoke)
include hinvoke

/-- The first result of a call. -/
theorem called (f : Value) (arguments : List Value) :
    Keeps P 0 cs (do return first (← invoke f arguments none) : Eval σ Value) :=
  (hinvoke cs f arguments none).bind fun _ => pure _

theorem indexIn (a : Operand) (key : Value) (fuel : Nat) :
    Keeps P 0 cs (indexIn invoke a key fuel) := by
  induction fuel generalizing a with
  | zero => exact raise _
  | succ fuel ih =>
    unfold Lua.indexIn
    extract_lets after
    have hafter (own : Option Value) : Keeps P 0 cs (after own) := by
      dsimp -zeta only [after]
      extract_lets ask
      have hask : Keeps P 0 cs (ask ()) := by
        refine (metafield _ _).bind fun h => ?_
        split
        · exact pure _
        · exact refuse _ _
        · exact ite (called hinvoke _ _) (ih _)
      split
      · exact ite (pure _) hask
      · exact hask
    split
    · exact (object _).bind fun _ => (pure _).bind hafter
    · exact (pure _).bind hafter

theorem index (a : Operand) (key : Value) : Keeps P 0 cs (index invoke a key) :=
  indexIn hinvoke a key _

omit hinvoke in
theorem rawSet (id : Nat) (key v : Value) : Keeps P 0 cs (rawSet id key v : Eval σ Unit) :=
  ite (raise _) (ite (raise _) (changeObject _ _))

theorem assignIn (a : Operand) (key v : Value) (fuel : Nat) :
    Keeps P 0 cs (assignIn invoke a key v fuel) := by
  induction fuel generalizing a with
  | zero => exact raise _
  | succ fuel ih =>
    unfold Lua.assignIn
    extract_lets after
    have hafter (own : Option (Nat × Value)) : Keeps P 0 cs (after own) := by
      dsimp -zeta only [after]
      extract_lets ask
      have hask : Keeps P 0 cs (ask ()) := by
        refine (metafield _ _).bind fun h => ?_
        split
        · exact rawSet _ _ _
        · exact refuse _ _
        · exact ite ((hinvoke _ _ _ _).bind fun _ => pure _) (ih _)
      split
      · exact ite (rawSet _ _ _) hask
      · exact hask
    split
    · exact (object _).bind fun _ => (pure _).bind hafter
    · exact (pure _).bind hafter

theorem assign (a : Operand) (key v : Value) : Keeps P 0 cs (assign invoke a key v) :=
  assignIn hinvoke a key v _

/-! ### Arithmetic -/

omit hinvoke in
theorem numeric (result : Except Number.Failure Number) (culprit : Operand) :
    Keeps P 0 cs (numeric result culprit : Eval σ Value) := by
  unfold Lua.numeric
  split
  · exact pure _
  · exact raise _
  · exact raise _

theorem arith (op : Number.Operation) (a b : Operand) : Keeps P 0 cs (arith invoke op a b) := by
  unfold Lua.arith
  split
  · exact numeric _ _
  · refine (binaryMetafield _ _ _).bind fun h => ?_
    split
    · exact refuse _ _
    · exact called hinvoke _ _

theorem unaryArith (isBitwise : Bool) (event : Text) (f : Number → Except Number.Failure Number)
    (a : Operand) : Keeps P 0 cs (unaryArith invoke isBitwise event f a) := by
  unfold Lua.unaryArith
  split
  · exact numeric _ _
  · refine (metafield _ _).bind fun h => ?_
    split
    · exact refuse _ _
    · exact called hinvoke _ _

/-! ### Strings and lengths -/

theorem concat (a b : Operand) : Keeps P 0 cs (concat invoke a b) := by
  unfold Lua.concat
  split
  · exact pure _
  · refine (binaryMetafield _ _ _).bind fun h => ?_
    split
    · exact refuse _ _
    · exact called hinvoke _ _

theorem length (a : Operand) : Keeps P 0 cs (length invoke a) := by
  unfold Lua.length
  split
  · exact pure _
  · refine (metafield _ _).bind fun h => ?_
    split
    · exact (object _).bind fun _ => pure _
    · exact refuse _ _
    · exact called hinvoke _ _

/-! ### Comparison -/

theorem equal (a b : Value) : Keeps P 0 cs (equal invoke a b) := by
  refine ite (pure _) ?_
  split
  · refine (binaryMetafield _ _ _).bind fun h => ?_
    split
    · exact pure _
    · exact (hinvoke _ _ _ _).bind fun _ => pure _
  · exact pure _

omit hinvoke in
theorem refuseComparison (a b : Value) : Keeps P 0 cs (refuseComparison a b : Eval σ α) :=
  ite (raise _) (raise _)

theorem ordered (event : Text) (numbers : Number → Number → Bool) (strings : Bytes → Bytes → Bool)
    (a b : Value) : Keeps P 0 cs (ordered invoke event numbers strings a b) := by
  unfold Lua.ordered
  split
  · exact pure _
  · exact pure _
  · refine (binaryMetafield _ _ _).bind fun h => ?_
    split
    · exact refuseComparison _ _
    · exact (hinvoke _ _ _ _).bind fun _ => pure _

theorem compare (c : Comparison) (a b : Value) : Keeps P 0 cs (compare invoke c a b) := by
  cases c with
  | equal => exact equal hinvoke _ _
  | notEqual => exact (equal hinvoke _ _).bind fun _ => pure _
  | less | lessEqual | greater | greaterEqual => exact ordered hinvoke _ _ _ _ _

/-! ### Texts -/

theorem display (v : Value) : Keeps P 0 (none :: cs) (display invoke v) := by
  unfold Lua.display
  refine (metafield _ _).bind fun h => ?_
  split
  · split
    case h_8 => exact (failure _).bind fun _ => pure _
    all_goals exact pure _
  · refine (hinvoke _ _ _ _).bind fun values => ?_
    split
    · exact pure _
    · exact pure _
    · exact complain _

end
end Keeps

/-- What is told of a raised value can be a failure that has been placed before. -/
def TellsPlaced (P : Text → Nat → Prop) : NativeFailure ⊕ Text → Prop
  | .inl f => ∀ call ∈ f.calls, call.IsPlaced P
  | .inr _ => True

/-- Telling what has been raised comes back to no calls, but leaves those that are under way where
they were. -/
theorem Reaches.told {invoke : Invoke σ} (hinvoke : Invoke.Returns P invoke) (fuel : Nat) (v : Value)
    (h : m.IsPlaced P) :
    Reaches P (told invoke fuel v) m fun told m' => TellsPlaced P told ∧ m'.IsPlaced P := by
  have hfailure (id : Nat) {m : Machine} (h : m.IsPlaced P) :
      Reaches P (do return .inl (← Eval.failure id) : Eval σ (NativeFailure ⊕ Text)) m
        fun told m' => TellsPlaced P told ∧ m'.IsPlaced P := by
    refine .get_bind (.pure ⟨?_, h⟩)
    cases hid : m.failures[id]? with
    | none => exact nofun
    | some f => exact h.failures f (Array.mem_of_getElem? hid)
  induction fuel generalizing v m with
  | zero =>
    unfold Lua.told
    split
    · exact hfailure _ h
    · exact .pure ⟨trivial, h⟩
    · contradiction
  | succ fuel ih =>
    unfold Lua.told
    split
    · exact hfailure _ h
    · contradiction
    · next heq _ =>
      obtain rfl := Nat.succ.inj heq
      refine .modify_bind (.tryCatch ?_ fun v m' => ih v)
      exact (Keeps.display hinvoke _ _ (h.placed.enter_native .nil none)).bind fun _ m' hm' =>
        .pure ⟨trivial, hm'.isPlaced⟩

end Stencil.Lua
