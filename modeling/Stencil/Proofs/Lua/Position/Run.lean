import Stencil.Lua.Run
import Stencil.Proofs.Lua.Position.Evaluation
import Stencil.Proofs.Lua.Position.Library
import Stencil.Proofs.Lua.Position.Message
import Stencil.Proofs.Lua.Position.Token

/-! Where a script is when it fails.

An engine reports places that are on lines of the code (`Engine.TellsPlaces`). The interpreter does:
calls come back to the calls under way at any depth (`Invoke.Returns.invoke`), so while a script runs
each of its functions is at a line of it, and so is each that is reported when something is raised
(`interpreter_tellsPlaces`). -/
namespace Stencil.Lua

variable {σ : Type} {P : Text → Nat → Prop} {cs : List (Option Text)} {m : Machine}
  {context : Context σ}

/-! ### Calls -/

/-- A native function in a frame of its own. -/
theorem Keeps.framed {α : Type} {act : Eval σ α} (h : Keeps P 0 (none :: cs) act) (f : Value)
    (naming : Option Naming) : Keeps P 0 cs (framed ⟨none, 0, f, naming⟩ act) := fun _ hm =>
  .modify_bind ((h _ (hm.enter_native f naming)).bind fun _ _ hm' =>
    .modify_bind (.pure (hm'.mono (Nat.zero_le 1)).leave))

/-- The end of a call of a function of a script. -/
theorem Reaches.leave {α : Type} {c : Text} (a : α) (hm : Placed P 1 (some c :: cs) m) :
    Reaches P (do Eval.leave; return a : Eval σ α) m fun _ => Placed P 0 cs :=
  .modify_bind (.pure hm.leave)

section
variable {invoke : Invoke σ} (hinvoke : Invoke.Returns P invoke)
include hinvoke

theorem Keeps.step (context : Context σ) (p : PendingCall) :
    Keeps P 0 cs (step invoke context p) := by
  unfold Lua.step
  split
  · exact (framed (callNative hinvoke _ _ _) _ _).bind fun _ => pure _
  · refine fun m hm => .get_bind ?_
    split
    · exact .pure hm
    · next id _ c hc =>
      have hentered := hm.enter ⟨some c.env.chunk, 0, p.function, p.naming⟩
      have hbody : Leaves P (some c.env.chunk :: cs) 1 Control.fresh
          (execFunction invoke c p.arguments) :=
        .execFunction hinvoke (hm.closures c (Array.mem_of_getElem? hc)) p.arguments
      refine .modify_bind ((hbody _ hentered).bind fun control m' hm' => ?_)
      cases control with
      | tail f arguments naming =>
        -- the call is made from a line, in whose place a function of the script goes on
        have hcall : Reaches P (do
            let values ← invoke f arguments naming
            Eval.leave
            return .inr values : Eval σ (PendingCall ⊕ List Value)) m' fun _ => Placed P 0 cs :=
          (hinvoke _ f arguments naming m' hm').bind fun _ _ hm'' => .leave _ (hm''.mono (Nat.zero_le 1))
        cases f with
        | closure id => exact .leave _ (hm'.mono (Nat.zero_le 1))
        | _ => exact hcall
      | result values => exact .leave _ hm'
      | proceed | leaveLoop => exact .leave _ hm'
  · refine (metafield _ _).bind fun h => ?_
    split
    · exact refuse _ _
    · exact (hinvoke _ _ _ _).bind fun _ => pure _

theorem Keeps.complete (context : Context σ) (rounds : Nat) (p : PendingCall) :
    Keeps P 0 cs (complete invoke context rounds p) := by
  induction rounds generalizing p with
  | zero => exact pure _
  | succ rounds ih =>
    refine (step hinvoke context p).bind fun r => ?_
    split
    · exact ih _
    · exact pure _

end

/-- Calls come back, however deep they are. -/
theorem Invoke.Returns.invoke (context : Context σ) (depth : Nat) :
    Invoke.Returns P (invoke context depth) := by
  induction depth with
  | zero => exact fun _ _ _ _ => .raise _
  | succ depth ih => exact fun _ _ _ _ => .complete ih context _ _

/-! ### Scripts -/

/-- A script can be run that is on lines of its chunk. -/
theorem Keeps.runChunk (context : Context σ) {name : Text} {body : List Statement}
    (hbody : Statement.AreOn (P name) body) (arguments : List Value) :
    Keeps P 0 cs (runChunk context name body arguments) := by
  have hload : Keeps P 0 cs (loadChunk name body : Eval σ Value) :=
    (newCell _).bind fun cell => (newClosure (c := ⟨.mk [] true body 0,
      ⟨name, [], [(globalsName, cell)], []⟩⟩) hbody).bind fun _ => pure _
  exact hload.bind fun _ => (Invoke.Returns.invoke context maxDepth _ _ _ _).bind fun _ => pure _

/-- What comes before a script is on lines of a chunk of its own. -/
theorem Keeps.prepare (context : Context σ) (hstrict : ∀ line, P strictName line) :
    Keeps P 0 cs (prepare context) := by
  have hbody : IsParsedOn (P strictName) (parse strictGlobals) :=
    parse_isOn (hstrict 1) fun l _ => hstrict l.line
  unfold Lua.prepare
  generalize parse strictGlobals = read at hbody ⊢
  refine installLanguage.bind fun _ => (installTemplate context).bind fun _ =>
    (newTable _).bind fun _ => ?_
  cases hbody with
  | ok h => exact runChunk context h _
  | error _ => exact pure _

/-! ### Reports -/

theorem ParseError.placed_report {e : ParseError} (h : P scriptName e.line) :
    ∀ p ∈ e.report.places, P p.chunk p.line := by
  unfold report
  split
  · exact nofun
  · exact List.forall_mem_singleton.2 h

theorem Level.IsPlaced.filterMap {calls : List Level} (h : ∀ call ∈ calls, call.IsPlaced P) :
    ∀ p ∈ calls.filterMap Level.place, P p.chunk p.line := by
  intro p hp
  obtain ⟨call, hcall, hplace⟩ := List.mem_filterMap.1 hp
  exact h call hcall p hplace

/-- A message is reported at the place of a call. -/
theorem placed_ofMessage {calls : List Level} (h : ∀ call ∈ calls, call.IsPlaced P)
    (message : Text) : ∀ p ∈ (Report.ofMessage calls message).places, P p.chunk p.line := by
  have hcalls := Level.IsPlaced.filterMap h
  unfold Report.ofMessage
  split
  · next place rest hplaced =>
    refine List.forall_mem_cons.2 ⟨?_, hcalls⟩
    obtain ⟨call, hcall, hfound⟩ := List.exists_of_findSome?_eq_some hplaced
    obtain ⟨p, hp, hrest⟩ := Option.bind_eq_some_iff.1 hfound
    obtain ⟨_, -, hpair⟩ := Option.bind_eq_some_iff.1 hrest
    obtain rfl := (Prod.mk.inj (Option.some.inj hpair)).1
    exact h call hcall p hp
  · exact hcalls

theorem runScript_reaches (context : Context σ) {code : Text} (hstrict : ∀ line, P strictName line)
    (hparse : IsParsedOn (P scriptName) (parse code)) :
    Reaches P (runScript context code) {} fun report _ =>
      ∀ r ∈ report, ∀ p ∈ r.places, P p.chunk p.line := by
  have hstart : Placed P 0 [] {} := ⟨⟨nofun, nofun⟩, rfl, nofun⟩
  refine (Keeps.prepare context hstrict {} hstart).bind fun _ m hm => ?_
  generalize parse code = read at hparse
  cases hparse with
  | ok h => exact (Keeps.runChunk context h _ m hm).bind fun _ _ _ => .pure nofun
  | error h =>
    refine .pure ?_
    rintro _ ⟨⟩
    exact ParseError.placed_report h

theorem reportOf_reaches (context : Context σ) (v : Value) (h : m.IsPlaced P) :
    Reaches P (reportOf context v) m fun r _ => ∀ p ∈ r.places, P p.chunk p.line := by
  refine .get_bind ((Reaches.told (.invoke context maxDepth) _ v h).bind fun told m' htold => ?_)
  cases told with
  | inl f => exact .pure (Level.IsPlaced.filterMap htold.1)
  | inr message => exact .pure (placed_ofMessage h.calls message)

/-- **A script fails on a line of its own**: the complaint about a script that cannot be read is on
a line of it, and each function of it that is under way when something is raised is at one. -/
theorem runCode_reaches (context : Context σ) {code : Text} (hstrict : ∀ line, P strictName line)
    (hparse : IsParsedOn (P scriptName) (parse code)) :
    Reaches P (runCode context code) {} fun report _ =>
      ∀ r ∈ report, ∀ p ∈ r.places, P p.chunk p.line :=
  (runScript_reaches context hstrict hparse).tryCatch fun v _ hm =>
    (reportOf_reaches context v hm).bind fun _ _ h => .pure fun _ hr => Option.some.inj hr ▸ h

/-! ### Engines -/

/-- A line of some code; empty code has none. -/
structure IsLineOf (code : Text) (line : Nat) : Prop where
  nonempty : code ≠ []
  first : 1 ≤ line
  last : line ≤ breaks code + 1

/-- **What an implementation of the language owes**: a function that is under way, and a complaint
about a script that cannot be read, is on a line of the code that the engine was given, or in what
is run before it. -/
def Engine.TellsPlaces (E : Engine σ) : Prop :=
  ∀ (r : Request) (host : Host σ) (s : σ) (report : Report),
    ((E.run r host).run s).1 = .error report →
      ∀ p ∈ report.places, OnScript (IsLineOf r.code) p.chunk p.line

/-- A script is read on lines of its code. -/
theorem parse_isOn_lines (code : Text) :
    IsParsedOn (OnScript (IsLineOf code) scriptName) (parse code) := by
  by_cases hcode : code = []
  · rw [hcode, show parse [] = .ok [] from rfl]
    exact .ok trivial
  · refine parse_isOn (.inl ⟨rfl, hcode, Nat.le_refl 1, Nat.le_add_left 1 _⟩) fun l hl => ?_
    have hline := line_of_mem_tokens l hl
    exact .inl ⟨rfl, hcode, hline.1, Nat.add_comm 1 _ ▸ hline.2⟩

theorem interpreter_tellsPlaces : (interpreter : Engine σ).TellsPlaces := by
  intro r host s report hrun
  have hreaches := runCode_reaches ⟨host, r.scope, r.functions⟩ (fun _ => .inr rfl)
    (parse_isOn_lines r.code) s
  unfold interpreter at hrun
  rw [StateT.run_bind] at hrun
  generalize ((runCode ⟨host, r.scope, r.functions⟩ r.code).run.run {}).run s = ended
    at hreaches hrun
  obtain ⟨⟨_ | _ | reported, m⟩, s'⟩ := ended
  · cases hrun
    exact nofun
  · cases hrun
  · cases hrun
    exact hreaches report rfl

end Stencil.Lua
