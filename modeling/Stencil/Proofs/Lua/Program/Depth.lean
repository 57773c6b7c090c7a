import Stencil.Proofs.Lua.Program.Execute

/-! Programs that are too deep.

A tower is made of conditionals inside of each other. The reader of a grammar that may go so many
levels down does not get through a tower of that height (`Overflows.tower`), so the runtime refuses
its code. -/
namespace Stencil.Lua

/-- Conditionals inside of each other, with nothing in the innermost. -/
def Program.tower (condition : Text) : Nat → Program
  | 0 => .done
  | n + 1 => .when condition (tower condition n) .done

/-- From a cursor a reader gives up because it would have to go too deep. -/
def Overflows {α : Type} (r : Reader α) (s : Cursor) : Prop :=
  ∃ line, r.run s = .error ⟨line, .tooDeep⟩

namespace Overflows

open Reader Reads

variable {α β : Type} {r : Reader α} {f : α → Reader β} {s s' : Cursor} {a : α} {l : Lexeme}
  {rest before : List Lexeme} {inner : Grammar} {line k n : Nat} {condition : Text}

theorem first (h : Overflows r s) : Overflows (r >>= f) s := by
  obtain ⟨line, h⟩ := h
  refine ⟨line, ?_⟩
  rw [StateT.run_bind, h]
  rfl

theorem behind (h : Reads r s a s') (hf : Overflows (f a) s') : Overflows (r >>= f) s := by
  obtain ⟨line, hf⟩ := hf
  refine ⟨line, ?_⟩
  unfold Reads at h
  rw [StateT.run_bind, h]
  exact hf

theorem complain (h : Ready (l :: rest)) :
    Overflows (complain fun _ => .tooDeep : Reader α) (s.to (l :: rest)) :=
  behind (current h) ⟨l.line, rfl⟩

theorem statements {fuel : Nat} {t : Text} (ht : t ∉ endWords)
    (h : Overflows inner.statement (s.to (wordLexeme line t :: rest))) :
    Overflows (statements inner (fuel + 1)) (s.to (wordLexeme line t :: rest)) :=
  behind (endsBlock_word ht) (behind (not_isAt_return ht) (first h))

theorem block {t : Text} (ht : t ∉ endWords)
    (h : Overflows inner.statement (s.to (wordLexeme line t :: rest))) :
    Overflows (block inner) (s.to (wordLexeme line t :: rest)) :=
  behind (get _) (first (behind (rounds _) (statements ht h)))

/-- A conditional whose arms cannot be read. -/
theorem conditional (h : ∀ fuel, Overflows (arms inner line (fuel + 1))
      (s.to (wordLexeme line condition :: wordLexeme line "then" :: rest))) :
    Overflows (statement inner) (s.to (whenLexemes condition line ++ rest)) := by
  have hif : words.contains "if".toList = true := by decide
  show Overflows _ (s.to (wordLexeme line "if" :: wordLexeme line condition ::
    wordLexeme line "then" :: rest))
  refine behind (current (ready_word _ _ _)) ?_
  rw [token_word hif]
  exact behind (advance (ready_word _ _ _)) (behind (rounds _) (h _))

/-- A conditional that cannot be read because of its condition. -/
theorem condition_grammar_one :
    Overflows (grammar 1).statement (s.to (whenLexemes condition line ++ rest)) :=
  conditional fun _ => first (complain (ready_word _ _ _))

/-- A conditional that cannot be read because of what is in it. -/
theorem body_grammar (hcondition : words.contains condition = false) (hrest : Ready rest)
    (h : Overflows (Reader.block (grammar (k + 1))) (s.to rest)) :
    Overflows (grammar (k + 2)).statement (s.to (whenLexemes condition line ++ rest)) := by
  have hthen : words.contains "then".toList = true := by decide
  refine conditional fun _ => ?_
  refine behind (expr_variable hcondition (endsExpr_word hthen (by decide) (by decide) _)) ?_
  exact behind (expect (ready_word _ _ _) hrest (token_word hthen)) (first h)

/-- **A tower is too deep for a grammar** that may not go down further than it is high. -/
theorem tower (hcondition : words.contains condition = false) (k : Nat) :
    ∀ {n line : Nat} {rest : List Lexeme}, k ≤ n + 1 →
      Overflows (Reader.block (grammar k))
        (s.to ((Program.tower condition (n + 1)).lexemes line ++ rest)) := by
  induction k with
  | zero =>
    intro n line rest _
    exact block (by decide) (complain (ready_word _ _ _))
  | succ k ih =>
    intro n line rest hk
    rw [Program.tower, Program.lexemes, List.append_assoc]
    cases k with
    | zero => exact block (by decide) condition_grammar_one
    | succ k =>
      obtain ⟨n, rfl⟩ : ∃ m, n = m + 1 := ⟨n - 1, by omega⟩
      rw [List.append_assoc]
      refine block (by decide) (body_grammar hcondition ?_ (ih (by omega)))
      exact (Program.endsStatement_lexemes _ _ (endsBlock_end _ _)).ready

end Overflows

namespace Program

variable {condition : Text} {n : Nat}

theorem closed_tower (condition : Text) (n : Nat) : (tower condition n).Closed [condition] [] := by
  induction n with
  | zero => exact trivial
  | succ n ih => exact ⟨List.mem_singleton_self condition, ih, trivial⟩

theorem parse_tower (unit : Nat) (hcondition : isVariableName condition = true)
    (hn : Reader.maxNesting ≤ n) :
    ∃ line, parse ((tower condition n).code unit) = .error ⟨line, .tooDeep⟩ := by
  obtain ⟨n, rfl⟩ : ∃ m, n = m + 1 := ⟨n - 1, by unfold Reader.maxNesting at hn; omega⟩
  obtain ⟨behind, htokens⟩ := tokens_code unit (closed_tower condition (n + 1))
    fun name hname => List.mem_singleton.1 hname ▸ hcondition
  have hready : Ready ((tower condition (n + 1)).lexemes 1 ++ [⟨.finish, behind, endShown⟩]) :=
    Reads.ready_word _ _ _
  have hblock : Overflows (Reader.block (Reader.grammar Reader.maxNesting))
      (Cursor.to ⟨[], true, false, none, 0, 0⟩
        ((tower condition (n + 1)).lexemes 1 ++ [⟨.finish, behind, endShown⟩])) :=
    .tower (isWord_of_isVariableName hcondition).2 Reader.maxNesting hn
  have hchunk : Overflows Reader.chunk (Cursor.to ⟨[], true, false, none, 0, 0⟩
      ((tower condition (n + 1)).lexemes 1 ++ [⟨.finish, behind, endShown⟩])) :=
    .behind (Reads.current hready) (.first hblock)
  obtain ⟨line, hchunk⟩ := hchunk
  refine ⟨line, ?_⟩
  rw [parse, htokens]
  show (Reader.chunk.run (Cursor.to ⟨[], true, false, none, 0, 0⟩ _)).map Prod.fst = _
  rw [hchunk]
  rfl

variable {σ : Type} {scope : Scope} {functions : Table HostFunction}

/-- The runtime refuses a tower that is too high. -/
theorem execute_tower (unit : Nat) (hcondition : isVariableName condition = true)
    (hn : Reader.maxNesting ≤ n) (hunhidden : Unhidden scope functions) (host : Host σ) (s : σ) :
    (execute ⟨(tower condition n).code unit, scope, functions⟩ host).run s =
      (.error ⟨none, .native "RuntimeError" "C stack overflow" []⟩, s) := by
  obtain ⟨line, hparse⟩ := parse_tower unit hcondition hn
  exact execute_of_parse_error hunhidden hparse

end Program

end Stencil.Lua
