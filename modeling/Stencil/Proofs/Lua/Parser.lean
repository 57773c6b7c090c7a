import Stencil.Lua.Parser
import Stencil.Proofs.Lua.Token

/-! What the readers of the grammar make of known tokens.

`Reads` says that a reader takes certain tokens off what is ahead and leaves the rest. There is one
lemma for each reader: a reader that looks at the token behind what it takes asks that the rest
`EndsExpr`, or that it is no bad token. -/
namespace Stencil.Lua

/-- The cursor, with other tokens ahead. -/
def Cursor.to (s : Cursor) (ahead : List Lexeme) : Cursor := { s with ahead }

namespace Cursor

variable (s : Cursor) (ahead other : List Lexeme)

@[simp] theorem to_to : (s.to ahead).to other = s.to other := rfl
@[simp] theorem ahead_to : (s.to ahead).ahead = ahead := rfl
@[simp] theorem locals_to : (s.to ahead).locals = s.locals := rfl
@[simp] theorem inLoop_to : (s.to ahead).inLoop = s.inLoop := rfl
@[simp] theorem strayBreak_to : (s.to ahead).strayBreak = s.strayBreak := rfl

end Cursor

/-- From one cursor a reader comes to another with a result. -/
def Reads {α : Type} (r : Reader α) (s : Cursor) (a : α) (s' : Cursor) : Prop :=
  r.run s = .ok (a, s')

/-- The next token can be looked at. -/
def Ready (ahead : List Lexeme) : Prop :=
  ∀ l ∈ ahead.head?, ∀ complaint, l.token ≠ .bad complaint

namespace Reads

open Reader

variable {α β : Type} {r : Reader α} {s s' s'' : Cursor} {a : α} {b : β} {l : Lexeme}
  {rest : List Lexeme}

theorem pure (a : α) (s : Cursor) : Reads (pure a) s a s := rfl

theorem bind {f : α → Reader β} (h : Reads r s a s') (hf : Reads (f a) s' b s'') :
    Reads (r >>= f) s b s'' := by
  unfold Reads at h hf ⊢
  rw [StateT.run_bind, h]
  exact hf

theorem ite_true {c : Prop} [Decidable c] {r' : Reader α} (hc : c) (h : Reads r s a s') :
    Reads (if c then r else r') s a s' := by
  rwa [if_pos hc]

theorem ite_false {c : Prop} [Decidable c] {r' : Reader α} (hc : ¬ c) (h : Reads r' s a s') :
    Reads (if c then r else r') s a s' := by
  rwa [if_neg hc]

/-! ### Tokens -/

theorem get (s : Cursor) : Reads (get : Reader Cursor) s s s := rfl

theorem rounds (s : Cursor) : Reads rounds s (s.ahead.length + 1) s := rfl

theorem current (h : Ready (l :: rest)) : Reads current (s.to (l :: rest)) l (s.to (l :: rest)) := by
  have hbad := h l rfl
  unfold Reader.current
  refine bind (get _) ?_
  dsimp only [Cursor.ahead_to, List.headD_cons]
  split
  · next complaint heq => exact absurd heq (hbad complaint)
  · exact pure _ _

theorem advance (h : Ready rest) : Reads advance (s.to (l :: rest)) () (s.to rest) := by
  unfold Reader.advance
  have hmodify : Reads (modify fun s => { s with ahead := s.ahead.drop 1 } : Reader Unit)
      (s.to (l :: rest)) () (s.to rest) := rfl
  refine bind hmodify ?_
  cases rest with
  | nil => rfl
  | cons next rest => exact bind (current h) (pure _ _)

theorem isAt (h : Ready (l :: rest)) (t : Token) :
    Reads (isAt t) (s.to (l :: rest)) (l.token == t) (s.to (l :: rest)) :=
  bind (current h) (pure _ _)

/-- The token that is ahead is passed. -/
theorem accept {t : Token} (hl : Ready (l :: rest)) (h : Ready rest) (ht : l.token = t) :
    Reads (accept t) (s.to (l :: rest)) true (s.to rest) := by
  refine bind (isAt hl t) ?_
  rw [ht, beq_self_eq_true, if_pos rfl]
  exact bind (advance h) (pure _ _)

/-- Another token is left where it is. -/
theorem accept_of_ne {t : Token} (hl : Ready (l :: rest)) (ht : l.token ≠ t) :
    Reads (Reader.accept t) (s.to (l :: rest)) false (s.to (l :: rest)) := by
  refine bind (isAt hl t) ?_
  rw [beq_false_of_ne ht, if_neg Bool.false_ne_true]
  exact pure _ _

theorem expect {t : Token} (hl : Ready (l :: rest)) (h : Ready rest) (ht : l.token = t) :
    Reads (expect t) (s.to (l :: rest)) () (s.to rest) :=
  bind (accept hl h ht) (pure _ _)

theorem close {t opened : Token} {opening : Nat} (hl : Ready (l :: rest)) (h : Ready rest)
    (ht : l.token = t) : Reads (close t opened opening) (s.to (l :: rest)) () (s.to rest) :=
  bind (accept hl h ht) (pure _ _)

theorem name {n : Text} (h : Ready rest) (hl : l.token = .name n) :
    Reads name (s.to (l :: rest)) n (s.to rest) := by
  have hready : Ready (l :: rest) := by
    intro m hm complaint
    cases hm
    rw [hl]
    nofun
  refine bind (current hready) ?_
  rw [hl]
  exact bind (advance h) (pure _ _)

theorem declare {count : Nat} (h : s.locals + count ≤ maxVariables) :
    Reads (declare count) s () { s with locals := s.locals + count } := by
  refine bind (get s) ?_
  rw [if_neg (by omega)]
  rfl

theorem inScope (h : Reads r s a s') :
    Reads (Reader.inScope r) s a { s' with locals := s.locals } :=
  bind (get s) (bind h (bind (a := ()) rfl (pure _ _)))

/-! ### Expressions -/

/-- Whether a token goes on with the expression before it, other than as an operator. -/
def goesOn : Token → Bool
  | .string _ => true
  | .symbol t => ["(".toList, "\x7b".toList, ".".toList, "[".toList, ":".toList].contains t
  | _ => false

theorem ne_symbol_of_goesOn {t : Token} (h : goesOn t = false) {w : String}
    (hw : goesOn (symbol w) = true) : t ≠ symbol w := by
  rintro rfl
  rw [hw] at h
  cases h

/-- No expression goes on with the next token. -/
def EndsExpr (ahead : List Lexeme) : Prop :=
  Ready ahead ∧ ∃ l rest, ahead = l :: rest ∧ (operator? l.token).isNone ∧ goesOn l.token = false

variable {inner : Grammar}

theorem operators {limit fuel : Nat} {e : Expr} (h : EndsExpr rest) :
    Reads (operators inner limit fuel e) (s.to rest) e (s.to rest) := by
  obtain ⟨hready, l, more, rfl, hoperator, _⟩ := h
  cases fuel with
  | zero => exact pure _ _
  | succ fuel =>
    refine bind (current hready) ?_
    rw [Option.isNone_iff_eq_none.1 hoperator]
    exact pure _ _

/-- An operand and what is read behind it. -/
theorem expr_of_operators {limit : Nat} {e e' : Expr} {before : List Lexeme}
    (hl : Ready (l :: before)) (hunary : unaryOp? l.token = none)
    (hsimple : Reads (simple inner) (s.to (l :: before)) e s')
    (h : Reads (Reader.operators inner limit (s'.ahead.length + 1) e) s' e' s'') :
    Reads (expr inner limit) (s.to (l :: before)) e' s'' := by
  refine bind (current hl) ?_
  rw [hunary]
  exact bind hsimple (bind (rounds _) h)

/-- An expression without operators. -/
theorem expr_of_simple {limit : Nat} {e : Expr} {before : List Lexeme} (hl : Ready (l :: before))
    (hunary : unaryOp? l.token = none) (h : EndsExpr rest)
    (hsimple : Reads (simple inner) (s.to (l :: before)) e (s.to rest)) :
    Reads (expr inner limit) (s.to (l :: before)) e (s.to rest) :=
  expr_of_operators hl hunary hsimple (operators h)

theorem number {limit line : Nat} {numeral : Text} {n : Number} (h : EndsExpr rest) :
    Reads (expr inner limit) (s.to (numberLexeme line numeral n :: rest)) (.number n)
      (s.to rest) := by
  have hready : Ready (numberLexeme line numeral n :: rest) := by
    rintro _ ⟨⟩
    exact nofun
  refine expr_of_simple hready rfl h ?_
  exact bind (current hready) (bind (advance h.1) (pure _ _))

/-- A numeral with a sign is an operation on the number. -/
theorem negative {k limit line : Nat} {numeral : Text} {n : Number} (h : EndsExpr rest) :
    Reads (expr (grammar (k + 1)) limit)
      (s.to (symbolLexeme line ['-'] :: numberLexeme line numeral n :: rest))
      (.unary .negate (.number n) line) (s.to rest) := by
  have hready : Ready (symbolLexeme line ['-'] :: numberLexeme line numeral n :: rest) := by
    rintro _ ⟨⟩
    exact nofun
  have hnumber : Ready (numberLexeme line numeral n :: rest) := by
    rintro _ ⟨⟩
    exact nofun
  refine bind (current hready) ?_
  exact bind (advance hnumber) (bind (number h) (bind (pure _ _) (bind (rounds _) (operators h))))

theorem string {limit : Nat} {content : Bytes} (hl : l.token = .string content)
    (h : EndsExpr rest) :
    Reads (expr inner limit) (s.to (l :: rest)) (.string content) (s.to rest) := by
  have hready : Ready (l :: rest) := by
    rintro _ ⟨⟩
    rw [hl]
    exact nofun
  refine expr_of_simple hready (by rw [hl]; rfl) h ?_
  refine bind (current hready) ?_
  rw [hl]
  exact bind (advance h.1) (pure _ _)

/-- The lexeme of a name that is no reserved word. -/
theorem token_wordLexeme {line : Nat} {n : Text} (h : words.contains n = false) :
    (wordLexeme line n).token = .name n := by
  rw [wordLexeme, h]
  rfl

/-- What follows a name or a call and does not go on with it. -/
theorem suffixes {fuel : Nat} {e : Expr} (hl : Ready (l :: rest)) (h : goesOn l.token = false) :
    Reads (suffixes inner fuel e) (s.to (l :: rest)) e (s.to (l :: rest)) := by
  cases fuel with
  | zero => exact pure _ _
  | succ fuel =>
    refine bind (current hl) ?_
    refine ite_false ?_ (ite_false (ne_symbol_of_goesOn h rfl)
      (ite_false (ne_symbol_of_goesOn h rfl) (ite_false (ne_symbol_of_goesOn h rfl) (pure _ _))))
    intro hargument
    split at hargument
    · next heq =>
      rw [heq] at h
      cases h
    · rw [beq_false_of_ne (ne_symbol_of_goesOn h rfl),
        beq_false_of_ne (ne_symbol_of_goesOn h rfl)] at hargument
      cases hargument

/-- A name at the start of an expression, and what is read behind it. -/
theorem suffixed_name {line : Nat} {n : Text} {e : Expr} {before : List Lexeme}
    (hn : words.contains n = false) (hbefore : Ready before)
    (h : ∀ fuel, Reads (Reader.suffixes inner (fuel + 1) (.name n line)) (s.to before) e s') :
    Reads (suffixed inner) (s.to (wordLexeme line n :: before)) e s' := by
  have hready : Ready (wordLexeme line n :: before) := by
    rintro _ ⟨⟩
    rw [token_wordLexeme hn]
    exact nofun
  have hprimary : Reads (primary inner) (s.to (wordLexeme line n :: before)) (.name n line)
      (s.to before) := by
    refine bind (current hready) ?_
    rw [token_wordLexeme hn]
    exact bind (advance hbefore) (pure _ _)
  exact bind hprimary (bind (rounds _) (h _))

/-- A name, or a call of it, is an expression. -/
theorem simple_name {line : Nat} {n : Text} {e : Expr} {before : List Lexeme}
    (hn : words.contains n = false)
    (h : Reads (suffixed inner) (s.to (wordLexeme line n :: before)) e s') :
    Reads (simple inner) (s.to (wordLexeme line n :: before)) e s' := by
  have hready : Ready (wordLexeme line n :: before) := by
    rintro _ ⟨⟩
    rw [token_wordLexeme hn]
    exact nofun
  refine bind (current hready) ?_
  rw [token_wordLexeme hn]
  exact h

theorem expr_name {limit line : Nat} {n : Text} {e : Expr} {before : List Lexeme}
    (hn : words.contains n = false) (hrest : EndsExpr rest)
    (h : Reads (suffixed inner) (s.to (wordLexeme line n :: before)) e (s.to rest)) :
    Reads (expr inner limit) (s.to (wordLexeme line n :: before)) e (s.to rest) := by
  have hready : Ready (wordLexeme line n :: before) := by
    rintro _ ⟨⟩
    rw [token_wordLexeme hn]
    exact nofun
  exact expr_of_simple hready (by rw [token_wordLexeme hn]; rfl) hrest (simple_name hn h)

/-- A variable. -/
theorem expr_variable {limit line : Nat} {n : Text} (hn : words.contains n = false)
    (h : EndsExpr rest) :
    Reads (expr inner limit) (s.to (wordLexeme line n :: rest)) (.name n line) (s.to rest) := by
  refine expr_name hn h (suffixed_name hn h.1 fun fuel => ?_)
  obtain ⟨hready, l, more, rfl, _, hgoesOn⟩ := h
  exact suffixes hready hgoesOn

theorem ready_symbol (line : Nat) (t : Text) (rest : List Lexeme) :
    Ready (symbolLexeme line t :: rest) := by
  rintro _ ⟨⟩
  exact nofun

/-- Two texts that are put together. -/
theorem concat {limit fuel line : Nat} {left right : Expr} {between : List Lexeme}
    (hlimit : limit < 9) (hbetween : Ready between) (h : EndsExpr rest)
    (hright : Reads (inner.expr 8) (s.to between) right (s.to rest)) :
    Reads (Reader.operators inner limit (fuel + 1) left)
      (s.to (symbolLexeme line ['.', '.'] :: between)) (.binary .concat left right line)
      (s.to rest) := by
  refine bind (current (ready_symbol _ _ _)) ?_
  exact ite_true hlimit (bind (advance hbetween) (bind hright (operators h)))

/-! ### Calls -/

theorem endsExpr_comma (line : Nat) (rest : List Lexeme) :
    EndsExpr (symbolLexeme line [','] :: rest) :=
  ⟨ready_symbol _ _ _, _, _, rfl, rfl, rfl⟩

theorem endsExpr_closeParen (line : Nat) (rest : List Lexeme) :
    EndsExpr (symbolLexeme line [')'] :: rest) :=
  ⟨ready_symbol _ _ _, _, _, rfl, rfl, rfl⟩

/-- One expression before a closing parenthesis. -/
theorem exprs_one {line : Nat} {e : Expr}
    (h : Reads (inner.expr 0) s e (s.to (symbolLexeme line [')'] :: rest))) :
    Reads (exprs inner) s [e] (s.to (symbolLexeme line [')'] :: rest)) := by
  refine bind (rounds s) (bind h ?_)
  exact bind (accept_of_ne (ready_symbol _ _ _) (show Token.symbol [')'] ≠ symbol "," by decide))
    (pure _ _)

/-- Two expressions before a closing parenthesis. -/
theorem exprs_two {line : Nat} {e e' : Expr} {between : List Lexeme} (hs : s.ahead ≠ [])
    (hbetween : Ready between)
    (h : Reads (inner.expr 0) s e (s.to (symbolLexeme line [','] :: between)))
    (h' : Reads (inner.expr 0) (s.to between) e' (s.to (symbolLexeme line [')'] :: rest))) :
    Reads (exprs inner) s [e, e'] (s.to (symbolLexeme line [')'] :: rest)) := by
  obtain ⟨fuel, hfuel⟩ : ∃ n, s.ahead.length = n + 1 := by
    have := List.length_pos_iff.2 hs
    exact ⟨s.ahead.length - 1, by omega⟩
  have hsecond : Reads (separated (symbol ",") (inner.expr 0) (fuel + 1)) (s.to between) [e']
      (s.to (symbolLexeme line [')'] :: rest)) :=
    bind h' (bind (accept_of_ne (ready_symbol _ _ _)
      (show Token.symbol [')'] ≠ symbol "," by decide)) (pure _ _))
  refine bind (rounds s) (bind h ?_)
  rw [hfuel]
  exact bind (accept (ready_symbol _ _ _) hbetween rfl) (bind hsecond (pure _ _))

/-- The next token begins an argument. -/
structure BeginsArgument (ahead : List Lexeme) : Prop where
  ready : Ready ahead
  next : ∃ l rest, ahead = l :: rest ∧ l.token ≠ symbol ")"

theorem beginsArgument_word (line : Nat) (t : Text) (rest : List Lexeme) :
    BeginsArgument (wordLexeme line t :: rest) := by
  constructor
  · rintro _ ⟨⟩
    unfold wordLexeme
    dsimp only
    split <;> exact nofun
  · refine ⟨_, _, rfl, ?_⟩
    unfold wordLexeme
    dsimp only
    split <;> exact nofun

theorem beginsArgument_string (line : Nat) (content : Text) (rest : List Lexeme) :
    BeginsArgument (stringLexeme line content :: rest) := by
  refine ⟨?_, _, _, rfl, nofun⟩
  rintro _ ⟨⟩
  exact nofun

/-- A call of a name, with arguments up to a closing parenthesis. -/
theorem call {line : Nat} {n : Text} {arguments : List Expr} {before : List Lexeme}
    (hn : words.contains n = false) (hbefore : BeginsArgument before)
    (harguments : Reads (exprs inner) (s.to before) arguments
      (s.to (symbolLexeme line [')'] :: rest)))
    (hrest : ∃ l more, rest = l :: more ∧ goesOn l.token = false) (hready : Ready rest) :
    Reads (suffixed inner)
      (s.to (wordLexeme line n :: symbolLexeme line ['('] :: before))
      (.call (.name n line) arguments line) (s.to rest) := by
  refine suffixed_name hn (ready_symbol _ _ _) fun fuel => ?_
  obtain ⟨hbefore, l, more, rfl, hnot⟩ := hbefore
  obtain ⟨next, behind, rfl, hgoesOn⟩ := hrest
  have hopen : Reads (Reader.arguments inner) (s.to (symbolLexeme line ['('] :: l :: more))
      arguments (s.to (next :: behind)) := by
    refine bind (current (ready_symbol _ _ _)) ?_
    refine bind (advance hbefore) ?_
    refine bind (isAt hbefore _) ?_
    rw [beq_false_of_ne hnot]
    exact bind harguments (bind (close (ready_symbol _ _ _) hready rfl) (pure _ _))
  refine bind (current (ready_symbol _ _ _)) ?_
  exact bind hopen (suffixes hready hgoesOn)

end Reads
end Stencil.Lua
