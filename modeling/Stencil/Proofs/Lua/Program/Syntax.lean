import Stencil.Proofs.Lua.Parser
import Stencil.Proofs.Lua.Program.Tokens

/-! How a program is read.

The syntax tree of a program is its `chunk`. Readers have limits: statements and expressions nest
only so deep, and a function has only so many variables, of which a loop takes four. A program
within them is read to its chunk (`parse_code`). -/
namespace Stencil.Lua

namespace Literal

variable (l : Literal)

def expr (line : Nat) : Expr :=
  if l.negative then .unary .negate (.number (.int l.value)) line else .number (.int l.value)

/-- How deep the reader has to go for the literal. -/
def levels : Nat := if l.negative then 2 else 1

end Literal

namespace Program

/-- The syntax tree of the program, from a line on. -/
def chunk (line : Nat) : Program → List Statement
  | done => []
  | print content endLine rest =>
    .call (.call (.name "print" line)
      (.string content.bytes :: if endLine then [] else [.string []]) line) ::
        rest.chunk (line + 1)
  | write name rest =>
    .call (.call (.name "print" line)
      [.call (.name "str" line) [.name name line] line, .string []] line) :: rest.chunk (line + 1)
  | count name start limit body rest =>
    .countLoop name (start.expr line) (limit.expr line) (.number (.int 1)) (body.chunk (line + 1))
      line :: rest.chunk (line + 1 + body.height + 1)
  | when condition body rest =>
    .conditional (.name condition line) (body.chunk (line + 1)) [] ::
      rest.chunk (line + 1 + body.height + 1)
  | choose condition body otherwise rest =>
    .conditional (.name condition line) (body.chunk (line + 1))
      (otherwise.chunk (line + 1 + body.height + 1)) ::
        rest.chunk (line + 1 + body.height + 1 + otherwise.height + 1)

/-- How deep the reader has to go for the program. -/
def levels : Program → Nat
  | done => 0
  | print _ _ rest => max 2 rest.levels
  | write _ rest => max 3 rest.levels
  | count _ start limit body rest =>
    max (1 + max (max start.levels limit.levels) body.levels) rest.levels
  | when _ body rest => max (1 + max 1 body.levels) rest.levels
  | choose _ body otherwise rest =>
    max (1 + max 1 (max body.levels otherwise.levels)) rest.levels

/-- How deep loops are nested. -/
def loops : Program → Nat
  | done => 0
  | print _ _ rest | write _ rest => rest.loops
  | count _ _ _ body rest => max (1 + body.loops) rest.loops
  | when _ body rest => max body.loops rest.loops
  | choose _ body otherwise rest => max (max body.loops otherwise.loops) rest.loops

end Program

namespace Reads

open Reader

variable {α : Type} {s : Cursor} {l : Lexeme} {rest : List Lexeme} {k : Nat}

theorem ready_word (line : Nat) (t : Text) (rest : List Lexeme) :
    Ready (wordLexeme line t :: rest) := by
  rintro _ ⟨⟩
  unfold wordLexeme
  dsimp only
  split <;> exact nofun

theorem ready_string (line : Nat) (content : Text) (rest : List Lexeme) :
    Ready (stringLexeme line content :: rest) := by
  rintro _ ⟨⟩
  exact nofun

theorem ready_literal (literal : Literal) (line : Nat) (rest : List Lexeme) :
    Ready (literal.lexemes line ++ rest) := by
  unfold Literal.lexemes
  cases literal.negative with
  | true => exact ready_symbol _ _ _
  | false =>
    rintro _ ⟨⟩
    exact nofun

theorem literal (literal : Literal) {line limit : Nat} (hk : literal.levels ≤ k)
    (h : EndsExpr rest) :
    Reads ((grammar k).expr limit) (s.to (literal.lexemes line ++ rest)) (literal.expr line)
      (s.to rest) := by
  unfold Literal.levels at hk
  unfold Literal.lexemes Literal.expr
  cases hnegative : literal.negative with
  | true =>
    rw [hnegative, if_pos rfl] at hk
    obtain ⟨k, rfl⟩ : ∃ n, k = n + 2 := ⟨k - 2, by omega⟩
    exact negative h
  | false =>
    rw [hnegative, if_neg Bool.false_ne_true] at hk
    obtain ⟨k, rfl⟩ : ∃ n, k = n + 1 := ⟨k - 1, by omega⟩
    exact number h

/-! ### Statements -/

/-- No statement goes on with the next token. -/
structure EndsStatement (ahead : List Lexeme) : Prop where
  ready : Ready ahead
  next : ∃ l rest, ahead = l :: rest ∧ goesOn l.token = false ∧ l.token ≠ symbol "=" ∧
    l.token ≠ symbol ","

/-- A call of a name as a statement. -/
theorem callStatement {inner : Grammar} {line : Nat} {n : Text} {arguments : List Expr}
    {before : List Lexeme} (hn : words.contains n = false) (hbefore : BeginsArgument before)
    (harguments : Reads (exprs inner) (s.to before) arguments
      (s.to (symbolLexeme line [')'] :: rest)))
    (h : EndsStatement rest) :
    Reads (statement inner) (s.to (wordLexeme line n :: symbolLexeme line ['('] :: before))
      (.call (.call (.name n line) arguments line)) (s.to rest) := by
  obtain ⟨hready, next, more, rfl, hgoesOn, hequals, hcomma⟩ := h
  have hcall := call hn hbefore harguments ⟨next, more, rfl, hgoesOn⟩ hready
  refine bind (current (ready_word _ _ _)) ?_
  rw [token_wordLexeme hn]
  refine bind hcall (bind (current hready) ?_)
  dsimp only
  rw [if_neg fun h => h.elim hequals hcomma]
  exact pure _ _

/-- The empty string as the last argument. -/
theorem emptyArgument {limit line : Nat} :
    Reads ((grammar (k + 1)).expr limit)
      (s.to (emptyLexeme line :: symbolLexeme line [')'] :: rest)) (.string [])
      (s.to (symbolLexeme line [')'] :: rest)) := string rfl (endsExpr_closeParen _ _)

theorem ready_empty (line : Nat) (rest : List Lexeme) : Ready (emptyLexeme line :: rest) := by
  rintro _ ⟨⟩
  exact nofun

theorem printStatement {line : Nat} (content : Text) (endLine : Bool) (hk : 2 ≤ k)
    (h : EndsStatement rest) :
    Reads (grammar k).statement (s.to (printLexemes content endLine line ++ rest))
      (.call (.call (.name "print" line)
        (.string content.bytes :: if endLine then [] else [.string []]) line)) (s.to rest) := by
  obtain ⟨k, rfl⟩ : ∃ n, k = n + 2 := ⟨k - 2, by omega⟩
  have hcontent : ∀ {behind}, EndsExpr behind → Reads ((grammar (k + 1)).expr 0)
      (s.to (stringLexeme line content :: behind)) (.string content.bytes) (s.to behind) :=
    fun hbehind => string rfl hbehind
  cases endLine with
  | true =>
    exact callStatement (by decide) (beginsArgument_string _ _ _)
      (exprs_one (hcontent (endsExpr_closeParen _ _))) h
  | false =>
    exact callStatement (by decide) (beginsArgument_string _ _ _)
      (exprs_two (List.cons_ne_nil _ _) (ready_empty _ _) (hcontent (endsExpr_comma _ _))
        emptyArgument) h

/-- A call of `str` with a variable, in front of what does not go on with it. -/
theorem strCall {line : Nat} {name : Text} (hname : words.contains name = false) {l : Lexeme}
    (hready : Ready (l :: rest)) (hgoesOn : goesOn l.token = false) :
    Reads (suffixed (grammar (k + 1)))
      (s.to (wordLexeme line "str" :: symbolLexeme line ['('] :: wordLexeme line name ::
        symbolLexeme line [')'] :: l :: rest))
      (.call (.name "str" line) [.name name line] line) (s.to (l :: rest)) :=
  call (by decide) (beginsArgument_word _ _ _)
    (exprs_one (expr_variable hname (endsExpr_closeParen _ _))) ⟨_, _, rfl, hgoesOn⟩ hready

theorem writeStatement {line : Nat} {name : Text} (hname : words.contains name = false)
    (hk : 3 ≤ k) (h : EndsStatement rest) :
    Reads (grammar k).statement (s.to (writeLexemes name line ++ rest))
      (.call (.call (.name "print" line)
        [.call (.name "str" line) [.name name line] line, .string []] line)) (s.to rest) := by
  obtain ⟨k, rfl⟩ : ∃ n, k = n + 3 := ⟨k - 3, by omega⟩
  exact callStatement (by decide) (beginsArgument_word _ _ _)
    (exprs_two (List.cons_ne_nil _ _) (ready_empty _ _)
      (expr_name (by decide) (endsExpr_comma _ _) (strCall hname (ready_symbol _ _ _) rfl))
      emptyArgument) h

/-! ### Blocks -/

/-- The token ends a block. -/
def ClosesBlock (t : Token) : Prop :=
  t = .finish ∨ t = word "else" ∨ t = word "end"

/-- The next token ends a block. -/
def EndsBlock (ahead : List Lexeme) : Prop := ∃ l rest, ahead = l :: rest ∧ ClosesBlock l.token

theorem EndsBlock.ready {ahead : List Lexeme} (h : EndsBlock ahead) : Ready ahead := by
  obtain ⟨l, rest, rfl, hl⟩ := h
  rintro _ ⟨⟩
  rcases hl with hl | hl | hl
  all_goals
    rw [hl]
    exact nofun

theorem statements_nil {inner : Grammar} {fuel : Nat} (h : EndsBlock rest) :
    Reads (statements inner fuel) (s.to rest) [] (s.to rest) := by
  cases fuel with
  | zero => exact pure _ _
  | succ fuel =>
    have hready := h.ready
    obtain ⟨l, rest, rfl, hl⟩ := h
    have hends : Reads (endsBlock true) (s.to (l :: rest)) true (s.to (l :: rest)) := by
      refine bind (current hready) ?_
      rcases hl with hl | hl | hl
      all_goals
        rw [hl]
        exact pure _ _
    exact bind hends (pure _ _)

/-- The words that no statement begins with, and `return`. -/
def endWords : List Text :=
  ["else".toList, "elseif".toList, "end".toList, "until".toList, "return".toList]

/-- A block does not end at another word. -/
theorem endsBlock_word {line : Nat} {t : Text} {before : List Lexeme} (ht : t ∉ endWords) :
    Reads (endsBlock true) (s.to (wordLexeme line t :: before)) false
      (s.to (wordLexeme line t :: before)) := by
  have hnot : (["else".toList, "elseif".toList, "end".toList] : List Text).contains t = false := by
    rw [← Bool.not_eq_true, List.contains_iff_mem]
    exact fun hmem => ht (List.mem_append_left ["until".toList, "return".toList] hmem)
  have huntil : t ≠ "until".toList := fun heq => ht (by rw [heq]; decide)
  refine bind (current (ready_word line t before)) ?_
  unfold wordLexeme
  dsimp only
  cases words.contains t with
  | false => exact pure _ _
  | true =>
    rw [if_pos rfl]
    dsimp only
    rw [hnot, beq_false_of_ne huntil]
    exact pure _ _

theorem not_isAt_return {line : Nat} {t : Text} {before : List Lexeme} (ht : t ∉ endWords) :
    Reads (Reader.isAt (word "return")) (s.to (wordLexeme line t :: before)) false
      (s.to (wordLexeme line t :: before)) := by
  have hreturn : t ≠ "return".toList := fun heq => ht (by rw [heq]; decide)
  have hlast : (wordLexeme line t).token ≠ word "return" := by
    unfold wordLexeme
    dsimp only
    split
    · exact fun heq => hreturn (Token.word.inj heq)
    · exact nofun
  have hisAt := isAt (s := s) (ready_word line t before) (word "return")
  rwa [beq_false_of_ne hlast] at hisAt

/-- A statement that begins with a word, and those behind it. -/
theorem statements_cons {inner : Grammar} {fuel line : Nat} {t : Text} {before : List Lexeme}
    {st : Statement} {others : List Statement} {s' : Cursor} (ht : t ∉ endWords)
    (hst : Reads inner.statement (s.to (wordLexeme line t :: before)) st (s.to rest))
    (hothers : Reads (statements inner fuel) (s.to rest) others s') :
    Reads (statements inner (fuel + 1)) (s.to (wordLexeme line t :: before)) (st :: others) s' :=
  bind (endsBlock_word ht) (bind (not_isAt_return ht) (bind hst (bind hothers (pure _ _))))

/-- A block is read to its end, with at least as many rounds as it has statements. -/
theorem block {inner : Grammar} {before : List Lexeme} {body : List Statement}
    (h : ∀ fuel, before.length < fuel →
      Reads (statements inner fuel) (s.to before) body (s.to rest)) :
    Reads (block inner) (s.to before) body (s.to rest) :=
  inScope (bind (rounds _) (h _ (Nat.lt_succ_self _)))

/-- The body of a loop, in which a `break` is allowed. -/
theorem loopBody {inner : Grammar} {before : List Lexeme} {body : List Statement}
    (h : Reads (Reader.block inner) (Cursor.to { s with inLoop := true } before) body
      (Cursor.to { s with inLoop := true } rest)) :
    Reads (loopBody inner) (s.to before) body (s.to rest) := by
  have hset : Reads (modify fun s : Cursor => { s with inLoop := true }) (s.to before) ()
      (Cursor.to { s with inLoop := true } before) := rfl
  have hreset : Reads (modify fun c : Cursor => { c with inLoop := s.inLoop })
      (Cursor.to { s with inLoop := true } rest) () (s.to rest) := rfl
  exact bind (get _) (bind hset (bind h (bind hreset (pure _ _))))

theorem endsExpr_word {line : Nat} {t : Text} (ht : words.contains t = true)
    (hand : t ≠ "and".toList) (hor : t ≠ "or".toList) (rest : List Lexeme) :
    EndsExpr (wordLexeme line t :: rest) := by
  refine ⟨ready_word _ _ _, _, _, rfl, ?_, ?_⟩
  · rw [wordLexeme, ht, if_pos rfl, operator?, if_neg hand, if_neg hor]
    rfl
  · rw [wordLexeme, ht]
    rfl

theorem token_word {line : Nat} {t : Text} (ht : words.contains t = true) :
    (wordLexeme line t).token = .word t := by
  rw [wordLexeme, ht]
  rfl

/-- A loop that counts. -/
theorem countStatement {line closing : Nat} {name : Text} {start limit : Literal}
    {before : List Lexeme} {body : List Statement} (hname : words.contains name = false)
    (hcounters : s.locals + 4 ≤ maxVariables)
    (hstart : start.levels ≤ k) (hlimit : limit.levels ≤ k)
    (hbefore : Ready before) (hrest : Ready rest)
    (hbody : Reads (Reader.block (grammar k))
      (Cursor.to { s with inLoop := true, locals := s.locals + 4 } before) body
      (Cursor.to { s with inLoop := true, locals := s.locals + 4 }
        (wordLexeme closing "end" :: rest))) :
    Reads (grammar (k + 1)).statement (s.to (countLexemes name start limit line ++ before))
      (.countLoop name (start.expr line) (limit.expr line) (.number (.int 1)) body line)
      (s.to rest) := by
  have hlexemes : countLexemes name start limit line ++ before =
      wordLexeme line "for" :: wordLexeme line name :: symbolLexeme line ['='] ::
        (start.lexemes line ++ symbolLexeme line [','] :: (limit.lexemes line ++
          wordLexeme line "do" :: before)) := by
    simp [countLexemes]
  have hdo : words.contains "do".toList = true := by decide
  have hfor : words.contains "for".toList = true := by decide
  have hend : words.contains "end".toList = true := by decide
  rw [hlexemes]
  refine bind (current (ready_word _ _ _)) ?_
  rw [token_word hfor]
  refine bind (advance (ready_word _ _ _)) ?_
  have hloop : Reads (forLoop (grammar k) line)
      (s.to (wordLexeme line name :: symbolLexeme line ['='] ::
        (start.lexemes line ++ symbolLexeme line [','] :: (limit.lexemes line ++
          wordLexeme line "do" :: before))))
      (.countLoop name (start.expr line) (limit.expr line) (.number (.int 1)) body line)
      { Cursor.to { s with locals := s.locals + 4 } rest with locals := s.locals } := by
    refine inScope ?_
    refine bind (Reads.name (ready_symbol _ _ _) (token_wordLexeme hname)) ?_
    refine bind (current (ready_symbol _ _ _)) ?_
    refine ite_true rfl ?_
    have hdeclare : Reads (Reader.declare (countVariables + 1))
        (s.to (symbolLexeme line ['='] :: (start.lexemes line ++ symbolLexeme line [','] ::
          (limit.lexemes line ++ wordLexeme line "do" :: before)))) ()
        (Cursor.to { s with locals := s.locals + 4 }
          (symbolLexeme line ['='] :: (start.lexemes line ++ symbolLexeme line [','] ::
            (limit.lexemes line ++ wordLexeme line "do" :: before)))) := declare hcounters
    have hnoStep : (wordLexeme line "do").token ≠ symbol "," := by
      rw [token_word hdo]
      intro h
      cases h
    refine bind hdeclare (bind (advance (ready_literal _ _ _)) ?_)
    refine bind (Reads.literal start hstart (endsExpr_comma _ _)) ?_
    refine bind (expect (ready_symbol _ _ _) (ready_literal _ _ _) rfl) ?_
    refine bind (Reads.literal limit hlimit (endsExpr_word hdo (by decide) (by decide) _)) ?_
    refine bind (accept_of_ne (ready_word _ _ _) hnoStep) (bind (pure _ _) ?_)
    refine bind (bind (expect (ready_word _ _ _) hbefore (token_word hdo)) ?_) (pure _ _)
    refine bind (loopBody hbody) ?_
    exact bind (close (ready_word _ _ _) hrest (token_word hend)) (pure _ _)
  exact hloop

/-- A conditional up to the end of its first block, and what is read behind that. -/
theorem conditional {line : Nat} {condition : Text} {before between : List Lexeme}
    {body otherwise : List Statement} (hcondition : words.contains condition = false) (hk : 1 ≤ k)
    (hbefore : Ready before)
    (hbody : Reads (Reader.block (grammar k)) (s.to before) body (s.to between))
    (hbetween : ∀ fuel, Reads (show Reader Statement from do
        if ← Reader.accept (word "elseif") then
          return .conditional (.name condition line) body [← arms (grammar k) line fuel]
        else
          let otherwise ← if ← Reader.accept (word "else") then Reader.block (grammar k)
            else Pure.pure []
          Reader.close (word "end") (word "if") line
          return .conditional (.name condition line) body otherwise)
      (s.to between) (.conditional (.name condition line) body otherwise) (s.to rest)) :
    Reads (grammar (k + 1)).statement (s.to (whenLexemes condition line ++ before))
      (.conditional (.name condition line) body otherwise) (s.to rest) := by
  obtain ⟨k, rfl⟩ : ∃ n, k = n + 1 := ⟨k - 1, by omega⟩
  have hif : words.contains "if".toList = true := by decide
  have hthen : words.contains "then".toList = true := by decide
  show Reads _ (s.to (wordLexeme line "if" :: wordLexeme line condition ::
    wordLexeme line "then" :: before)) _ _
  refine bind (current (ready_word _ _ _)) ?_
  rw [token_word hif]
  refine bind (advance (ready_word _ _ _)) (bind (rounds _) ?_)
  refine bind (expr_variable hcondition (endsExpr_word hthen (by decide) (by decide) _)) ?_
  refine bind (expect (ready_word _ _ _) hbefore (token_word hthen)) ?_
  exact bind hbody (hbetween _)

theorem whenStatement {line closing : Nat} {condition : Text} {before : List Lexeme}
    {body : List Statement} (hcondition : words.contains condition = false) (hk : 1 ≤ k)
    (hbefore : Ready before) (hrest : Ready rest)
    (hbody : Reads (Reader.block (grammar k)) (s.to before) body
      (s.to (wordLexeme closing "end" :: rest))) :
    Reads (grammar (k + 1)).statement (s.to (whenLexemes condition line ++ before))
      (.conditional (.name condition line) body []) (s.to rest) := by
  have hend : (wordLexeme closing "end").token = word "end" := token_word (by decide)
  have hready := ready_word closing "end" rest
  refine conditional hcondition hk hbefore hbody fun fuel => ?_
  refine bind (accept_of_ne hready (by rw [hend]; decide)) ?_
  refine bind (accept_of_ne hready (by rw [hend]; decide)) (bind (pure _ _) ?_)
  exact bind (close hready hrest hend) (pure _ _)

theorem chooseStatement {line middle closing : Nat} {condition : Text}
    {before between : List Lexeme} {body otherwise : List Statement}
    (hcondition : words.contains condition = false) (hk : 1 ≤ k)
    (hbefore : Ready before) (hbetween : Ready between) (hrest : Ready rest)
    (hbody : Reads (Reader.block (grammar k)) (s.to before) body
      (s.to (wordLexeme middle "else" :: between)))
    (hotherwise : Reads (Reader.block (grammar k)) (s.to between) otherwise
      (s.to (wordLexeme closing "end" :: rest))) :
    Reads (grammar (k + 1)).statement (s.to (whenLexemes condition line ++ before))
      (.conditional (.name condition line) body otherwise) (s.to rest) := by
  have helse : (wordLexeme middle "else").token = word "else" := token_word (by decide)
  have hready := ready_word middle "else" between
  refine conditional hcondition hk hbefore hbody fun fuel => ?_
  refine bind (accept_of_ne hready (by rw [helse]; decide)) ?_
  refine bind (accept hready hbetween helse) (bind hotherwise ?_)
  exact bind (close (ready_word _ _ _) hrest (token_word (by decide))) (pure _ _)

theorem endsStatement_word (line : Nat) (t : Text) (rest : List Lexeme) :
    EndsStatement (wordLexeme line t :: rest) := by
  refine ⟨ready_word _ _ _, _, _, rfl, ?_⟩
  unfold wordLexeme
  dsimp only
  split
  · exact ⟨rfl, nofun, nofun⟩
  · exact ⟨rfl, nofun, nofun⟩

theorem EndsBlock.endsStatement (h : EndsBlock rest) : EndsStatement rest := by
  have hready := h.ready
  obtain ⟨l, more, rfl, hl⟩ := h
  refine ⟨hready, l, more, rfl, ?_⟩
  rcases hl with hl | hl | hl
  all_goals
    rw [hl]
    exact ⟨rfl, nofun, nofun⟩

theorem endsBlock_end (line : Nat) (rest : List Lexeme) :
    EndsBlock (wordLexeme line "end" :: rest) :=
  ⟨_, _, rfl, .inr (.inr (token_word (by decide)))⟩

theorem endsBlock_else (line : Nat) (rest : List Lexeme) :
    EndsBlock (wordLexeme line "else" :: rest) :=
  ⟨_, _, rfl, .inr (.inl (token_word (by decide)))⟩

/-- A script is read when its statements are read up to the end. -/
theorem parse_eq {t : Text} {lexemes : List Lexeme} {behind : Nat} {body : List Statement}
    (htokens : tokens t = lexemes ++ [⟨.finish, behind, endShown⟩])
    (hends : EndsStatement (lexemes ++ [⟨.finish, behind, endShown⟩]))
    (hbody : ∀ fuel, (lexemes ++ [(⟨.finish, behind, endShown⟩ : Lexeme)]).length < fuel →
      Reads (statements (grammar maxNesting) fuel) (Cursor.to ⟨[], true, false, none, 0, 0⟩
        (lexemes ++ [⟨.finish, behind, endShown⟩])) body
        (Cursor.to ⟨[], true, false, none, 0, 0⟩ [⟨.finish, behind, endShown⟩])) :
    parse t = .ok body := by
  have hfinish : Ready [⟨.finish, behind, endShown⟩] :=
    EndsBlock.ready ⟨_, _, rfl, .inl rfl⟩
  obtain ⟨hready, l, rest, heq, _⟩ := hends
  have hblock : Reads (Reader.block (grammar maxNesting)) (Cursor.to ⟨[], true, false, none, 0, 0⟩
      (lexemes ++ [⟨.finish, behind, endShown⟩])) body
      (Cursor.to ⟨[], true, false, none, 0, 0⟩ [⟨.finish, behind, endShown⟩]) := block hbody
  rw [heq] at hready hblock
  have hchunk : Reads Reader.chunk (Cursor.to ⟨[], true, false, none, 0, 0⟩ (l :: rest)) body
      (Cursor.to ⟨[], true, false, none, 0, 0⟩ [⟨.finish, behind, endShown⟩]) := by
    refine bind (current hready) (bind hblock (bind (isAt hfinish _) ?_))
    exact bind (bind (get _) (pure () _)) (pure _ _)
  unfold Reads at hchunk
  rw [parse, htokens, heq]
  show (Reader.chunk.run (Cursor.to ⟨[], true, false, none, 0, 0⟩ (l :: rest))).map Prod.fst = _
  rw [hchunk]
  rfl

end Reads

namespace Program

open Reader Reads

/-- Every statement of a program begins with a word. -/
theorem endsStatement_lexemes {rest : List Lexeme} (p : Program) (line : Nat)
    (h : EndsBlock rest) : EndsStatement (p.lexemes line ++ rest) := by
  cases p with
  | done => exact h.endsStatement
  | print content endLine rest => exact endsStatement_word _ _ _
  | write name rest => exact endsStatement_word _ _ _
  | count name start limit body rest => exact endsStatement_word _ _ _
  | when condition body rest => exact endsStatement_word _ _ _
  | choose condition body otherwise rest => exact endsStatement_word _ _ _

section Reading

variable {conditions counters : List Text} {p others : Program} {line k fuel : Nat} {s : Cursor}
  {before rest : List Lexeme}

/-- The program, in front of the end of its block, is read to its chunk by readers that can go deep
enough. -/
def IsRead (conditions : List Text) (p : Program) : Prop :=
  ∀ ⦃counters : List Text⦄ ⦃line k fuel : Nat⦄ ⦃s : Cursor⦄ ⦃rest : List Lexeme⦄,
    p.Closed conditions counters → Names conditions counters → p.levels ≤ k →
    s.locals + 4 * p.loops ≤ maxVariables → EndsBlock rest →
    (p.lexemes line ++ rest).length < fuel →
    Reads (statements (grammar k) fuel) (s.to (p.lexemes line ++ rest)) (p.chunk line) (s.to rest)

/-- A block of a program brings the rounds that its statements take. -/
theorem IsRead.block (h : p.IsRead conditions) (hclosed : p.Closed conditions counters)
    (hnames : Names conditions counters) (hlevels : p.levels ≤ k)
    (hloops : s.locals + 4 * p.loops ≤ maxVariables) (hrest : EndsBlock rest) :
    Reads (Reader.block (grammar k)) (s.to (p.lexemes line ++ rest)) (p.chunk line) (s.to rest) :=
  Reads.block fun _ hfuel => h hclosed hnames hlevels hloops hrest hfuel

/-- A statement, and the program behind it. -/
theorem IsRead.behind (h : others.IsRead conditions) (hclosed : others.Closed conditions counters)
    (hnames : Names conditions counters) (hlevels : others.levels ≤ k)
    (hloops : s.locals + 4 * others.loops ≤ maxVariables) (hrest : EndsBlock rest)
    {start : Nat} {t : Text} {st : Statement} (ht : t ∉ endWords)
    (hst : Reads (grammar k).statement (s.to (wordLexeme start t :: before)) st
      (s.to (others.lexemes line ++ rest)))
    (hlength : (others.lexemes line).length + rest.length ≤ before.length)
    (hfuel : before.length + 1 < fuel) :
    Reads (statements (grammar k) fuel) (s.to (wordLexeme start t :: before))
      (st :: others.chunk line) (s.to rest) := by
  obtain ⟨fuel, rfl⟩ : ∃ n, fuel = n + 1 := ⟨fuel - 1, by omega⟩
  exact statements_cons ht hst (h hclosed hnames hlevels hloops hrest
    (by rw [List.length_append]; omega))

end Reading

/-- **A program is read to its chunk** by readers that can go deep enough. -/
theorem isRead (conditions : List Text) (p : Program) : p.IsRead conditions := by
  induction p with
  | done => exact fun _ _ _ _ _ _ _ _ _ _ hrest _ => statements_nil hrest
  | print content endLine others ih =>
    intro counters line k fuel s rest hclosed hnames hlevels hloops hrest hfuel
    rw [levels, Nat.max_le] at hlevels
    rw [lexemes, List.append_assoc] at hfuel ⊢
    exact ih.behind hclosed hnames hlevels.2 hloops hrest (by decide)
      (printStatement content endLine hlevels.1 (endsStatement_lexemes others _ hrest))
      (by simp; omega) hfuel
  | write name others ih =>
    intro counters line k fuel s rest hclosed hnames hlevels hloops hrest hfuel
    obtain ⟨hname, hclosed⟩ := hclosed
    rw [levels, Nat.max_le] at hlevels
    rw [lexemes, List.append_assoc] at hfuel ⊢
    have hword := (isWord_of_isVariableName (hnames.counters name hname)).2
    exact ih.behind hclosed hnames hlevels.2 hloops hrest (by decide)
      (writeStatement hword hlevels.1 (endsStatement_lexemes others _ hrest))
      (by simp; omega) hfuel
  | count name start limit body others ihBody ihRest =>
    intro counters line k fuel s rest hclosed hnames hlevels hloops hrest hfuel
    obtain ⟨⟨hname, _⟩, hbody, hothers⟩ := hclosed
    rw [levels, Nat.max_le] at hlevels
    rw [loops] at hloops
    obtain ⟨k, rfl⟩ : ∃ n, k = n + 1 := ⟨k - 1, by omega⟩
    rw [lexemes, List.append_assoc, List.append_assoc, List.cons_append] at hfuel ⊢
    exact ihRest.behind hothers hnames hlevels.2 (by omega) hrest (by decide)
      (countStatement (isWord_of_isVariableName hname).2 (by omega) (by omega) (by omega)
        (endsStatement_lexemes body _ (endsBlock_end _ _)).ready
        (endsStatement_lexemes others _ hrest).ready
        (ihBody.block hbody (hnames.cons hname) (by omega)
          (show s.locals + 4 + 4 * body.loops ≤ maxVariables by omega) (endsBlock_end _ _)))
      (by simp; omega) hfuel
  | when condition body others ihBody ihRest =>
    intro counters line k fuel s rest hclosed hnames hlevels hloops hrest hfuel
    obtain ⟨hcondition, hbody, hothers⟩ := hclosed
    rw [levels, Nat.max_le] at hlevels
    rw [loops] at hloops
    obtain ⟨k, rfl⟩ : ∃ n, k = n + 1 := ⟨k - 1, by omega⟩
    rw [lexemes, List.append_assoc, List.append_assoc, List.cons_append] at hfuel ⊢
    have hword := (isWord_of_isVariableName (hnames.conditions condition hcondition)).2
    exact ihRest.behind hothers hnames hlevels.2 (by omega) hrest (by decide)
      (whenStatement hword (by omega) (endsStatement_lexemes body _ (endsBlock_end _ _)).ready
        (endsStatement_lexemes others _ hrest).ready
        (ihBody.block hbody hnames (by omega) (by omega) (endsBlock_end _ _)))
      (by simp; omega) hfuel
  | choose condition body otherwise others ihBody ihOtherwise ihRest =>
    intro counters line k fuel s rest hclosed hnames hlevels hloops hrest hfuel
    obtain ⟨hcondition, hbody, hotherwise, hothers⟩ := hclosed
    rw [levels, Nat.max_le] at hlevels
    rw [loops] at hloops
    obtain ⟨k, rfl⟩ : ∃ n, k = n + 1 := ⟨k - 1, by omega⟩
    rw [lexemes, List.append_assoc, List.append_assoc, List.cons_append, List.append_assoc,
      List.cons_append] at hfuel ⊢
    have hword := (isWord_of_isVariableName (hnames.conditions condition hcondition)).2
    exact ihRest.behind hothers hnames hlevels.2 (by omega) hrest (by decide)
      (chooseStatement hword (by omega) (endsStatement_lexemes body _ (endsBlock_else _ _)).ready
        (endsStatement_lexemes otherwise _ (endsBlock_end _ _)).ready
        (endsStatement_lexemes others _ hrest).ready
        (ihBody.block hbody hnames (by omega) (by omega) (endsBlock_else _ _))
        (ihOtherwise.block hotherwise hnames (by omega) (by omega) (endsBlock_end _ _)))
      (by simp; omega) hfuel

/-- **A program within the limits of the reader is read from its code.** -/
theorem parse_code (unit : Nat) {conditions : List Text} {p : Program}
    (hclosed : p.Closed conditions [])
    (hconditions : ∀ name ∈ conditions, isVariableName name = true)
    (hlevels : p.levels ≤ maxNesting) (hloops : 4 * p.loops ≤ maxVariables) :
    parse (p.code unit) = .ok (p.chunk 1) := by
  obtain ⟨behind, htokens⟩ := tokens_code unit hclosed hconditions
  have hfinish : EndsBlock [⟨.finish, behind, endShown⟩] := ⟨_, _, rfl, .inl rfl⟩
  exact parse_eq htokens (endsStatement_lexemes p 1 hfinish) fun fuel hfuel =>
    isRead conditions p hclosed ⟨hconditions, nofun⟩ hlevels
      (show 0 + 4 * p.loops ≤ maxVariables by omega) hfinish hfuel

end Program
end Stencil.Lua
