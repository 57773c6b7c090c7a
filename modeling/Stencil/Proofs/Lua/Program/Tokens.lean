import Stencil.Proofs.Lua.Program.Basic

/-! The tokens of a program.

A line is read as tokens that depend on nothing but its number (`LineScans`), and lines are read one
after the other (`LinesScan.scans`). `tokens_code` puts this together over the structure of a
program. -/
namespace Stencil.Lua

/-! ### Lines of tokens -/

/-- The text of a line is read as tokens that depend on nothing but the number of the line. -/
structure LineScans (t : Text) (lexemes : Nat → List Lexeme) : Prop where
  head : t.head? ≠ some '\r'
  scans : ∀ line rest, (∀ c ∈ rest.head?, c = '\n') → Scans line (t ++ rest) (lexemes line) line rest

theorem LineScans.indented {t : Text} {lexemes : Nat → List Lexeme} (h : LineScans t lexemes)
    (unit depth : Nat) : LineScans (indentText unit depth ++ t) lexemes := by
  constructor
  · unfold indentText Text.spaces Text.repeated
    cases unit * depth with
    | zero => exact h.head
    | succ n => simp [List.replicate_succ]
  · intro line rest hrest
    rw [indentText, List.append_assoc]
    exact (Scans.spaces line _ _).trans (h.scans line rest hrest)

/-- Lines from a line number on, and their tokens. -/
inductive LinesScan : Nat → List Text → List Lexeme → Prop
  | nil (line : Nat) : LinesScan line [] []
  | cons {line : Nat} {t : Text} {lexemes : Nat → List Lexeme} {ts : List Text}
    {others : List Lexeme} (ht : LineScans t lexemes) (hts : LinesScan (line + 1) ts others) :
    LinesScan line (t :: ts) (lexemes line ++ others)

theorem LinesScan.head_join {line : Nat} {ts : List Text} {lexemes : List Lexeme}
    (h : LinesScan line ts lexemes) : (Text.join "\n" ts).head? ≠ some '\r' := by
  cases h with
  | nil => simp [Text.join]
  | cons ht hts =>
    next t _ ts _ =>
    have hhead := ht.head
    cases ts with
    | nil => exact hhead
    | cons next ts =>
      cases t with
      | nil => simp [Text.join]
      | cons c cs => exact hhead

/-- Lines are read one after the other. -/
theorem LinesScan.scans {line : Nat} {ts : List Text} {lexemes : List Lexeme}
    (h : LinesScan line ts lexemes) :
    ∃ behind, Scans line (Text.join "\n" ts) lexemes behind [] := by
  induction h with
  | nil line => exact ⟨line, Scans.refl line []⟩
  | cons ht hts ih =>
    next line t lexemes ts others =>
    cases ts with
    | nil =>
      cases hts
      have hscans := ht.scans line [] (by simp)
      rw [List.append_nil] at hscans ⊢
      exact ⟨line, hscans⟩
    | cons next ts =>
      obtain ⟨behind, hrest⟩ := ih
      refine ⟨behind, ?_⟩
      have hline := ht.scans line ('\n' :: Text.join "\n" (next :: ts)) (by simp)
      have hfeed := (Scans.lineFeed line hts.head_join).trans hrest
      show Scans line (t ++ ['\n'] ++ Text.join "\n" (next :: ts)) _ _ _
      rw [List.append_assoc]
      exact hline.trans hfeed

/-! ### The tokens of a program -/

/-- A name that is a variable for the script is one word and no reserved one. -/
theorem isWord_of_isVariableName {name : Text} (h : isVariableName name = true) :
    IsWord name ∧ words.contains name = false := by
  unfold isVariableName at h
  cases name with
  | nil => cases h
  | cons c cs =>
    dsimp only at h
    rw [Bool.and_eq_true, Bool.and_eq_true, Bool.not_eq_true', List.all_eq_true] at h
    obtain ⟨⟨hstart, hchars⟩, hword⟩ := h
    refine ⟨⟨⟨c, cs, rfl, hstart⟩, ?_⟩, hword⟩
    intro d hd
    rcases List.mem_cons.1 hd with rfl | hd
    · rw [Bool.or_eq_true] at hstart
      unfold isNameChar
      rcases hstart with hstart | hstart
      · simp [hstart]
      · simp [hstart]
    · exact hchars d hd

namespace Literal

variable (l : Literal)

def lexemes (line : Nat) : List Lexeme :=
  (if l.negative then [symbolLexeme line ['-']] else []) ++
    [numberLexeme line l.numeral (.int l.value)]

theorem scans (line : Nat) {rest : Text} (hrest : ∀ c ∈ rest.head?, endsNumeral c = true) :
    Scans line (l.text ++ rest) (l.lexemes line) line rest := by
  have hnumber := Scans.number line l.isNumeral hrest l.reads
  unfold text lexemes
  cases l.negative with
  | false => exact hnumber
  | true =>
    obtain ⟨c, cs, hnumeral, hdigit⟩ := Scans.numeral_eq_cons l.isNumeral
    have hminus : c ≠ '-' := by
      rintro rfl
      exact absurd hdigit (by decide)
    rw [hnumeral] at hnumber ⊢
    exact (Scans.minus line hminus (cs ++ rest)).trans hnumber

end Literal

def printLexemes (content : Text) (endLine : Bool) (line : Nat) : List Lexeme :=
  wordLexeme line "print" :: symbolLexeme line ['('] :: stringLexeme line content ::
    ((if endLine then [] else [symbolLexeme line [','], emptyLexeme line])
      ++ [symbolLexeme line [')']])

def writeLexemes (name : Text) (line : Nat) : List Lexeme :=
  [wordLexeme line "print", symbolLexeme line ['('], wordLexeme line "str",
    symbolLexeme line ['('], wordLexeme line name, symbolLexeme line [')'],
    symbolLexeme line [','], emptyLexeme line, symbolLexeme line [')']]

def countLexemes (name : Text) (start limit : Literal) (line : Nat) : List Lexeme :=
  [wordLexeme line "for", wordLexeme line name, symbolLexeme line ['=']] ++ start.lexemes line
    ++ symbolLexeme line [','] :: limit.lexemes line ++ [wordLexeme line "do"]

def whenLexemes (condition : Text) (line : Nat) : List Lexeme :=
  [wordLexeme line "if", wordLexeme line condition, wordLexeme line "then"]

namespace Scans

/-- The second argument of a `print` that ends no line. -/
theorem noLineEnd (line : Nat) (rest : Text) :
    Scans line (',' :: ' ' :: '"' :: '"' :: ')' :: rest)
      [symbolLexeme line [','], emptyLexeme line, symbolLexeme line [')']] line rest :=
  (comma line _).trans ((space line _).trans ((emptyString line _).trans (closeParen line rest)))

/-- A call of `print`, from its start up to behind the value of a variable. -/
theorem printVariable {name : Text} (hname : isVariableName name = true) (line : Nat)
    (rest : Text) :
    Scans line ("print".toList ++ '(' :: ("str".toList ++ '(' :: (name ++ ')' :: rest)))
      [wordLexeme line "print", symbolLexeme line ['('], wordLexeme line "str",
        symbolLexeme line ['('], wordLexeme line name, symbolLexeme line [')']] line rest := by
  have hword : Scans line (name ++ ')' :: rest) [wordLexeme line name] line (')' :: rest) :=
    word line (isWord_of_isVariableName hname).1 (by rintro c ⟨⟩; decide)
  have hstr := (word line (by decide : IsWord "str".toList) (by rintro c ⟨⟩; decide)).trans
    ((openParen line _).trans (hword.trans (closeParen line rest)))
  exact (word line (by decide) (by rintro c ⟨⟩; decide)).trans ((openParen line _).trans hstr)

end Scans

namespace LineScans

theorem print (content : Text) (endLine : Bool) :
    LineScans (printLiteral content endLine) (printLexemes content endLine) := by
  constructor
  · cases endLine <;> simp [printLiteral]
  · intro line rest _
    have hcall : ∀ tail, Scans line ("print".toList ++ '(' :: (quote content ++ tail))
        [wordLexeme line "print", symbolLexeme line ['('], stringLexeme line content] line
          tail := fun tail =>
      (Scans.word line (by decide) (by rintro c ⟨⟩; decide)).trans
        ((Scans.openParen line _).trans (Scans.quote line content tail))
    cases endLine with
    | true =>
      have htext : printLiteral content true ++ rest =
          "print".toList ++ '(' :: (quote content ++ ')' :: rest) := by
        simp [printLiteral]
      rw [htext]
      exact (hcall _).trans (Scans.closeParen line rest)
    | false =>
      have htext : printLiteral content false ++ rest =
          "print".toList ++ '(' :: (quote content ++ ',' :: ' ' :: '"' :: '"' :: ')' :: rest) := by
        simp [printLiteral]
      rw [htext]
      exact (hcall _).trans (Scans.noLineEnd line rest)

theorem write {name : Text} (hname : isVariableName name = true) :
    LineScans (printExpr name false) (writeLexemes name) := by
  constructor
  · simp [printExpr]
  · intro line rest _
    have htext : printExpr name false ++ rest = "print".toList ++ '(' :: ("str".toList ++
        '(' :: (name ++ ')' :: ',' :: ' ' :: '"' :: '"' :: ')' :: rest)) := by
      simp [printExpr]
    rw [htext]
    exact (Scans.printVariable hname line _).trans (Scans.noLineEnd line rest)

theorem countHeader_append (name : Text) (start limit : Literal) (rest : Text) :
    countHeader name start limit ++ rest = "for".toList ++ ' ' :: (name ++
      ' ' :: '=' :: ' ' :: (start.text ++ ',' :: ' ' :: (limit.text ++
        ' ' :: ("do".toList ++ rest)))) := by
  unfold countHeader
  rw [List.append_assoc, List.append_assoc, List.append_assoc, List.append_assoc,
    List.append_assoc, List.append_assoc]
  rfl

theorem count {name : Text} (hname : isVariableName name = true) (start limit : Literal) :
    LineScans (countHeader name start limit) (countLexemes name start limit) := by
  constructor
  · rw [← List.append_nil (countHeader name start limit), countHeader_append]
    rintro ⟨⟩
  · intro line rest hrest
    have hword : ∀ tail, Scans line (name ++ ' ' :: tail) [wordLexeme line name] line
        (' ' :: tail) := fun tail =>
      Scans.word line (isWord_of_isVariableName hname).1 (by rintro c ⟨⟩; decide)
    have hdo : Scans line ("do".toList ++ rest) [wordLexeme line "do"] line rest :=
      Scans.word line (by decide) fun c hc => by
        rw [hrest c hc]
        decide
    have hlimit : Scans line (limit.text ++ ' ' :: ("do".toList ++ rest))
        (limit.lexemes line ++ [wordLexeme line "do"]) line rest :=
      (limit.scans line (by rintro c ⟨⟩; decide)).trans ((Scans.space line _).trans hdo)
    have hstart : Scans line (start.text ++ ',' :: ' ' :: (limit.text ++
        ' ' :: ("do".toList ++ rest))) (start.lexemes line ++ (symbolLexeme line [','] ::
          (limit.lexemes line ++ [wordLexeme line "do"]))) line rest :=
      (start.scans line (by rintro c ⟨⟩; decide)).trans ((Scans.comma line _).trans
        ((Scans.space line _).trans hlimit))
    have hall := (Scans.word line (by decide : IsWord "for".toList)
      (by rintro c ⟨⟩; decide)).trans ((Scans.space line _).trans ((hword _).trans
        ((Scans.space line _).trans ((Scans.equals line _).trans hstart))))
    rw [countHeader_append]
    simpa [countLexemes] using hall

theorem when {condition : Text} (hcondition : isVariableName condition = true) :
    LineScans (whenHeader condition) (whenLexemes condition) := by
  constructor
  · simp [whenHeader]
  · intro line rest hrest
    have htext : whenHeader condition ++ rest = "if".toList ++ ' ' :: (condition ++
        ' ' :: ("then".toList ++ rest)) := by
      simp [whenHeader]
    have hword : Scans line (condition ++ ' ' :: ("then".toList ++ rest))
        [wordLexeme line condition] line (' ' :: ("then".toList ++ rest)) :=
      Scans.word line (isWord_of_isVariableName hcondition).1 (by rintro c ⟨⟩; decide)
    have hthen : Scans line ("then".toList ++ rest) [wordLexeme line "then"] line rest :=
      Scans.word line (by decide) fun c hc => by
        rw [hrest c hc]
        decide
    rw [htext]
    exact (Scans.word line (by decide) (by rintro c ⟨⟩; decide)).trans
      ((Scans.space line _).trans (hword.trans ((Scans.space line _).trans hthen)))

theorem word {t : Text} (ht : IsWord t) : LineScans t fun line => [wordLexeme line t] := by
  constructor
  · obtain ⟨c, cs, rfl, hc⟩ := ht.start
    rintro ⟨⟩
    exact absurd hc (by decide)
  · intro line rest hrest
    exact Scans.word line ht fun c hc => by
      rw [hrest c hc]
      decide

end LineScans

namespace Program

/-- The tokens of the code, from a line on. -/
def lexemes (line : Nat) : Program → List Lexeme
  | done => []
  | print content endLine rest => printLexemes content endLine line ++ rest.lexemes (line + 1)
  | write name rest => writeLexemes name line ++ rest.lexemes (line + 1)
  | count name start limit body rest =>
    countLexemes name start limit line ++ (body.lexemes (line + 1) ++
      (wordLexeme (line + 1 + body.height) "end" ::
        rest.lexemes (line + 1 + body.height + 1)))
  | when condition body rest =>
    whenLexemes condition line ++ (body.lexemes (line + 1) ++
      (wordLexeme (line + 1 + body.height) "end" ::
        rest.lexemes (line + 1 + body.height + 1)))
  | choose condition body otherwise rest =>
    whenLexemes condition line ++ (body.lexemes (line + 1) ++
      (wordLexeme (line + 1 + body.height) "else" ::
        (otherwise.lexemes (line + 1 + body.height + 1) ++
          (wordLexeme (line + 1 + body.height + 1 + otherwise.height) "end" ::
            rest.lexemes (line + 1 + body.height + 1 + otherwise.height + 1)))))

/-- The names that a program may use are all names of variables. -/
structure Names (conditions counters : List Text) : Prop where
  conditions : ∀ name ∈ conditions, isVariableName name = true
  counters : ∀ name ∈ counters, isVariableName name = true

theorem Names.cons {conditions counters : List Text} (h : Names conditions counters)
    {name : Text} (hname : isVariableName name = true) : Names conditions (name :: counters) :=
  ⟨h.conditions, List.forall_mem_cons.2 ⟨hname, h.counters⟩⟩

/-- The lines of a program, in front of others, are read one after the other. -/
theorem linesScan (unit : Nat) {conditions : List Text} {others : List Text}
    {behind : List Lexeme} (p : Program) :
    ∀ (line depth : Nat) {counters : List Text}, p.Closed conditions counters →
      Names conditions counters → LinesScan (line + p.height) others behind →
      LinesScan line
        (((p.lines depth).map fun (depth, text) => indentText unit depth ++ text) ++ others)
        (p.lexemes line ++ behind) := by
  have hword : ∀ {t : Text}, IsWord t → ∀ depth, LineScans (indentText unit depth ++ t)
      fun line => [wordLexeme line t] := fun ht depth => (LineScans.word ht).indented unit depth
  induction p generalizing others behind with
  | done => exact fun _ _ _ _ _ hothers => hothers
  | print content endLine rest ih =>
    intro line depth _ hclosed hnames hothers
    have hrest := ih (line + 1) depth hclosed hnames (by
      rwa [show line + 1 + rest.height = line + (print content endLine rest).height by
        rw [height]; omega])
    rw [lexemes, List.append_assoc]
    exact .cons ((LineScans.print content endLine).indented unit depth) hrest
  | write name rest ih =>
    intro line depth _ hclosed hnames hothers
    obtain ⟨hname, hclosed⟩ := hclosed
    have hrest := ih (line + 1) depth hclosed hnames (by
      rwa [show line + 1 + rest.height = line + (write name rest).height by rw [height]; omega])
    rw [lexemes, List.append_assoc]
    exact .cons ((LineScans.write (hnames.counters name hname)).indented unit depth) hrest
  | count name start limit body rest ihBody ihRest =>
    intro line depth _ hclosed hnames hothers
    obtain ⟨⟨hname, _⟩, hbody, hrest⟩ := hclosed
    have htail := ihRest (line + 1 + body.height + 1) depth hrest hnames (by
      rwa [show line + 1 + body.height + 1 + rest.height =
        line + (count name start limit body rest).height by rw [height]; omega])
    have hend := LinesScan.cons (hword (by decide : IsWord "end".toList) depth) htail
    have hall := LinesScan.cons ((LineScans.count hname start limit).indented unit depth)
      (ihBody (line + 1) (depth + 1) hbody (hnames.cons hname) hend)
    simpa [lines, lexemes] using hall
  | when condition body rest ihBody ihRest =>
    intro line depth _ hclosed hnames hothers
    obtain ⟨hcondition, hbody, hrest⟩ := hclosed
    have htail := ihRest (line + 1 + body.height + 1) depth hrest hnames (by
      rwa [show line + 1 + body.height + 1 + rest.height =
        line + (when condition body rest).height by rw [height]; omega])
    have hend := LinesScan.cons (hword (by decide : IsWord "end".toList) depth) htail
    have hall := LinesScan.cons
      ((LineScans.when (hnames.conditions condition hcondition)).indented unit depth)
      (ihBody (line + 1) (depth + 1) hbody hnames hend)
    simpa [lines, lexemes] using hall
  | choose condition body otherwise rest ihBody ihOtherwise ihRest =>
    intro line depth _ hclosed hnames hothers
    obtain ⟨hcondition, hbody, hotherwise, hrest⟩ := hclosed
    have htail := ihRest (line + 1 + body.height + 1 + otherwise.height + 1) depth hrest hnames (by
      rwa [show line + 1 + body.height + 1 + otherwise.height + 1 + rest.height =
        line + (choose condition body otherwise rest).height by rw [height]; omega])
    have hend := LinesScan.cons (hword (by decide : IsWord "end".toList) depth) htail
    have helse := LinesScan.cons (hword (by decide : IsWord "else".toList) depth)
      (ihOtherwise (line + 1 + body.height + 1) (depth + 1) hotherwise hnames hend)
    have hall := LinesScan.cons
      ((LineScans.when (hnames.conditions condition hcondition)).indented unit depth)
      (ihBody (line + 1) (depth + 1) hbody hnames helse)
    simpa [lines, lexemes] using hall

/-- **The tokens of the code of a program are those of its statements**, and the end. -/
theorem tokens_code (unit : Nat) {conditions : List Text} {p : Program}
    (hclosed : p.Closed conditions [])
    (hconditions : ∀ name ∈ conditions, isVariableName name = true) :
    ∃ behind, tokens (p.code unit) = p.lexemes 1 ++ [⟨.finish, behind, endShown⟩] := by
  have hlines := linesScan unit p 1 0 hclosed ⟨hconditions, nofun⟩ (.nil _)
  rw [List.append_nil, List.append_nil] at hlines
  obtain ⟨behind, hscans⟩ := hlines.scans
  exact ⟨behind, hscans.tokens_eq⟩

end Program
end Stencil.Lua
