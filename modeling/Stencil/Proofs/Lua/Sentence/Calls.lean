import Stencil.Proofs.Lua.Sentence.Basic

/-! The sentences that lines of a template are compiled to.

There are four of them: a literal is printed, the value of a variable is printed, with or without a
line feed behind it, and another template is included at an indentation. -/
namespace Stencil.Lua

open Reader Reads

/-! ### Tokens -/

def writeLineLexemes (name : Text) (line : Nat) : List Lexeme :=
  [wordLexeme line "print", symbolLexeme line ['('], wordLexeme line "str",
    symbolLexeme line ['('], wordLexeme line name, symbolLexeme line [')'],
    symbolLexeme line ['.', '.'], stringLexeme line ['\n'], symbolLexeme line [','],
    emptyLexeme line, symbolLexeme line [')']]

def includeText (indent path : Text) : Text :=
  "__include(" ++ quote indent ++ ", " ++ quote path ++ ")"

def includeLexemes (indent path : Text) (line : Nat) : List Lexeme :=
  [wordLexeme line "__include", symbolLexeme line ['('], stringLexeme line indent,
    symbolLexeme line [','], stringLexeme line path, symbolLexeme line [')']]

namespace LineScans

theorem writeLine {name : Text} (hname : isVariableName name = true) :
    LineScans (printExpr name true) (writeLineLexemes name) := by
  constructor
  · simp [printExpr]
  · intro line rest _
    have htext : printExpr name true ++ rest = "print".toList ++ '(' :: ("str".toList ++
        '(' :: (name ++ ')' :: ' ' :: '.' :: '.' :: ' ' :: (quote ['\n'] ++
          ',' :: ' ' :: '"' :: '"' :: ')' :: rest))) := by
      rw [show quote ['\n'] = ['"', '\\', 'n', '"'] by decide]
      simp [printExpr]
    rw [htext]
    exact (Scans.printVariable hname line _).trans ((Scans.space line _).trans
      ((Scans.concat line _).trans ((Scans.quote line ['\n'] _).trans
        (Scans.noLineEnd line rest))))

theorem inclusion (indent path : Text) :
    LineScans (includeText indent path) (includeLexemes indent path) := by
  constructor
  · rintro ⟨⟩
  · intro line rest _
    have htext : includeText indent path ++ rest = "__include".toList ++ '(' :: (quote indent ++
        ',' :: ' ' :: (quote path ++ ')' :: rest)) := by
      unfold includeText
      rw [List.append_assoc, List.append_assoc, List.append_assoc, List.append_assoc]
      rfl
    rw [htext]
    exact (Scans.word line (by decide) (by rintro c ⟨⟩; decide)).trans
      ((Scans.openParen line _).trans ((Scans.quote line indent _).trans
        ((Scans.comma line _).trans ((Scans.space line _).trans
          ((Scans.quote line path _).trans (Scans.closeParen line rest))))))

end LineScans

/-! ### Statements -/

namespace Reads

variable {s : Cursor} {rest : List Lexeme} {k line : Nat}

theorem writeLineStatement {name : Text} (hname : words.contains name = false)
    (hk : 3 ≤ k) (h : EndsStatement rest) :
    Reads (grammar k).statement (s.to (writeLineLexemes name line ++ rest))
      (.call (.call (.name "print" line)
        [.binary .concat (.call (.name "str" line) [.name name line] line)
          (.string (Text.bytes ['\n'])) line, .string []] line)) (s.to rest) := by
  obtain ⟨k, rfl⟩ : ∃ n, k = n + 3 := ⟨k - 3, by omega⟩
  have hright : Reads ((grammar (k + 1)).expr 8)
      (s.to (stringLexeme line ['\n'] :: symbolLexeme line [','] :: emptyLexeme line ::
        symbolLexeme line [')'] :: rest)) (.string (Text.bytes ['\n']))
      (s.to (symbolLexeme line [','] :: emptyLexeme line :: symbolLexeme line [')'] :: rest)) :=
    string rfl (endsExpr_comma _ _)
  exact callStatement (by decide) (beginsArgument_word _ _ _)
    (exprs_two (List.cons_ne_nil _ _) (ready_empty _ _)
      (expr_of_operators (ready_word _ _ _) (by rfl)
        (simple_name (by decide) (strCall hname (ready_symbol _ _ _) rfl))
        (concat (by decide) (ready_string _ _ _) (endsExpr_comma _ _) hright))
      emptyArgument) h

theorem includeStatement (indent path : Text) (hk : 3 ≤ k) (h : EndsStatement rest) :
    Reads (grammar k).statement (s.to (includeLexemes indent path line ++ rest))
      (.call (.call (.name "__include" line) [.string indent.bytes, .string path.bytes] line))
      (s.to rest) := by
  obtain ⟨k, rfl⟩ : ∃ n, k = n + 2 := ⟨k - 2, by omega⟩
  exact callStatement (by decide) (beginsArgument_string _ _ _)
    (exprs_two (List.cons_ne_nil _ _) (ready_string _ _ _) (string rfl (endsExpr_comma _ _))
      (string rfl (endsExpr_closeParen _ _))) h

end Reads

/-! ### Sentences -/

namespace Sentence

variable {σ : Type} {world : σ} {context : Context σ} {name t : Text}

def print (content : Text) (endLine : Bool) : Sentence where
  text := printLiteral content endLine
  function := "print"
  behind line := (printLexemes content endLine line).tail
  arguments _ := .string content.bytes :: if endLine then [] else [.string []]
  begins := by decide
  endsLine := Program.endsLine_printLiteral content endLine
  scans := LineScans.print content endLine
  reads hk h := printStatement content endLine (by omega) h

theorem says_print (content : Text) (endLine : Bool) :
    (print content endLine).Says world context (content ++ if endLine then ['\n'] else []) :=
  fun line h => Writes.printStatement endLine line (h.template "print" .print (by decide))
    fun _ => .pure _ _

def write (name : Text) (hname : isVariableName name = true) : Sentence where
  text := printExpr name false
  function := "print"
  behind line := (writeLexemes name line).tail
  arguments line := [.call (.name "str" line) [.name name line] line, .string []]
  begins := by decide
  endsLine := EndsLine.append ⟨by decide, by decide⟩ _
  scans := LineScans.write hname
  reads hk h := writeStatement (isWord_of_isVariableName hname).2 hk h

def writeLine (name : Text) (hname : isVariableName name = true) : Sentence where
  text := printExpr name true
  function := "print"
  behind line := (writeLineLexemes name line).tail
  arguments line := [.binary .concat (.call (.name "str" line) [.name name line] line)
    (.string (Text.bytes ['\n'])) line, .string []]
  begins := by decide
  endsLine := EndsLine.append ⟨by decide, by decide⟩ _
  scans := LineScans.writeLine hname
  reads hk h := writeLineStatement (isWord_of_isVariableName hname).2 hk h

/-- A call of `str` with a variable that is a text. -/
theorem writes_strCall {depth : Nat} {env : Env} {m : Machine} (line : Nat)
    (ht : IsText context.scope context.functions name t)
    (h : Provides context.scope context.functions env m) :
    Writes world (eval (invoke context (depth + 2))
      (.call (.name "str" line) [.name name line] line) env) m [.ofText t] [] :=
  .call (h.template "str" .str (by decide)) line
    (fun hm => .name ((h.text name t ht).later hm) line) fun _ _ => .str_ofText t

theorem says_write (ht : IsText context.scope context.functions name t) :
    (write name ht.isName).Says world context t := by
  intro depth env m line h
  have hprint : Writes world (exec (invoke context (depth + 2)) _ env) m (.proceed, env) _ :=
    Writes.printStatement false line (h.template "print" .print (by decide))
      fun hm => writes_strCall line ht (h.later hm)
  have hend : t ++ (if false = true then ['\n'] else []) = t := List.append_nil t
  rwa [hend] at hprint

theorem says_writeLine (ht : IsText context.scope context.functions name t) :
    (writeLine name ht.isName).Says world context (t ++ ['\n']) := by
  intro depth env m line h
  have hconcat : ∀ {m'}, Extends m m' [] → Writes world (eval (invoke context (depth + 2))
      (.binary .concat (.call (.name "str" line) [.name name line] line)
        (.string (Text.bytes ['\n'])) line) env) m' [.ofText (t ++ ['\n'])] [] :=
    fun hm => .concat line (writes_strCall line ht (h.later hm)) fun _ => .pure _ _
  have hprint := Writes.printStatement false line (h.template "print" .print (by decide)) hconcat
  have hend : t ++ ['\n'] ++ (if false = true then ['\n'] else []) = t ++ ['\n'] :=
    List.append_nil _
  rwa [hend] at hprint

def inclusion (indent path : Text) : Sentence where
  text := includeText indent path
  function := "__include"
  behind line := (includeLexemes indent path line).tail
  arguments _ := [.string indent.bytes, .string path.bytes]
  begins := by decide
  endsLine := EndsLine.append ⟨by decide, by decide⟩ _
  scans := LineScans.inclusion indent path
  reads hk h := includeStatement indent path hk h

/-- An include writes what the host has for its path. -/
theorem says_inclusion (indent : Text) {path included : Text}
    (h : (context.host path .empty).run.run world = (.ok included, world)) :
    (inclusion indent path).Says world context (indentLines indent (chomp included) ++ ['\n']) :=
  fun line hprovides => .callStatement
    (.call (hprovides.template "__include" .includeIndented (by decide)) line
      (fun _ => .evalList_cons (.pure _ _) rfl fun _ => .pure _ _)
      fun _ _ => .includeIndented h)

end Sentence
end Stencil.Lua
