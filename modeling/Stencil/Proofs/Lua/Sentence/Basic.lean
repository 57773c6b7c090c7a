import Mathlib.Data.List.Forall2
import Stencil.Proofs.Lua.Program.Script

/-! Scripts of single lines.

A `Sentence` is a call that takes one line of a script. A script of sentences is read sentence by
sentence (`Sentence.parse_join`), and its output is what they write, one after the other
(`Sentence.execute_join`). What a sentence writes may hang on the world outside the script, which
it leaves as it found it. -/
namespace Stencil

namespace Lua

open Reader Reads

/-- A call of a function by its name that is a line of a script, and how the line is read. -/
structure Sentence where
  text : Text
  function : Text
  /-- The tokens behind the name of the function. -/
  behind : Nat → List Lexeme
  arguments : Nat → List Expr
  begins : function ∉ endWords
  endsLine : EndsLine text
  scans : LineScans text fun line => wordLexeme line function :: behind line
  reads : ∀ {s : Cursor} {line k : Nat} {rest : List Lexeme}, 3 ≤ k → EndsStatement rest →
    Reads (grammar k).statement (s.to (wordLexeme line function :: (behind line ++ rest)))
      (.call (.call (.name function line) (arguments line) line)) (s.to rest)

namespace Sentence

/-! ### Reading -/

def statement (s : Sentence) (line : Nat) : Statement :=
  .call (.call (.name s.function line) (s.arguments line) line)

/-- The tokens of some lines, from a line on. -/
def lexemes (line : Nat) : List Sentence → List Lexeme
  | [] => []
  | s :: rest => (wordLexeme line s.function :: s.behind line) ++ lexemes (line + 1) rest

/-- The syntax tree of some lines, from a line on. -/
def chunk (line : Nat) : List Sentence → List Statement
  | [] => []
  | s :: rest => s.statement line :: chunk (line + 1) rest

theorem linesScan (sentences : List Sentence) (line : Nat) :
    LinesScan line (sentences.map text) (lexemes line sentences) := by
  induction sentences generalizing line with
  | nil => exact .nil line
  | cons s rest ih => exact .cons s.scans (ih (line + 1))

theorem endsStatement_lexemes (sentences : List Sentence) (line : Nat) {rest : List Lexeme}
    (h : EndsBlock rest) : EndsStatement (lexemes line sentences ++ rest) := by
  cases sentences with
  | nil => exact h.endsStatement
  | cons s others => exact endsStatement_word _ _ _

theorem reads_chunk (sentences : List Sentence) {line k fuel : Nat} {s : Cursor}
    {rest : List Lexeme} (hk : 3 ≤ k) (h : EndsBlock rest)
    (hfuel : (lexemes line sentences ++ rest).length < fuel) :
    Reads (statements (grammar k) fuel) (s.to (lexemes line sentences ++ rest))
      (chunk line sentences) (s.to rest) := by
  induction sentences generalizing line fuel with
  | nil => exact statements_nil h
  | cons sentence others ih =>
    obtain ⟨fuel, rfl⟩ : ∃ n, fuel = n + 1 := ⟨fuel - 1, by omega⟩
    rw [lexemes, List.append_assoc, List.cons_append] at hfuel ⊢
    rw [List.length_cons, List.length_append] at hfuel
    exact statements_cons sentence.begins
      (sentence.reads hk (endsStatement_lexemes others (line + 1) h))
      (ih (by omega))

/-- A script of sentences is read. -/
theorem parse_join (sentences : List Sentence) :
    parse (Text.join "\n" (sentences.map text)) = .ok (chunk 1 sentences) := by
  obtain ⟨behind, hscans⟩ := (linesScan sentences 1).scans
  have hfinish : EndsBlock [⟨.finish, behind, endShown⟩] := ⟨_, _, rfl, .inl rfl⟩
  exact parse_eq hscans.tokens_eq (endsStatement_lexemes sentences 1 hfinish) fun fuel hfuel =>
    reads_chunk sentences (by decide) hfinish hfuel

end Sentence

/-! ### Running -/

/-- A script finds a text under the name of a variable. -/
structure IsText (scope : Scope) (functions : Table HostFunction) (name t : Text) : Prop where
  isName : isVariableName name = true
  value : scope.get? name = some (.string t)
  reserved : name ∉ Settings.reservedNames
  functions : name ∉ functions.names
  globals : name ≠ globalsName

section Running

variable {σ : Type} {world : σ} {context : Context σ} {scope : Scope}
  {functions : Table HostFunction} {env : Env} {m m' : Machine} {t : Text}

/-- An environment with the functions for templates and the texts of a scope. -/
structure Provides (scope : Scope) (functions : Table HostFunction) (env : Env) (m : Machine) :
    Prop where
  template : ∀ name f, (name, f) ∈ TemplateFunction.named → Finds env m name (.native (.template f))
  text : ∀ name t, IsText scope functions name t → Finds env m name (.ofText t)

theorem Provides.later (h : Provides scope functions env m) (hm : Extends m m' t) :
    Provides scope functions env m' :=
  ⟨fun name f hf => (h.template name f hf).later hm, fun name t ht => (h.text name t ht).later hm⟩

/-- A script begins with what sentences need. -/
theorem Furnished.provides (h : Furnished context m) (body : List Statement) :
    Provides context.scope context.functions (scriptEnv scriptName m.cells.size [])
      (m.start scriptName body) := by
  have hnames : ∀ e ∈ TemplateFunction.named, e.1 ≠ globalsName := by decide
  refine ⟨fun name f hf => .start h.tables (hnames _ hf) (h.template name f hf) rfl, ?_⟩
  intro name t ht
  obtain ⟨e, hfind, hvalue⟩ := Option.map_eq_some_iff.1 ht.value
  obtain rfl : e.1 = name := by simpa using List.find?_some hfind
  have hmem : (e.1, Json.string t) ∈ context.scope.entries :=
    hvalue ▸ List.mem_of_find?_eq_some hfind
  exact .start h.tables ht.globals (h.plain _ _ _ hmem rfl ht.reserved ht.functions) rfl

namespace Sentence

/-- In this world the sentence writes a text and changes nothing. -/
def Says (world : σ) (context : Context σ) (s : Sentence) (t : Text) : Prop :=
  ∀ {depth : Nat} {env : Env} {m : Machine} (line : Nat),
    Provides context.scope context.functions env m →
      Writes world (exec (invoke context (depth + 2)) (s.statement line) env) m (.proceed, env) t

/-- Sentences write one after the other. -/
theorem writes_chunk {sentences : List Sentence} {texts : List Text}
    (h : List.Forall₂ (Says world context) sentences texts) (depth line : Nat)
    (hm : Provides context.scope context.functions env m) :
    Writes world (execBlock (invoke context (depth + 2)) (chunk line sentences) env) m
      (.proceed, env) texts.flatten := by
  induction h generalizing line m with
  | nil => exact .execBlock_nil
  | cons hsentence _ ih =>
    exact .execBlock_cons (hsentence line hm) fun hlater => ih (line + 1) (hm.later hlater)

/-- **The output of a script of sentences** is what they write. -/
theorem execute_join {sentences : List Sentence} {texts : List Text} {host : Host σ}
    (hstarts : Starts scope functions)
    (h : List.Forall₂ (Says world ⟨host, scope, functions⟩) sentences texts) :
    (execute ⟨Text.join "\n" (sentences.map text), scope, functions⟩ host).run world =
      (.ok texts.flatten, world) :=
  execute_furnished hstarts (parse_join sentences) fun hfurnished =>
    writes_chunk h _ 1 (hfurnished.provides _)

end Sentence
end Running
end Lua

/-! ### Scripts -/

namespace Script

open Lua

variable {script : Script} {sentences : List Sentence}

/-- The statements of a script are sentences, at no depth. -/
def IsFlat (script : Script) (sentences : List Sentence) : Prop :=
  script.statements.map Statement.placed = sentences.map fun s => (0, s.text)

theorem IsFlat.code_eq (h : script.IsFlat sentences) :
    script.code = Text.join "\n" (sentences.map Sentence.text) := by
  have hlines : script.lines = sentences.map Sentence.text := by
    have hplaced := congrArg (List.map fun p : Nat × Text =>
      indentText script.indentUnit p.1 ++ p.2) h
    rw [List.map_map, List.map_map] at hplaced
    exact hplaced
  have hink : (Text.join "\n" (sentences.map Sentence.text)).EndsInk := by
    by_cases hnil : sentences = []
    · rw [hnil]
      exact nofun
    · refine (endsLine_join (mt List.map_eq_nil_iff.1 hnil) fun t ht => ?_).2
      obtain ⟨s, _, rfl⟩ := List.mem_map.1 ht
      exact s.endsLine
  rw [code, hlines]
  exact Text.trimEnd_of_endsInk hink

/-- **The output of a flat script** is what its sentences write. -/
theorem IsFlat.execute_code {σ : Type} {scope : Scope} {functions : Table HostFunction}
    {host : Host σ} {world : σ} {texts : List Text} (h : script.IsFlat sentences)
    (hstarts : Starts scope functions)
    (hsaid : List.Forall₂ (Sentence.Says world ⟨host, scope, functions⟩) sentences texts) :
    (execute ⟨script.code, scope, functions⟩ host).run world = (.ok texts.flatten, world) := by
  rw [h.code_eq]
  exact Sentence.execute_join hstarts hsaid

end Script
end Stencil
