import Stencil.Proofs.Line.Source
import Stencil.Proofs.Script.Directive
import Stencil.Proofs.Script.Items

/-! Line ends of either kind.

A source is read twice, for the directive and for its lines, and each reader has a rule of its own
for a carriage return before a line feed: to the one it is a blank like the line feed, to the other
a part of the terminator. With every line feed of a source turned into such a pair (`withReturns`)
the directive is found in the same place with the same digits (`digits?_withReturns`), and the lines
are the same lines (`ofSource_withReturns`). So the template compiles to the same script, or fails
in the same way (`compile_withReturns`). -/
namespace Stencil

/-! ### Texts -/

namespace Text

/-- A text with a carriage return before every line feed. -/
def withReturns : Text → Text
  | [] => []
  | c :: t => if c = '\n' then '\r' :: '\n' :: withReturns t else c :: withReturns t

theorem withReturns_lineFeed (t : Text) :
    withReturns ('\n' :: t) = '\r' :: '\n' :: withReturns t := if_pos rfl

theorem withReturns_cons {c : Char} (h : c ≠ '\n') (t : Text) :
    withReturns (c :: t) = c :: withReturns t := if_neg h

theorem withReturns_append (t rest : Text) :
    withReturns (t ++ rest) = withReturns t ++ withReturns rest := by
  induction t with
  | nil => rfl
  | cons c cs ih =>
    by_cases hc : c = '\n'
    · rw [hc, List.cons_append, withReturns_lineFeed, withReturns_lineFeed, ih]
      rfl
    · rw [List.cons_append, withReturns_cons hc, withReturns_cons hc, ih, List.cons_append]

theorem withReturns_of_not_mem {t : Text} (h : '\n' ∉ t) : withReturns t = t := by
  induction t with
  | nil => rfl
  | cons c cs ih =>
    rw [List.mem_cons, not_or] at h
    rw [withReturns_cons (Ne.symm h.1), ih h.2]

/-- A part on one line is found in front of the same rest. -/
theorem after?_withReturns {part : Text} (hfeed : '\n' ∉ part) (hreturn : '\r' ∉ part) (t : Text) :
    after? part (withReturns t) = (after? part t).map withReturns := by
  induction part generalizing t with
  | nil => rfl
  | cons p ps ih =>
    rw [List.mem_cons, not_or] at hfeed hreturn
    cases t with
    | nil => rfl
    | cons c cs =>
      by_cases hc : c = '\n'
      · rw [hc, withReturns_lineFeed, after?_cons_of_ne (Ne.symm hreturn.1),
          after?_cons_of_ne (Ne.symm hfeed.1)]
        rfl
      · rw [withReturns_cons hc]
        by_cases hp : p = c
        · rw [hp, after?_cons_self, after?_cons_self, ih hfeed.2 hreturn.2]
        · rw [after?_cons_of_ne hp, after?_cons_of_ne hp]
          rfl

theorem trimStart_withReturns (t : Text) : (withReturns t).trimStart = withReturns t.trimStart := by
  induction t with
  | nil => rfl
  | cons c cs ih =>
    by_cases hc : c = '\n'
    · rw [hc, withReturns_lineFeed]
      exact ih
    · rw [withReturns_cons hc, trimStart, trimStart, List.dropWhile_cons, List.dropWhile_cons]
      split
      · exact ih
      · exact (withReturns_cons hc cs).symm

/-- A run of characters that ends before either line end is the same run. -/
theorem takeWhile_withReturns {p : Char → Bool} (hfeed : p '\n' = false) (hreturn : p '\r' = false)
    (t : Text) : (withReturns t).takeWhile p = t.takeWhile p := by
  induction t with
  | nil => rfl
  | cons c cs ih =>
    by_cases hc : c = '\n'
    · rw [hc, withReturns_lineFeed, List.takeWhile_cons_of_neg (by rw [hreturn]; decide),
        List.takeWhile_cons_of_neg (by rw [hfeed]; decide)]
    · rw [withReturns_cons hc, List.takeWhile_cons, List.takeWhile_cons, ih]

/-- Each ended line has one more carriage return. -/
theorem rawLines_withReturns (t : Text) :
    rawLines (withReturns t) = (rawLines t).map fun l => (if l.2 then l.1 ++ ['\r'] else l.1, l.2) := by
  induction t using induction_lines with
  | nil => rfl
  | line t ht hne =>
    rw [withReturns_of_not_mem ht, rawLines_line ht hne]
    rfl
  | append t rest ht ih =>
    have hsplit : withReturns (t ++ '\n' :: rest) = (t ++ ['\r']) ++ '\n' :: withReturns rest := by
      rw [withReturns_append, withReturns_of_not_mem ht, withReturns_lineFeed, List.append_assoc]
      rfl
    have hline : '\n' ∉ t ++ ['\r'] := List.not_mem_append ht (by decide)
    rw [hsplit, rawLines_append hline, rawLines_append ht, ih, List.map_cons]
    rfl

end Text

/-! ### Lines -/

/-- The lines of a source are known from what its raw lines hold but for carriage returns at their
ends. -/
theorem Line.ofSource_eq_of_map {s s' : Text}
    (h : s.rawLines.map (fun l => (l.1.dropReturn, l.2)) =
      s'.rawLines.map fun l => (l.1.dropReturn, l.2)) : ofSource s = ofSource s' := by
  have hlines : ∀ s : Text, ofSource s =
      ((s.rawLines.map fun l => (l.1.dropReturn, l.2)).zipIdx).map fun l =>
        ⟨l.2 + 1, l.1.1, l.1.2,
          l.2 + 1 == (s.rawLines.map fun l => (l.1.dropReturn, l.2)).length⟩ := by
    intro s
    rw [List.length_map, List.zipIdx_map, List.map_map]
    rfl
  rw [hlines s, hlines s', h]

theorem Line.ofSource_withReturns {s : Text} (h : '\r' ∉ s) :
    ofSource s.withReturns = ofSource s := by
  refine ofSource_eq_of_map ?_
  rw [Text.rawLines_withReturns, List.map_map]
  refine List.map_congr_left fun l hl => ?_
  have hlast : l.1.getLast? ≠ some '\r' :=
    fun heq => h (Text.mem_of_mem_rawLines hl (List.mem_of_getLast? heq))
  obtain ⟨content, ended⟩ := l
  cases ended with
  | true =>
    exact congrArg (·, true)
      ((Text.dropReturn_append_return content).trans (Text.dropReturn_of_ne hlast).symm)
  | false => rfl

/-! ### The directive -/

namespace Directive

variable {d : Delimiters}

theorem digitsHere?_withReturns (hleft : '\r' ∉ d.left) (t : Text) :
    digitsHere? d t.withReturns = digitsHere? d t := by
  unfold digitsHere?
  rw [Text.after?_withReturns d.one_line.1 hleft]
  cases Text.after? d.left t with
  | none => rfl
  | some code =>
    simp only [Option.map_some, Option.bind_eq_bind, Option.bind_some]
    rw [Text.trimStart_withReturns, Text.after?_withReturns (by decide) (by decide)]
    cases Text.after? "__indent__" code.trimStart with
    | none => rfl
    | some value =>
      simp only [Option.map_some, Option.bind_some]
      rw [Text.trimStart_withReturns, Text.after?_withReturns (by decide) (by decide)]
      cases Text.after? "=" value.trimStart with
      | none => rfl
      | some number =>
        simp only [Option.map_some, Option.bind_some]
        rw [Text.trimStart_withReturns, Text.takeWhile_withReturns (by decide) (by decide)]

/-- Where the one search skips a line feed, the other skips a line end of two characters. -/
theorem digits?_withReturns (hleft : '\r' ∉ d.left) {source : Text} (h : '\r' ∉ source) :
    digits? d source.withReturns = digits? d source := by
  induction source with
  | nil => rfl
  | cons c cs ih =>
    rw [List.mem_cons, not_or] at h
    have hhere := digitsHere?_withReturns hleft (c :: cs)
    rw [digits?_cons (Ne.symm h.1), ← hhere]
    by_cases hc : c = '\n'
    · rw [hc, Text.withReturns_lineFeed, digits?_lineEnd, ih h.2, if_pos (.inr (.inr rfl))]
    · rw [Text.withReturns_cons hc, digits?_cons (Ne.symm h.1), ih h.2]

theorem unit?_withReturns (hleft : '\r' ∉ d.left) {source : Text} (h : '\r' ∉ source) :
    unit? d source.withReturns = unit? d source := by
  rw [unit?, unit?, digits?_withReturns hleft h]

end Directive

namespace Template

/-- **The kind of line end does not matter.** A source without carriage returns, and the source with
one before each of its line feeds, ask for the same indent unit, and are compiled to the same script
or fail with the same error, at the same line with the same content. -/
theorem compile_withReturns {d : Delimiters} (hleft : '\r' ∉ d.left) {source : Text}
    (hsource : '\r' ∉ source) (unit : Nat) (path : Option Path) :
    Directive.unit? d source.withReturns = Directive.unit? d source ∧
      compile d unit ⟨source.withReturns, path⟩ = compile d unit ⟨source, path⟩ := by
  have hunit := Directive.unit?_withReturns hleft hsource
  refine ⟨hunit, ?_⟩
  have hlines := Line.ofSource_withReturns hsource
  unfold compile
  dsimp only
  rw [hunit, hlines]
  rfl

/-- A directive behind a blank line, a block with a blank line in it, and a call that is not
closed. -/
theorem compile_withReturns_directive :
    let source : Text := "\n<% __indent__ = 2\n<% if x then\n\n  a"
    source.withReturns = "\r\n<% __indent__ = 2\r\n<% if x then\r\n\r\n  a".toList ∧
    Directive.unit? .standard source.withReturns = .ok (some 2) ∧
    compile .standard 4 ⟨source.withReturns, none⟩ =
      .ok ⟨2, [⟨0, "print('')", .real⟩, ⟨0, "__indent__ = 2", .real⟩, ⟨0, "if x then", .real⟩,
        ⟨1, "print('')", .real⟩, ⟨1, "print('  a', \"\")", .real⟩, ⟨0, "end", .phantom⟩]⟩ ∧
    compile .standard 4 ⟨Text.withReturns "\n<% include('b'\n", none⟩ =
      .error (.unbalancedCall "given template string" 2 "include('b'") := by
  intro source
  have hleft : '\r' ∉ Delimiters.standard.left := by decide
  have hsource : '\r' ∉ source := by decide
  have hopen : '\r' ∉ ("\n<% include('b'\n" : Text) := by decide
  have hfound := compile_withReturns hleft hsource 4 none
  have hfails := compile_withReturns hleft hopen 4 none
  refine ⟨by decide, ?_, ?_, ?_⟩
  · rw [hfound.1]
    rfl
  · rw [hfound.2]
    exact compile_eq_of_toOption (by decide +kernel)
  · rw [hfails.2]
    rfl

end Template
end Stencil
