import Stencil.Line.Basic
import Stencil.Proofs.Text.Lines

/-! The lines of a source.

What the lines of a source hold is what stands between its line feeds (`Line.map_ofSource`), and
together they are the source but for the carriage returns in its line ends and one at its end
(`flatten_text_ofSource_append`). -/
namespace Stencil

namespace Line

variable {source : Text} {line : Line}

/-- The text of a line, with a line feed if there is one at its end. -/
def text (line : Line) : Text := line.content ++ if line.terminated then ['\n'] else []

/-- Lines are the raw lines of their source, without carriage returns at the end. -/
theorem map_ofSource {α : Type} (f : Text → Bool → α) (source : Text) :
    (ofSource source).map (fun line => f line.content line.terminated) =
      source.rawLines.map fun l => f l.1.dropReturn l.2 := by
  unfold ofSource
  rw [List.map_map]
  refine Eq.trans ?_ (congrArg (List.map _) (List.zipIdx_map_fst 0 source.rawLines))
  rw [List.map_map]
  rfl

theorem length_ofSource (source : Text) : (ofSource source).length = source.rawLines.length := by
  rw [ofSource, List.length_map, List.length_zipIdx]

theorem getElem_ofSource {i : Nat} (hi : i < (ofSource source).length)
    (hraw : i < source.rawLines.length) :
    (ofSource source)[i] = ⟨i + 1, source.rawLines[i].1.dropReturn, source.rawLines[i].2,
      i + 1 == source.rawLines.length⟩ := by
  simp [ofSource]

/-- What the lines of a source hold. -/
def contents (source : Text) : List Text := (ofSource source).map content

theorem contents_eq (source : Text) :
    contents source = source.rawLines.map fun l => l.1.dropReturn :=
  map_ofSource (fun content _ => content) source

theorem contents_append {t : Text} (h : '\n' ∉ t) (rest : Text) :
    contents (t ++ '\n' :: rest) = t.dropReturn :: contents rest := by
  rw [contents_eq, contents_eq, Text.rawLines_append h, List.map_cons]

theorem contents_line {t : Text} (h : '\n' ∉ t) (hne : t ≠ []) : contents t = [t.dropReturn] := by
  rw [contents_eq, Text.rawLines_line h hne, List.map_singleton]

theorem contents_cons {c : Char} (hfeed : c ≠ '\n') (hreturn : c ≠ '\r') {first : Text}
    {rest : List Text} (h : contents source = first :: rest) :
    contents (c :: source) = (c :: first) :: rest := by
  have hdrop : ∀ line : Text, Text.dropReturn (c :: line) = c :: Text.dropReturn line :=
    Text.dropReturn_append (t := [c]) fun heq => hreturn (Option.some.inj heq)
  rw [contents_eq] at h ⊢
  rw [Text.rawLines, if_neg hfeed]
  cases hraw : source.rawLines with
  | nil =>
    rw [hraw] at h
    cases h
  | cons l lines =>
    rw [hraw, List.map_cons] at h
    rw [List.map_cons, hdrop, (List.cons.inj h).1, (List.cons.inj h).2]

/-- What is at the start of a source and has no line feed is at the start of the first line. -/
theorem exists_contents_append {t : Text} (h : '\n' ∉ t) (hne : t ≠ [])
    (hlast : t.getLast? ≠ some '\r') (rest : Text) :
    ∃ more after, contents (t ++ rest) = (t ++ more) :: after ∧ more <+: rest := by
  by_cases hmem : '\n' ∈ rest
  · obtain ⟨more, behind, rfl, hmore⟩ := List.eq_append_cons_of_mem hmem
    refine ⟨Text.dropReturn more, contents behind, ?_,
      (Text.dropReturn_isPrefix more).trans (List.prefix_append _ _)⟩
    rw [← List.append_assoc, contents_append (List.not_mem_append h hmore),
      Text.dropReturn_append hlast]
  · refine ⟨rest.dropReturn, [], ?_, Text.dropReturn_isPrefix rest⟩
    rw [contents_line (List.not_mem_append h hmem) (List.append_ne_nil_of_left_ne_nil hne _),
      Text.dropReturn_append hlast]

/-- A line and its place among the raw lines. -/
theorem exists_getElem_of_mem (h : line ∈ ofSource source) :
    ∃ i, ∃ hraw : i < source.rawLines.length,
      line = ⟨i + 1, source.rawLines[i].1.dropReturn, source.rawLines[i].2,
        i + 1 == source.rawLines.length⟩ := by
  obtain ⟨i, hi, rfl⟩ := List.getElem_of_mem h
  have hraw : i < source.rawLines.length := length_ofSource source ▸ hi
  exact ⟨i, hraw, getElem_ofSource hi hraw⟩

theorem map_number_ofSource (source : Text) :
    (ofSource source).map number = List.range' 1 (ofSource source).length := by
  refine List.ext_getElem (by simp) fun i hi _ => ?_
  rw [List.length_map] at hi
  rw [List.getElem_map, getElem_ofSource hi (length_ofSource source ▸ hi), List.getElem_range']
  show i + 1 = 1 + 1 * i
  omega

theorem ofSource_eq_nil_iff : ofSource source = [] ↔ source = [] := by
  constructor
  · intro h
    have hraw : source.rawLines = [] := by
      rw [← List.length_eq_zero_iff, ← length_ofSource, h, List.length_nil]
    rw [← Text.unlines_rawLines source, hraw]
    rfl
  · rintro rfl
    rfl

theorem lineFeed_not_mem_content (h : line ∈ ofSource source) : '\n' ∉ line.content := by
  obtain ⟨⟨⟨content, terminated⟩, index⟩, hraw, rfl⟩ := List.mem_map.1 h
  intro hmem
  exact Text.lineFeed_not_mem_rawLines source _ (List.fst_mem_of_mem_zipIdx hraw)
    (Text.mem_of_mem_dropReturn hmem)

theorem mem_of_mem_content (h : line ∈ ofSource source) {c : Char} (hc : c ∈ line.content) :
    c ∈ source := by
  obtain ⟨⟨⟨content, terminated⟩, index⟩, hraw, rfl⟩ := List.mem_map.1 h
  exact Text.mem_of_mem_rawLines (List.fst_mem_of_mem_zipIdx hraw) (Text.mem_of_mem_dropReturn hc)

theorem content_isInfix (h : line ∈ ofSource source) : line.content <:+: source := by
  obtain ⟨⟨⟨content, terminated⟩, index⟩, hraw, rfl⟩ := List.mem_map.1 h
  have hline : content ++ (if terminated then ['\n'] else []) <:+: Text.unlines source.rawLines :=
    List.infix_of_mem_flatten (List.mem_map.2 ⟨_, List.fst_mem_of_mem_zipIdx hraw, rfl⟩)
  rw [Text.unlines_rawLines] at hline
  exact (Text.dropReturn_isPrefix content).isInfix.trans
    ((List.prefix_append _ _).isInfix.trans hline)

/-- Without carriage returns, what a raw line holds is what a line holds. -/
theorem exists_content_eq (hreturn : '\r' ∉ source) {l : Text × Bool} (hl : l ∈ source.rawLines) :
    ∃ line ∈ ofSource source, line.content = l.1 := by
  have hdrop : l.1.dropReturn = l.1 := Text.dropReturn_of_ne fun hlast =>
    hreturn (Text.mem_of_mem_rawLines hl (List.mem_of_getLast? hlast))
  have hmem : l.1.dropReturn ∈ (ofSource source).map fun line => line.content := by
    rw [map_ofSource fun content _ => content]
    exact List.mem_map_of_mem hl
  rw [hdrop] at hmem
  exact List.mem_map.1 hmem

end Line

/-- The lines of a source make up the source, with their ends normalized, but for a carriage return at
its end. -/
theorem flatten_text_ofSource_append (s : Text) :
    ((Line.ofSource s).map Line.text).flatten ++ s.lastReturn = s.normalizeLineEnds := by
  have hlines : (Line.ofSource s).map Line.text = s.rawLines.map fun l =>
      l.1.dropReturn ++ if l.2 then ['\n'] else [] :=
    Line.map_ofSource (fun content terminated => content ++ if terminated then ['\n'] else []) s
  rw [hlines, ← Text.unlines_contents_append, Text.unlines, List.map_map]
  rfl

theorem flatten_text_ofSource {s : Text} (hs : s.getLast? ≠ some '\r') :
    ((Line.ofSource s).map Line.text).flatten = s.normalizeLineEnds := by
  rw [← flatten_text_ofSource_append, Text.lastReturn, if_neg hs, List.append_nil]

namespace Line

/-- **Lines lose nothing but the carriage returns of line ends**, and one at the end of the source,
which no line feed follows: without it they are put together to the source again. They are
numbered from one, none has a line feed in it, only the last one can be without one at its end, and
the last one is marked as such. -/
theorem ofSource_lossless (source : Text) :
    ((ofSource source).map text).flatten ++ source.lastReturn = source.normalizeLineEnds ∧
    (((ofSource source).map text).flatten = source.normalizeLineEnds ↔
      source.getLast? ≠ some '\r') ∧
    (ofSource source).map number = List.range' 1 (ofSource source).length ∧
    (∀ line ∈ ofSource source, '\n' ∉ line.content ∧
      (line.terminated = false → line.last = true) ∧
      (line.last = true ↔ line.number = (ofSource source).length)) ∧
    (ofSource source = [] ↔ source = []) := by
  refine ⟨flatten_text_ofSource_append source, ⟨fun h hlast => ?_, flatten_text_ofSource⟩,
    map_number_ofSource source, fun line hline => ⟨lineFeed_not_mem_content hline, ?_⟩,
    ofSource_eq_nil_iff⟩
  · have hwhole := flatten_text_ofSource_append source
    rw [h, Text.lastReturn, if_pos hlast] at hwhole
    exact absurd hwhole (by simp)
  · obtain ⟨i, hraw, rfl⟩ := exists_getElem_of_mem hline
    rw [length_ofSource, beq_iff_eq]
    refine ⟨fun hopen => Decidable.byContradiction fun hlast => ?_, Iff.rfl⟩
    have hended := Text.snd_getElem_rawLines source (i := i) (by omega)
    exact Bool.false_ne_true (hopen.symm.trans hended)

/-- A carriage return at the end of a source is in no line. -/
theorem ofSource_return :
    ofSource "a\r" = [⟨1, "a", false, true⟩] ∧
      ((ofSource "a\r").map text).flatten ≠ Text.normalizeLineEnds "a\r" := by
  decide

end Line
end Stencil
