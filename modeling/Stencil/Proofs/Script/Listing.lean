import Stencil.Script.Basic
import Stencil.Proofs.Text.Decimal
import Stencil.Proofs.Text.Lines

/-! Numbered listings are read back.

A row of a listing is a margin of one width, the same for all rows, and a line of the code
(`row_eq`, `drop_row`), so the code is what stands behind the margins (`numberedListing_readable`),
whatever its lines contain. -/
namespace Stencil

namespace Listing

variable {code : Text} {count index : Nat} {line : Text}

/-- The digits that the number of the last line takes. -/
def width (count : Nat) : Nat := (Text.ofNat count).length

/-- A line, numbered, of a listing that has so many. -/
def row (count index : Nat) (line : Text) : Text :=
  Text.padLeft (width count) (Text.ofNat (index + 1)) ++ " | " ++ line

def rows (lines : List Text) : List Text :=
  lines.zipIdx.map fun (line, index) => row lines.length index line

theorem length_rows (lines : List Text) : (rows lines).length = lines.length := by
  rw [rows, List.length_map, List.length_zipIdx]

theorem getElem?_rows (lines : List Text) (index : Nat) :
    (rows lines)[index]? = lines[index]?.map (row lines.length index) := by
  rw [rows, List.getElem?_map, List.getElem?_zipIdx, Option.map_map, Nat.zero_add]
  rfl

/-! ### One row -/

/-- The number of a line stands at the right of a field that is as wide as the last number. -/
theorem row_eq (h : index < count) (line : Text) :
    ∃ margin, margin + (Text.ofNat (index + 1)).length = width count ∧
      row count index line =
        Text.spaces margin ++ Text.ofNat (index + 1) ++ " | " ++ line :=
  ⟨width count - (Text.ofNat (index + 1)).length,
    Nat.sub_add_cancel (Text.length_ofNat_le h), rfl⟩

theorem drop_row (h : index < count) (line : Text) :
    (row count index line).drop (width count + 3) = line := by
  obtain ⟨margin, hwidth, heq⟩ := row_eq h line
  rw [heq]
  apply List.drop_left'
  simp only [List.length_append, Text.spaces, Text.repeated, List.length_replicate]
  exact congrArg (· + 3) hwidth

theorem not_mem_row {c : Char} (hdigit : isAsciiDigit c = false) (hblank : c ≠ ' ') (hbar : c ≠ '|')
    (hline : c ∉ line) : c ∉ row count index line := by
  have hspaces : c ∉ Text.spaces (width count - (Text.ofNat (index + 1)).length) :=
    fun h => hblank (List.eq_of_mem_replicate h)
  simp [row, Text.padLeft, hspaces, Text.not_mem_ofNat hdigit, hblank, hbar, hline]

/-! ### All rows -/

theorem map_drop_rows (lines : List Text) :
    (rows lines).map (List.drop (width lines.length + 3)) = lines := by
  apply List.ext_getElem?
  intro index
  rw [List.getElem?_map, getElem?_rows, Option.map_map]
  cases hline : lines[index]? with
  | none => rfl
  | some line =>
    obtain ⟨hindex, -⟩ := List.getElem?_eq_some_iff.1 hline
    exact congrArg some (drop_row hindex line)

theorem ne_nil_of_mem_rows {lines : List Text} {r : Text} (h : r ∈ rows lines) : r ≠ [] := by
  obtain ⟨⟨line, index⟩, -, rfl⟩ := List.mem_map.1 h
  simp [row]

theorem not_mem_rows {c : Char} {lines : List Text} (hdigit : isAsciiDigit c = false)
    (hblank : c ≠ ' ') (hbar : c ≠ '|') (hlines : ∀ line ∈ lines, c ∉ line) :
    ∀ row ∈ rows lines, c ∉ row := by
  intro r hr
  obtain ⟨⟨line, index⟩, hmem, rfl⟩ := List.mem_map.1 hr
  exact not_mem_row hdigit hblank hbar (hlines line (List.fst_mem_of_mem_zipIdx hmem))

end Listing

open Listing

theorem numberedListing_eq (code : Text) :
    numberedListing code = Text.join "\n" (rows code.displayLines) := by
  cases hlines : code.displayLines with
  | nil =>
    rw [numberedListing, hlines]
    rfl
  | cons line rest =>
    have hcount : max (line :: rest).length 1 = (line :: rest).length :=
      max_eq_left (Nat.le_add_left 1 rest.length)
    rw [numberedListing, hlines]
    dsimp only
    rw [hcount]
    rfl

/-- A listing has a row for each line of the code, which ends in the line and begins with its
number, right-aligned in a field that the last number fills; without the first characters of its
rows, as many of each as the field and the separator take, it is the code. -/
theorem numberedListing_readable {code : Text} (hreturn : '\r' ∉ code)
    (hlast : code.getLast? ≠ some '\n') :
    let lines := code.displayLines
    let rows := (numberedListing code).displayLines
    let width := (Text.ofNat lines.length).length
    rows.length = lines.length ∧
      (∀ index line, lines[index]? = some line →
        ∃ margin, margin + (Text.ofNat (index + 1)).length = width ∧
          rows[index]? =
            some (Text.spaces margin ++ Text.ofNat (index + 1) ++ " | " ++ line)) ∧
      Text.join "\n" (rows.map (List.drop (width + 3))) = code := by
  intro lines rows width
  have hlines : ∀ line ∈ lines, '\n' ∉ line ∧ '\r' ∉ line := fun line hline =>
    ⟨Text.lineFeed_not_mem_displayLines _ _ hline,
      fun h => hreturn (Text.mem_of_mem_displayLines hline h)⟩
  have hrows : rows = Listing.rows lines := by
    show (numberedListing code).displayLines = _
    rw [numberedListing_eq]
    apply Text.displayLines_join
    intro r hr
    refine ⟨ne_nil_of_mem_rows hr, ?_, ?_⟩
    · exact not_mem_rows (by decide) (by decide) (by decide) (fun line h => (hlines line h).1) r hr
    · exact not_mem_rows (by decide) (by decide) (by decide) (fun line h => (hlines line h).2) r hr
  refine ⟨?_, fun index line hline => ?_, ?_⟩
  · rw [hrows, length_rows]
  · obtain ⟨hindex, -⟩ := List.getElem?_eq_some_iff.1 hline
    obtain ⟨margin, hwidth, heq⟩ := row_eq hindex line
    refine ⟨margin, hwidth, ?_⟩
    rw [hrows, getElem?_rows, hline, ← heq]
    rfl
  · have hdrop : rows.map (List.drop (width + 3)) = lines := by
      rw [hrows]
      exact map_drop_rows lines
    rw [hdrop]
    exact Text.join_displayLines hreturn hlast

/-- A text of ten lines, one of them empty and one with the mark that stands behind the numbers. -/
def tenLines : Text := "a\n\n 3 | c\nd\ne\nf\ng\nh\ni\n10 | j"

theorem tenLines_readable :
    ('\r' ∉ tenLines ∧ tenLines.getLast? ≠ some '\n') ∧
      (numberedListing tenLines).displayLines.length = 10 ∧
      (numberedListing tenLines).displayLines[2]? = some (" 3 |  3 | c" : Text) ∧
      Text.join "\n" ((numberedListing tenLines).displayLines.map (List.drop 5)) = tenLines := by
  have hreturn : '\r' ∉ tenLines := by decide
  have hlast : tenLines.getLast? ≠ some '\n' := by decide
  have hlines : tenLines.displayLines.length = 10 := by decide
  have hwidth : (Text.ofNat tenLines.displayLines.length).length = 2 := by
    rw [hlines]
    decide
  obtain ⟨hlength, hrows, hjoin⟩ := numberedListing_readable hreturn hlast
  refine ⟨⟨hreturn, hlast⟩, hlength.trans hlines, ?_, ?_⟩
  · obtain ⟨margin, hmargin, hrow⟩ := hrows 2 " 3 | c" (by decide)
    obtain rfl : margin = 1 := by
      have hdigits : (Text.ofNat (2 + 1)).length = 1 := by decide
      omega
    exact hrow
  · rwa [hwidth] at hjoin

end Stencil
