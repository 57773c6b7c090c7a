import Stencil.Proofs.Text.Blank
import Stencil.Text.WordChar

/-! The words of a text.

A word is a run of word characters between others, so the words of two texts are put together where
no word goes from the one into the other (`words_append`). -/
namespace Stencil.Text

variable {t u word : Text}

/-! ### Where a word ends -/

/-- The text does not end in a word character. -/
def EndsOutsideWord (t : Text) : Prop := ∀ c ∈ t.getLast?, isWordChar c = false

/-- The text does not start with a word character. -/
def StartsOutsideWord (t : Text) : Prop := ∀ c ∈ t.head?, isWordChar c = false

theorem endsWithWord_iff :
    t.endsWithWord word = true ↔ ∃ before, t = before ++ word ∧ before.EndsOutsideWord := by
  have hends : ∀ before : Text,
      (!(before.getLast?.any isWordChar)) = true ↔ before.EndsOutsideWord := by
    intro before
    unfold EndsOutsideWord
    cases before.getLast? <;> simp
  unfold endsWithWord
  cases hbefore : before? word t with
  | none =>
    refine iff_of_false Bool.false_ne_true ?_
    rintro ⟨before, ht, -⟩
    exact absurd (hbefore.symm.trans (before?_eq_some_iff.2 ht)) (Option.some_ne_none _).symm
  | some found =>
    rw [before?_eq_some_iff] at hbefore
    refine (hends found).trans ⟨fun h => ⟨found, hbefore, h⟩, ?_⟩
    rintro ⟨before, ht, h⟩
    rwa [List.append_cancel_right (hbefore.symm.trans ht)]

/-! ### Blanks and word characters -/

/-- The code points of blanks. -/
def blankCodes : List Nat :=
  [0x09, 0x0A, 0x0B, 0x0C, 0x0D, 0x20, 0x85, 0xA0, 0x1680, 0x2000, 0x2001, 0x2002, 0x2003, 0x2004,
    0x2005, 0x2006, 0x2007, 0x2008, 0x2009, 0x200A, 0x2028, 0x2029, 0x202F, 0x205F, 0x3000]

theorem mem_blankCodes {c : Char} (h : isBlank c = true) : c.toNat ∈ blankCodes := by
  simp only [isBlank, Bool.or_eq_true, Bool.and_eq_true, decide_eq_true_eq, beq_iff_eq] at h
  simp only [blankCodes, List.mem_cons, List.not_mem_nil, or_false]
  omega

theorem isLetterOrDigit_of_isBlank {c : Char} (h : isBlank c = true) :
    isLetterOrDigit c = false := by
  have hcodes : ∀ n ∈ blankCodes, isLetterOrDigit (Char.ofNat n) = false := by decide +kernel
  rw [← Char.ofNat_toNat c]
  exact hcodes _ (mem_blankCodes h)

theorem isWordChar_of_isBlank {c : Char} (h : isBlank c = true) : isWordChar c = false := by
  have hc : c ≠ '_' := by
    rintro rfl
    exact absurd h (by decide)
  rw [isWordChar, isLetterOrDigit_of_isBlank h, Bool.false_or, beq_eq_false_iff_ne]
  exact hc

/-! ### Words -/

/-- The runs of word characters. -/
def words (t : Text) : List Text := (t.splitOnP fun c => !isWordChar c).filter (· ≠ [])

@[simp] theorem words_nil : words [] = [] := rfl

theorem words_append_cons {c : Char} (hc : isWordChar c = false) (t u : Text) :
    (t ++ c :: u).words = t.words ++ u.words := by
  unfold words
  rw [List.splitOnP_append_cons t u (by simp [hc]), List.filter_append]

theorem words_cons {c : Char} (hc : isWordChar c = false) (t : Text) :
    words (c :: t) = t.words :=
  words_append_cons hc [] t

theorem words_append (h : t.EndsOutsideWord ∨ u.StartsOutsideWord) :
    (t ++ u).words = t.words ++ u.words := by
  rcases h with h | h
  · rcases List.eq_nil_or_concat t with rfl | ⟨before, c, rfl⟩
    · rfl
    · rw [List.concat_eq_append] at h ⊢
      have hc := h c List.getLast?_concat
      rw [List.append_assoc, List.singleton_append, words_append_cons hc, words_append_cons hc,
        words_nil, List.append_nil]
  · cases u with
    | nil => rw [List.append_nil, words_nil, List.append_nil]
    | cons c cs => rw [words_append_cons (h c rfl), words_cons (h c rfl)]

theorem words_of_forall (hne : t ≠ []) (h : ∀ c ∈ t, isWordChar c = true) : t.words = [t] := by
  rw [words, List.splitOnP_eq_singleton fun c hc => by simp [h c hc]]
  simp [hne]

theorem words_eq_nil (h : ∀ c ∈ t, isWordChar c = false) : t.words = [] := by
  induction t with
  | nil => rfl
  | cons c cs ih =>
    rw [words_cons (h c List.mem_cons_self)]
    exact ih fun d hd => h d (List.mem_cons_of_mem _ hd)

end Stencil.Text
