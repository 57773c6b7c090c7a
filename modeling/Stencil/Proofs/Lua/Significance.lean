import Stencil.Lua.Significance
import Stencil.Script.Block
import Stencil.Proofs.Lua.Program.Basic
import Stencil.Proofs.Lua.Program.Tokens

/-! Code without strings and comments.

Where nothing can begin a string or a comment every character is significant (`Outside`), so the
code is its own significant prefix. The headers of loops and conditionals are such code, and the
words they end in tell which kind of block they open. -/
namespace Stencil.Lua

/-! ### Significant characters -/

/-- Neither a string nor a comment begins with the character. -/
def isPlain (c : Char) : Bool := !(['\'', '"', '-', '['].contains c)

theorem afterHidden?_of_isPlain {c : Char} (h : isPlain c = true) (cs : Text) :
    afterHidden? (c :: cs) = none := by
  simp only [isPlain, List.contains_cons, List.contains_nil, Bool.or_false, Bool.not_eq_true',
    Bool.or_eq_false_iff, beq_eq_false_iff_ne] at h
  obtain ⟨hquote, hdouble, hminus, hbracket⟩ := h
  unfold afterHidden?
  split
  · next heq => exact absurd (List.cons.inj heq).1 hquote
  · next heq => exact absurd (List.cons.inj heq).1 hdouble
  · next heq => exact absurd (List.cons.inj heq).1 hminus
  · unfold longOpening?
    split
    · next heq => exact absurd (List.cons.inj heq).1 hbracket
    · rfl

theorem afterHidden?_minus {c : Char} (h : c ≠ '-') (cs : Text) :
    afterHidden? ('-' :: c :: cs) = none := by
  unfold afterHidden?
  split
  · next heq => exact absurd (List.cons.inj heq).1 (by decide)
  · next heq => exact absurd (List.cons.inj heq).1 (by decide)
  · next heq => exact absurd (List.cons.inj (List.cons.inj heq).2).1 h
  · rfl

theorem marks_of_afterHidden?_eq_none {c : Char} {cs : Text} (h : afterHidden? (c :: cs) = none) :
    marks 0 (c :: cs) = true :: marks 0 cs := by
  have hlength : hiddenLength (c :: cs) = 0 := by
    unfold hiddenLength
    rw [h]
  rw [marks, hlength]

theorem zip_replicate_mark (t : Text) (mark : Bool) :
    t.zip (List.replicate t.length mark) = t.map (·, mark) := by
  induction t with
  | nil => rfl
  | cons c cs ih => rw [List.length_cons, List.replicate_succ, List.zip_cons_cons, ih]; rfl

theorem zip_append_mark (t rest : Text) (mark : Bool) (marks : List Bool) :
    (t ++ rest).zip (List.replicate t.length mark ++ marks) =
      t.map (·, mark) ++ rest.zip marks := by
  rw [List.zip_append List.length_replicate.symm, zip_replicate_mark]

theorem marks_length_append (t rest : Text) :
    marks t.length (t ++ rest) = List.replicate t.length false ++ marks 0 rest := by
  induction t with
  | nil => rfl
  | cons c cs ih => rw [List.length_cons, List.cons_append, marks, ih]; rfl

/-- A string or comment is hidden, and what follows it is marked as it is by itself. -/
theorem marks_of_afterHidden? {hidden rest : Text} (hne : hidden ≠ [])
    (h : afterHidden? (hidden ++ rest) = some rest) :
    marks 0 (hidden ++ rest) = List.replicate hidden.length false ++ marks 0 rest := by
  obtain ⟨c, cs, rfl⟩ := List.exists_cons_of_ne_nil hne
  have hlength : hiddenLength (c :: (cs ++ rest)) = cs.length + 1 := by
    rw [List.cons_append] at h
    rw [hiddenLength, h]
    simp only [List.length_cons, List.length_append]
    omega
  rw [List.cons_append, marks, hlength]
  dsimp only
  rw [marks_length_append]
  rfl

theorem map_fst_marked (code : Text) : (marked code).map Prod.fst = code :=
  List.map_fst_zip (Nat.le_of_eq (length_significance code).symm)

/-- Code that ends in a significant character which is no blank has nothing trailing it. -/
theorem significantPrefix_of_getLast? {code : Text} {c : Char}
    (h : (marked code).getLast? = some (c, true)) (hc : isAsciiBlank c = false) :
    significantPrefix code = code := by
  obtain ⟨before, hbefore⟩ := List.getLast?_eq_some_iff.1 h
  have hdrop : (marked code).reverse.dropWhile (fun m => !m.2 || isAsciiBlank m.1) =
      (marked code).reverse := by
    rw [hbefore, List.reverse_append]
    exact List.dropWhile_cons_of_neg (by simp [hc])
  show ((marked code).reverse.dropWhile fun m => !m.2 || isAsciiBlank m.1).reverse.map Prod.fst = _
  rw [hdrop, List.reverse_reverse]
  exact map_fst_marked code

/-- The text stands outside strings and comments, whatever follows it. -/
def Outside (t : Text) : Prop :=
  ∀ rest, marks 0 (t ++ rest) = List.replicate t.length true ++ marks 0 rest

namespace Outside

variable {t u : Text}

theorem append (ht : Outside t) (hu : Outside u) : Outside (t ++ u) := by
  intro rest
  rw [List.append_assoc, ht, hu, ← List.append_assoc, List.replicate_append_replicate,
    List.length_append]

theorem of_isPlain (h : ∀ c ∈ t, isPlain c = true) : Outside t := by
  intro rest
  induction t with
  | nil => rfl
  | cons c cs ih =>
    have hc := afterHidden?_of_isPlain (h c (List.mem_cons_self ..)) (cs ++ rest)
    rw [List.cons_append, marks_of_afterHidden?_eq_none hc,
      ih fun d hd => h d (List.mem_cons_of_mem _ hd)]
    rfl

/-- A minus sign in front of plain code. -/
theorem minus (hne : t ≠ []) (h : ∀ c ∈ t, isPlain c = true) : Outside ('-' :: t) := by
  intro rest
  obtain ⟨c, cs, rfl⟩ := List.exists_cons_of_ne_nil hne
  have hc : c ≠ '-' := by
    rintro rfl
    exact absurd (h _ (List.mem_cons_self ..)) (by decide)
  rw [List.cons_append, List.cons_append, marks_of_afterHidden?_eq_none (afterHidden?_minus hc _),
    ← List.cons_append, of_isPlain h]
  rfl

/-- What follows is marked as it is by itself. -/
theorem marked_append (h : Outside t) (rest : Text) :
    marked (t ++ rest) = t.map (·, true) ++ marked rest := by
  rw [marked, significance, h, List.zip_append List.length_replicate.symm, zip_replicate_mark]
  rfl

/-- Code of this kind is all significant. -/
theorem significantPrefix_eq (h : Outside t) (hend : ∀ c ∈ t.getLast?, isAsciiBlank c = false) :
    significantPrefix t = t := by
  have hmarked : marked t = t.map (·, true) := by
    have hmarks := h []
    rw [List.append_nil] at hmarks
    rw [marked, significance, hmarks, marks, List.append_nil, zip_replicate_mark]
  cases hlast : t.getLast? with
  | none => rw [List.getLast?_eq_none_iff.1 hlast]; rfl
  | some c =>
    have hmark : (marked t).getLast? = some (c, true) := by
      rw [hmarked, List.getLast?_map, hlast]
      rfl
    exact significantPrefix_of_getLast? hmark (hend c hlast)

end Outside

/-! ### Headers of blocks -/

theorem isPlain_of_isNameChar {c : Char} (h : isNameChar c = true) : isPlain c = true := by
  by_cases hc : c ∈ ['\'', '"', '-', '[']
  · simp only [List.mem_cons, List.not_mem_nil, or_false] at hc
    rcases hc with rfl | rfl | rfl | rfl
    all_goals exact absurd h (by decide)
  · rw [isPlain, Bool.not_eq_true', ← Bool.not_eq_true, List.contains_iff_mem]
    exact hc

theorem IsWord.outside {t : Text} (h : IsWord t) : Outside t :=
  .of_isPlain fun c hc => isPlain_of_isNameChar (h.chars c hc)

theorem IsNumeral.isNameChar {numeral : Text} (h : IsNumeral numeral) :
    ∀ c ∈ numeral, isNameChar c = true := by
  cases h with
  | decimal _ hdigits =>
    exact fun c hc => isNameChar_of_isHexDigit (isHexDigit_of_isAsciiDigit (hdigits c hc))
  | hexadecimal hx hdigits =>
    intro c hc
    rcases List.mem_cons.1 hc with rfl | hc
    · decide
    · rcases List.mem_cons.1 hc with rfl | hc
      · rcases hx with rfl | rfl
        all_goals decide
      · exact isNameChar_of_isHexDigit (hdigits c hc)

theorem IsNumeral.ne_nil {numeral : Text} (h : IsNumeral numeral) : numeral ≠ [] := by
  cases h with
  | decimal hne _ => exact hne
  | hexadecimal _ _ => exact List.cons_ne_nil _ _

theorem Literal.outside (l : Literal) : Outside l.text := by
  have hplain : ∀ c ∈ l.numeral, isPlain c = true :=
    fun c hc => isPlain_of_isNameChar (l.isNumeral.isNameChar c hc)
  unfold Literal.text
  cases l.negative with
  | true => exact .minus l.isNumeral.ne_nil hplain
  | false => exact .of_isPlain hplain

theorem outside_countHeader {name : Text} (hname : IsWord name) (start limit : Literal) :
    Outside (countHeader name start limit) := by
  have hfor : Outside "for ".toList := .of_isPlain (List.all_eq_true.1 rfl)
  have hequals : Outside " = ".toList := .of_isPlain (List.all_eq_true.1 rfl)
  have hcomma : Outside ", ".toList := .of_isPlain (List.all_eq_true.1 rfl)
  have hdo : Outside " do".toList := .of_isPlain (List.all_eq_true.1 rfl)
  exact ((((hfor.append hname.outside).append hequals).append start.outside).append hcomma).append
    limit.outside |>.append hdo

theorem outside_whenHeader {condition : Text} (h : IsWord condition) :
    Outside (whenHeader condition) := by
  have hif : Outside "if ".toList := .of_isPlain (List.all_eq_true.1 rfl)
  have hthen : Outside " then".toList := .of_isPlain (List.all_eq_true.1 rfl)
  exact (hif.append h.outside).append hthen

end Lua

/-! ### Words at the end -/

theorem Text.endsWithWord_of_getLast?_ne {t word : Text} (hword : word ≠ [])
    (h : t.getLast? ≠ word.getLast?) : t.endsWithWord word = false := by
  rw [endsWithWord, before?_of_getLast?_ne hword h]

theorem Text.endsWithWord_append (t word : Text) : (t ++ ' ' :: word).endsWithWord word = true := by
  have hbefore : before? word (t ++ ' ' :: word) = some (t ++ [' ']) := by
    rw [before?_eq_some_iff, List.append_assoc]
    rfl
  rw [endsWithWord, hbefore]
  dsimp only
  rw [List.getLast?_concat]
  rfl

open Lua

theorem BlockKind.opening?_countHeader {name : Text} (hname : IsWord name)
    (start limit : Literal) : opening? (countHeader name start limit) = some loop := by
  have hlast : (countHeader name start limit).getLast? = some 'o' := by
    unfold countHeader
    rw [List.getLast?_append]
    rfl
  have hread : significantPrefix (countHeader name start limit) = countHeader name start limit :=
    (outside_countHeader hname start limit).significantPrefix_eq (by rw [hlast]; rintro c ⟨⟩; rfl)
  have hthen : (countHeader name start limit).endsWithWord "then" = false :=
    Text.endsWithWord_of_getLast?_ne (by decide) (by rw [hlast]; decide)
  have helse : (countHeader name start limit).endsWithWord "else" = false :=
    Text.endsWithWord_of_getLast?_ne (by decide) (by rw [hlast]; decide)
  have hdo : (countHeader name start limit).endsWithWord "do" = true :=
    Text.endsWithWord_append _ "do"
  rw [opening?, hread, hthen, helse, hdo]
  rfl

theorem BlockKind.opening?_whenHeader {condition : Text} (h : IsWord condition) :
    opening? (whenHeader condition) = some conditional := by
  have hlast : (whenHeader condition).getLast? = some 'n' := by
    unfold whenHeader
    rw [List.getLast?_append]
    rfl
  have hread : significantPrefix (whenHeader condition) = whenHeader condition :=
    (outside_whenHeader h).significantPrefix_eq (by rw [hlast]; rintro c ⟨⟩; rfl)
  have hthen : (whenHeader condition).endsWithWord "then" = true :=
    Text.endsWithWord_append _ "then"
  rw [opening?, hread, hthen]
  rfl

end Stencil
