import Mathlib.Data.List.Count
import Stencil.Lua.Library.Templates
import Stencil.Proofs.Lua.Reading

/-! The lines that tokens are on.

A reader of tokens goes on to the next line only when it passes characters that end one. So no
reader passes more lines than there are such characters in what it has passed, and the tokens of a
script are on the lines from the first one on, one more than the script has characters that end a
line (`line_of_mem_tokens`). -/
namespace Stencil.Lua

/-- How many characters of a text end a line, alone or together with the next one. -/
def breaks (t : Text) : Nat := t.countP isLineEnd

theorem breaks_nil : breaks [] = 0 := rfl

theorem breaks_le_of_suffix {rest t : Text} (h : rest <:+ t) : breaks rest ≤ breaks t :=
  h.sublist.countP_le

theorem breaks_dropWhile_le (p : Char → Bool) (t : Text) : breaks (t.dropWhile p) ≤ breaks t :=
  breaks_le_of_suffix (List.dropWhile_suffix p)

theorem breaks_le_cons (c : Char) (t : Text) : breaks t ≤ breaks (c :: t) :=
  breaks_le_of_suffix (List.suffix_cons c t)

theorem breaks_append (t u : Text) : breaks (t ++ u) = breaks t + breaks u := List.countP_append

/-- Between lines that hold no line end there is one each. -/
theorem breaks_join {lines : List Text} (h : ∀ line ∈ lines, breaks line = 0) :
    breaks (Text.join "\n" lines) = lines.length - 1 := by
  induction lines with
  | nil => rfl
  | cons line rest ih =>
    have hline := h line List.mem_cons_self
    have hrest := ih fun l hl => h l (List.mem_cons_of_mem _ hl)
    cases rest with
    | nil => exact hline
    | cons next others =>
      show breaks (line ++ ['\n'] ++ Text.join "\n" (next :: others)) = _
      rw [breaks_append, breaks_append, hline, hrest]
      simp only [show breaks ['\n'] = 1 from rfl, List.length_cons]
      omega

theorem breaks_of_afterLineEnd? {t rest : Text} (h : afterLineEnd? t = some rest) :
    breaks rest + 1 ≤ breaks t := by
  have hends : isLineEnd '\r' = true ∧ isLineEnd '\n' = true := by decide
  unfold afterLineEnd? at h
  split at h <;> cases h <;> simp only [breaks, List.countP_cons, hends, if_true] <;> omega

/-! ### Readers -/

theorem skipBlanks_breaks (fuel : Nat) (t : Text) :
    (skipBlanks fuel t).1 + breaks (skipBlanks fuel t).2 ≤ breaks t := by
  fun_induction skipBlanks fuel t with
  | case1 t => exact Nat.le_of_eq (Nat.zero_add _)
  | case2 t fuel rest hend lines after hskip ih =>
    have := breaks_of_afterLineEnd? hend
    rw [hskip] at ih
    dsimp only at ih ⊢
    omega
  | case3 fuel c rest hend hblank ih => exact Nat.le_trans ih (breaks_le_cons c rest)
  | case4 => exact Nat.le_of_eq (Nat.zero_add _)
  | case5 => exact Nat.le_refl _

theorem readEscape_breaks {t : Text} {r : Read Bytes} (h : readEscape t = .ok r) :
    r.lines + breaks r.rest ≤ breaks t := by
  rcases readEscape_cases h with ⟨hrest, hlines⟩ | ⟨rest, rfl, hskip⟩ | ⟨hend, hlines⟩
  · rw [hlines, Nat.zero_add]
    exact breaks_le_of_suffix hrest
  · have hblanks := skipBlanks_breaks rest.length rest
    rw [hskip] at hblanks
    exact Nat.le_trans hblanks (breaks_le_cons _ _)
  · rw [hlines, Nat.add_comm]
    exact breaks_of_afterLineEnd? hend

/-- What has been read of a text, from a line on, ends on a line that is as much later as line ends
were passed; so does where reading stopped. -/
def EndsWithin (line : Nat) (t : Text) : Except (Text × Nat) (Read Bytes) → Prop
  | .ok r => line ≤ r.lines ∧ r.lines + breaks r.rest ≤ line + breaks t
  | .error (_, stop) => line ≤ stop ∧ stop ≤ line + breaks t

theorem EndsWithin.behind {line lines : Nat} {rest t : Text}
    {result : Except (Text × Nat) (Read Bytes)} (hrest : lines + breaks rest ≤ breaks t)
    (h : EndsWithin (line + lines) rest result) : EndsWithin line t result := by
  cases result with
  | ok r =>
    obtain ⟨hlow, hhigh⟩ := h
    exact ⟨by omega, by omega⟩
  | error stop =>
    obtain ⟨hlow, hhigh⟩ := h
    exact ⟨by omega, by omega⟩

theorem readShort_endsWithin (quote : Char) (fuel : Nat) (done : Bytes) (line : Nat) (t : Text) :
    EndsWithin line t (readShort quote fuel done line t) := by
  have hstop : ∀ (t complaint : Text), EndsWithin line t (.error (complaint, line)) :=
    fun t _ => ⟨Nat.le_refl _, Nat.le_add_right _ _⟩
  induction fuel generalizing done line t with
  | zero => exact hstop _ _
  | succ fuel ih =>
    cases t with
    | nil => exact hstop _ _
    | cons c rest =>
      have hpass := breaks_le_cons c rest
      unfold readShort
      dsimp only
      split
      · exact ⟨Nat.le_refl _, Nat.add_le_add_left hpass _⟩
      split
      · exact hstop _ _
      split
      · cases rest with
        | nil => exact hstop _ _
        | cons d rest =>
          dsimp only
          cases hescape : readEscape (d :: rest) with
          | error e => exact hstop _ _
          | ok r =>
            have hr := Nat.le_trans (readEscape_breaks hescape) hpass
            exact (ih _ _ _ fun t _ => ⟨Nat.le_refl _, Nat.le_add_right _ _⟩).behind hr
      · exact (ih _ _ _ hstop).behind (Nat.le_trans (Nat.le_of_eq (Nat.zero_add _)) hpass)

theorem joinLines_breaks (fuel : Nat) (t : Text) : (joinLines fuel t).2 ≤ breaks t := by
  fun_induction joinLines fuel t with
  | case1 => exact Nat.zero_le _
  | case2 t fuel rest hend joined lines hjoin ih =>
    have := breaks_of_afterLineEnd? hend
    rw [hjoin] at ih
    dsimp only at ih ⊢
    omega
  | case3 fuel c rest joined lines hjoin hend ih =>
    rw [hjoin] at ih
    exact Nat.le_trans ih (breaks_le_cons c rest)
  | case4 => exact Nat.zero_le _

theorem breaks_of_longOpening? {t inside : Text} {level : Nat}
    (h : longOpening? t = some (level, inside)) : breaks inside ≤ breaks t :=
  breaks_le_of_suffix ((longOpening?_suffix h).trans (List.tail_suffix t))

theorem readLong?_breaks {level : Nat} {t : Text} {r : Read Text} (h : readLong? level t = some r) :
    r.lines + breaks r.rest ≤ breaks t := by
  obtain ⟨⟨inside, rest⟩, hcut, rfl⟩ := Option.map_eq_some_iff.1 h
  have hjoin := joinLines_breaks inside.length inside
  rw [Text.cut?_eq_some hcut, breaks_append, breaks_append]
  dsimp only
  omega

/-! ### Tokens -/

/-- A token is on a line that is as much later as line ends were passed. -/
theorem readToken_line (line : Nat) (t : Text) :
    line ≤ (readToken line t).1.line ∧
      (readToken line t).1.line + breaks (readToken line t).2 ≤ line + breaks t := by
  have hsame : ∀ (token : Token) (shown : Text) {rest : Text}, rest <:+ t →
      let read : Lexeme × Text := (⟨token, line, shown⟩, rest)
      line ≤ read.1.line ∧ read.1.line + breaks read.2 ≤ line + breaks t := fun _ _ _ hrest =>
    ⟨Nat.le_refl _, Nat.add_le_add_left (breaks_le_of_suffix hrest) _⟩
  unfold readToken
  dsimp only
  split
  · exact hsame _ _ (List.suffix_refl _)
  · next c rest =>
    have hnil : [] <:+ c :: rest := List.nil_suffix
    split
    · exact hsame _ _ (List.dropWhile_suffix _)
    split
    · split
      · exact hsame _ _ (List.drop_suffix _ _)
      · exact hsame _ _ hnil
    split
    · have hshort := readShort_endsWithin c (c :: rest).length [] line rest
      have hpass := breaks_le_cons c rest
      cases hread : readShort c (c :: rest).length [] line rest with
      | ok r =>
        rw [hread] at hshort
        obtain ⟨hlow, hhigh⟩ := hshort
        exact ⟨hlow, by dsimp only; omega⟩
      | error stop =>
        rw [hread] at hshort
        obtain ⟨hlow, hhigh⟩ := hshort
        exact ⟨hlow, by dsimp only [breaks_nil]; omega⟩
    split
    · next level inside hopen =>
      have hinside := breaks_of_longOpening? hopen
      cases hlong : readLong? level inside with
      | some r =>
        have hr := readLong?_breaks hlong
        exact ⟨Nat.le_add_right _ _, by dsimp only; omega⟩
      | none =>
        have hjoin := joinLines_breaks inside.length inside
        exact ⟨Nat.le_add_right _ _, by dsimp only [breaks_nil]; omega⟩
    split
    · exact hsame _ _ hnil
    split
    · exact hsame _ _ (List.drop_suffix _ _)
    · exact hsame _ _ (List.suffix_cons _ _)

/-- No more lines were passed with a comment than line ends. -/
def PassesWithin (t : Text) : Except (Text × Nat) (Nat × Text) → Prop
  | .ok (lines, rest) => lines + breaks rest ≤ breaks t
  | .error (_, lines) => lines ≤ breaks t

theorem afterComment?_passesWithin {line : Nat} {t : Text}
    {result : Except (Text × Nat) (Nat × Text)} (h : afterComment? line t = some result) :
    PassesWithin t result := by
  unfold afterComment? at h
  split at h
  · next rest =>
    have hpass : breaks rest ≤ breaks ('-' :: '-' :: rest) :=
      Nat.le_trans (breaks_le_cons _ _) (breaks_le_cons _ _)
    split at h
    · next level inside hopen =>
      have hinside := Nat.le_trans (breaks_of_longOpening? hopen) hpass
      split at h
      · next r hlong =>
        cases h
        exact Nat.le_trans (readLong?_breaks hlong) hinside
      · cases h
        exact Nat.le_trans (joinLines_breaks _ _) hinside
    · cases h
      exact Nat.le_trans (Nat.le_of_eq (Nat.zero_add _))
        (Nat.le_trans (breaks_dropWhile_le _ _) hpass)
  · cases h

theorem line_of_mem_tokensFrom {fuel line : Nat} {t : Text} :
    ∀ l ∈ tokensFrom fuel line t, line ≤ l.line ∧ l.line ≤ line + breaks t := by
  induction fuel generalizing line t with
  | zero =>
    intro l hl
    obtain rfl := List.mem_singleton.1 hl
    exact ⟨Nat.le_refl _, Nat.le_add_right _ _⟩
  | succ fuel ih =>
    have hblanks := skipBlanks_breaks t.length t
    unfold tokensFrom
    generalize skipBlanks t.length t = blanks at hblanks ⊢
    obtain ⟨lines, rest⟩ := blanks
    dsimp only at hblanks ⊢
    intro l hl
    cases hcomment : afterComment? (line + lines) rest with
    | some result =>
      have hpassed : PassesWithin rest result := afterComment?_passesWithin hcomment
      rw [hcomment] at hl
      cases result with
      | ok more =>
        have := ih l hl
        dsimp only [PassesWithin] at hpassed
        omega
      | error stop =>
        obtain rfl := List.mem_singleton.1 hl
        dsimp only [PassesWithin] at hpassed ⊢
        omega
    | none =>
      rw [hcomment] at hl
      have htoken := readToken_line (line + lines) rest
      generalize readToken (line + lines) rest = read at htoken hl
      obtain ⟨lexeme, after⟩ := read
      dsimp only at htoken hl
      have hfirst : line ≤ lexeme.line ∧ lexeme.line ≤ line + breaks t := by omega
      have hcons : l ∈ lexeme :: tokensFrom fuel lexeme.line after := by
        split at hl
        · exact List.mem_cons.2 (.inl (List.mem_singleton.1 hl))
        · exact List.mem_cons.2 (.inl (List.mem_singleton.1 hl))
        · exact hl
      rcases List.mem_cons.1 hcons with rfl | hlater
      · exact hfirst
      · have := ih l hlater
        omega

/-- **The tokens of a script are on its lines**, which are one more than the characters that end a
line at most. -/
theorem line_of_mem_tokens {script : Text} :
    ∀ l ∈ tokens script, 1 ≤ l.line ∧ l.line ≤ 1 + breaks script := line_of_mem_tokensFrom

end Stencil.Lua
