import Stencil.Proofs.Lua.Token

/-! What a reader leaves.

Every reader of tokens takes something off the front of a text and leaves an end of it. A token
takes at least one character (`readToken_suffix`), so a script has no more tokens than characters,
and the fuel of `tokens` is enough. -/
namespace Stencil.Lua

variable {t rest : Text}

/-! ### Blanks and line ends -/

theorem afterLineEnd?_suffix (h : afterLineEnd? t = some rest) : rest <:+ t.tail := by
  unfold afterLineEnd? at h
  split at h
  · cases h
    exact List.suffix_cons _ _
  · cases h
    exact List.suffix_cons _ _
  · cases h
    exact List.suffix_refl _
  · cases h
    exact List.suffix_refl _
  · cases h

theorem skipBlanks_suffix (fuel : Nat) (t : Text) : (skipBlanks fuel t).2 <:+ t := by
  fun_induction skipBlanks fuel t with
  | case1 => exact List.suffix_refl _
  | case2 t fuel rest hend lines after hskip ih =>
    rw [hskip] at ih
    exact ih.trans ((afterLineEnd?_suffix hend).trans (List.tail_suffix t))
  | case3 fuel c rest hend hblank ih => exact ih.trans (List.suffix_cons c rest)
  | case4 => exact List.suffix_refl _
  | case5 => exact List.suffix_refl _

/-! ### Strings -/

/-- An escape takes characters of its own line, or the blanks behind a `z`, or a line end. -/
theorem readEscape_cases {r : Read Bytes} (h : readEscape t = .ok r) :
    (r.rest <:+ t ∧ r.lines = 0) ∨
    (∃ rest, t = 'z' :: rest ∧ skipBlanks rest.length rest = (r.lines, r.rest)) ∨
    (afterLineEnd? t = some r.rest ∧ r.lines = 1) := by
  have hplain : ∀ {value rest}, rest <:+ t →
      (.ok ⟨value, rest, 0⟩ : Except (Text × Text) (Read Bytes)) = .ok r →
      r.rest <:+ t ∧ r.lines = 0 := by
    intro value rest hrest heq
    cases heq
    exact ⟨hrest, rfl⟩
  have hnext : ∀ (c : Char) (rest : Text), rest <:+ c :: rest := List.suffix_cons
  unfold readEscape at h
  dsimp only at h
  split at h
  iterate 7 exact .inl (hplain (hnext _ _) h)
  · split at h
    · split at h
      · cases h
      · split at h
        · split at h
          · cases h
          · exact .inl (hplain ((hnext _ _).trans ((hnext _ _).trans (hnext _ _))) h)
        · cases h
    · cases h
  · cases h
    exact .inr (.inl ⟨_, rfl, rfl⟩)
  · next rest =>
    split at h
    · next after hclose =>
      have hafter : after <:+ rest :=
        (hnext _ _).trans (hclose ▸ List.dropWhile_suffix Number.isHexDigit)
      split at h
      · cases h
      · split at h
        · exact .inl (hplain (hafter.trans ((hnext _ _).trans (hnext _ _))) h)
        · cases h
    · split at h <;> cases h
  · cases h
  · split at h
    · next hend =>
      cases h
      exact .inr (.inr ⟨hend, rfl⟩)
    · split at h
      · split at h
        · exact .inl (hplain (hnext _ _) h)
        · split at h
          · split at h
            · exact .inl (hplain (List.drop_suffix _ _) h)
            · cases h
          · cases h
      · cases h

theorem readEscape_suffix {r : Read Bytes} (h : readEscape t = .ok r) : r.rest <:+ t := by
  rcases readEscape_cases h with ⟨hrest, _⟩ | ⟨rest, rfl, hskip⟩ | ⟨hend, _⟩
  · exact hrest
  · have hrest := skipBlanks_suffix rest.length rest
    rw [hskip] at hrest
    exact hrest.trans (List.suffix_cons _ _)
  · exact (afterLineEnd?_suffix hend).trans (List.tail_suffix t)

theorem readShort_suffix {quote : Char} {fuel lines : Nat} {done : Bytes} {r : Read Bytes}
    (h : readShort quote fuel done lines t = .ok r) : r.rest <:+ t := by
  induction fuel generalizing done lines t with
  | zero => cases h
  | succ fuel ih =>
    cases t with
    | nil => cases h
    | cons c rest =>
      have hnext := List.suffix_cons c rest
      unfold readShort at h
      dsimp only at h
      split at h
      · cases h
        exact hnext
      split at h
      · cases h
      split at h
      · cases rest with
        | nil => cases h
        | cons d rest =>
          dsimp only at h
          cases hescape : readEscape (d :: rest) with
          | error e =>
            rw [hescape] at h
            cases h
          | ok after =>
            rw [hescape] at h
            exact (ih h).trans ((readEscape_suffix hescape).trans hnext)
      · exact (ih h).trans hnext

theorem longOpening?_suffix {inside : Text} {level : Nat}
    (h : longOpening? t = some (level, inside)) : inside <:+ t.tail := by
  unfold longOpening? at h
  split at h
  · next cs =>
    split at h
    · next rest hopen =>
      cases h
      have hsuffix : '[' :: inside <:+ cs := hopen ▸ List.dropWhile_suffix _
      exact (List.suffix_cons _ _).trans hsuffix
    · cases h
  · cases h

theorem readLong?_suffix {level : Nat} {r : Read Text} (h : readLong? level t = some r) :
    r.rest <:+ t := by
  obtain ⟨⟨inside, rest⟩, hcut, rfl⟩ := Option.map_eq_some_iff.1 h
  rw [Text.cut?_eq_some hcut]
  exact List.suffix_append _ _

/-! ### Tokens -/

theorem numeralLength_pos (letter : Char) {c : Char} (h : Number.isHexDigit c = true ∨ c = '.')
    (cs : Text) : 1 ≤ numeralLength letter (c :: cs) := by
  cases cs with
  | nil => rw [numeralLength, if_pos (.inr h)]
  | cons d ds =>
    rw [numeralLength]
    split
    · split <;> omega
    · omega

/-- A numeral takes the digit or point that it begins with. -/
theorem readNumeral_suffix {c : Char} (h : isAsciiDigit c = true ∨ c = '.') (cs : Text) :
    (readNumeral (c :: cs)).2 <:+ cs := by
  have hdrop : ∀ n, 1 ≤ n → (c :: cs).drop n <:+ cs := by
    intro n hn
    obtain ⟨n, rfl⟩ : ∃ m, n = m + 1 := ⟨n - 1, by omega⟩
    exact List.drop_suffix n cs
  unfold readNumeral
  dsimp only
  split
  · exact hdrop _ (by split <;> omega)
  · exact hdrop _ (by split <;> omega)
  · have := numeralLength_pos 'e' (h.imp isHexDigit_of_isAsciiDigit id) cs
    exact hdrop _ (by split <;> omega)

theorem isNameChar_of_isNameStart {c : Char} (h : isNameStart c = true) : isNameChar c = true := by
  simp only [isNameStart, Bool.or_eq_true] at h
  simp only [isNameChar, Bool.or_eq_true]
  exact h.imp .inl id

/-- A token takes at least one character. -/
theorem readToken_suffix (line : Nat) (c : Char) (cs : Text) :
    (readToken line (c :: cs)).2 <:+ cs := by
  have hnil : [] <:+ cs := List.nil_suffix
  unfold readToken
  dsimp only
  split
  · next hname =>
    rw [List.dropWhile_cons_of_pos (isNameChar_of_isNameStart hname)]
    exact List.dropWhile_suffix _
  split
  · next hnumeral =>
    split
    · refine readNumeral_suffix ?_ cs
      simp only [Bool.or_eq_true, Bool.and_eq_true, beq_iff_eq] at hnumeral
      exact hnumeral.imp id And.left
    · exact hnil
  split
  · cases hread : readShort c (c :: cs).length [] line cs with
    | ok r => exact readShort_suffix hread
    | error stop => exact hnil
  split
  · next level inside hopen =>
    cases hlong : readLong? level inside with
    | some r => exact (readLong?_suffix hlong).trans (longOpening?_suffix hopen)
    | none => exact hnil
  split
  · exact hnil
  split
  · next s hs =>
    have hne : ∀ s ∈ symbols, 1 ≤ s.length := by decide
    have hlength := hne s (List.mem_of_find?_eq_some hs)
    obtain ⟨n, hn⟩ : ∃ n, s.length = n + 1 := ⟨s.length - 1, by omega⟩
    rw [hn]
    exact List.drop_suffix n cs
  · exact List.suffix_refl _

theorem afterComment?_suffix {line : Nat} {result : Nat × Text}
    (h : afterComment? line t = some (.ok result)) : result.2 <:+ t.tail := by
  unfold afterComment? at h
  split at h
  · next rest =>
    have hpass : rest <:+ '-' :: rest := List.suffix_cons _ _
    split at h
    · next level inside hopen =>
      split at h
      · next r hlong =>
        cases h
        exact (readLong?_suffix hlong).trans
          ((longOpening?_suffix hopen).trans ((List.tail_suffix _).trans hpass))
      · cases h
    · cases h
      exact (List.dropWhile_suffix _).trans hpass
  · cases h

end Stencil.Lua
