import Stencil.Proofs.Lua.Complete

/-! Numerals at the end of a text, and text behind a numeral.

What is taken for a numeral stays within a text that is followed by a parenthesis or a blank
(`Ends.readNumeral`). A numeral holds nothing that begins a string or a comment, so complete text
behind it is complete by itself (`IsComplete.of_readUnsigned?`). -/
namespace Stencil.Lua

/-! ### The end of a numeral -/

theorem numeralLength_le (letter : Char) (t : Text) : numeralLength letter t ≤ t.length := by
  fun_induction numeralLength letter t with
  | case1 => exact Nat.le_refl _
  | case2 | case3 => simp
  | case4 | case5 | case6 | case7 => simp only [List.length_cons] at *; omega

namespace Ends

variable {u : Text}

/-- A numeral does not go on in a text that ends every token. -/
theorem numeralLength (hu : Ends u) {letter : Char} (hletter : isAsciiLetter letter = true)
    (t : Text) : numeralLength letter (t ++ u) = Lua.numeralLength letter t := by
  have hnone := numeralLength_of_endsNumeral hletter hu.endsNumeral
  have hone : ∀ c, Lua.numeralLength letter (c :: u) = Lua.numeralLength letter [c] := by
    intro c
    cases u with
    | nil => rfl
    | cons d ds =>
      have hsign : ¬ (d = '+' ∨ d = '-') := by
        have := hu.not_mem (p := fun c => c == '+' || c == '-') (by decide) d rfl
        simpa using this
      rw [Lua.numeralLength, Lua.numeralLength, hnone, if_neg hsign]
      by_cases hc : c.toLower = letter
      · rw [if_pos hc, if_pos (.inl hc)]
      · simp only [hc, if_false, false_or]
  induction t using numeralLength.induct letter with
  | case1 => exact hnone
  | case2 c => exact hone c
  | case3 c => exact hone c
  | case4 c d rest hc hd ih =>
    rw [List.cons_append, List.cons_append, Lua.numeralLength, Lua.numeralLength, ih, if_pos hc,
      if_pos hc, if_pos hd, if_pos hd]
  | case5 c d rest hc hd ih =>
    rw [List.cons_append] at ih
    rw [List.cons_append, List.cons_append, Lua.numeralLength, Lua.numeralLength, ih, if_neg hd,
      if_neg hd]
  | case6 c d rest hc hd ih =>
    rw [List.cons_append] at ih
    rw [List.cons_append, List.cons_append, Lua.numeralLength, Lua.numeralLength, ih, if_neg hc,
      if_neg hc]
  | case7 c d rest hc hd =>
    rw [List.cons_append, List.cons_append, Lua.numeralLength, Lua.numeralLength, if_neg hc,
      if_neg hc, if_neg hd, if_neg hd]

theorem readNumeral (hu : Ends u) (c : Char) (cs : Text) :
    readNumeral (c :: cs ++ u) =
      ((Lua.readNumeral (c :: cs)).1, (Lua.readNumeral (c :: cs)).2 ++ u) := by
  have hname := hu.not_mem (p := isNameStart) (by decide)
  by_cases hx : ∃ x rest, (x = 'x' ∨ x = 'X') ∧ c :: cs = '0' :: x :: rest
  · obtain ⟨x, rest, hx, heq⟩ := hx
    have hlength := numeralLength_le 'p' rest
    rw [heq, readNumeral_hexadecimal hx, ← numeralSplit_append _ hname,
      ← hu.numeralLength (by decide) rest, List.cons_append, List.cons_append,
      readNumeral_hexadecimal hx]
    simp only [List.length_cons]
    omega
  · have hdecimal : ∀ x rest, x = 'x' ∨ x = 'X' → c :: cs ≠ '0' :: x :: rest :=
      fun x rest hletter heq => hx ⟨x, rest, hletter, heq⟩
    have hbehind : ∀ x rest, x = 'x' ∨ x = 'X' → c :: cs ++ u ≠ '0' :: x :: rest := by
      intro x rest hletter heq
      obtain ⟨rfl, htail⟩ := List.cons.inj heq
      cases cs with
      | nil =>
        have := hu.not_mem (p := fun c => c == 'x' || c == 'X') (by decide) x
          (by rw [show u = x :: rest from htail]; rfl)
        rcases hletter with rfl | rfl <;> cases this
      | cons d ds =>
        obtain ⟨rfl, _⟩ := List.cons.inj htail
        exact hdecimal d ds hletter rfl
    rw [readNumeral_decimal hdecimal, readNumeral_decimal hbehind, hu.numeralLength (by decide),
      numeralSplit_append (numeralLength_le 'e' _) hname]

end Ends

/-! ### Behind a numeral -/

variable {t : Text}

theorem exists_splitDigits (isDigit : Char → Bool) (t : Text) :
    ∃ digits, t = digits ++ (Decimal.splitDigits isDigit t).2.2 ∧
      ∀ c ∈ digits, isDigit c = true ∨ c = '.' := by
  have hdigits : ∀ (t : Text), ∀ c ∈ t.takeWhile isDigit, isDigit c = true :=
    fun t => List.all_eq_true.1 List.all_takeWhile
  unfold Decimal.splitDigits
  dsimp only
  split
  · next rest hpoint =>
    refine ⟨t.takeWhile isDigit ++ '.' :: rest.takeWhile isDigit, ?_, fun c hc => ?_⟩
    · rw [List.append_assoc, List.cons_append, List.takeWhile_append_dropWhile, ← hpoint,
        List.takeWhile_append_dropWhile]
    · rcases List.mem_append.1 hc with hwhole | hfraction
      · exact .inl (hdigits t c hwhole)
      · rcases List.mem_cons.1 hfraction with rfl | hfraction
        · exact .inr rfl
        · exact .inl (hdigits rest c hfraction)
  · exact ⟨t.takeWhile isDigit, List.takeWhile_append_dropWhile.symm,
      fun c hc => .inl (hdigits t c hc)⟩

theorem isPlain_of_isAsciiDigit {c : Char} (h : isAsciiDigit c = true) : isPlain c = true :=
  isPlain_of_isNameChar (by simp [isNameChar, h])

theorem isPlain_of_isHexDigit {c : Char} (h : Number.isHexDigit c = true) : isPlain c = true :=
  isPlain_of_isNameChar (isNameChar_of_isHexDigit h)

/-- A sign in an exponent has a digit behind it, so that it begins no comment. -/
theorem IsComplete.of_exponent {letter : Char} (hletter : isAsciiLetter letter = true) {e : Int}
    {exponent : Text} (h : IsComplete (exponent ++ t))
    (hread : Decimal.exponent? letter exponent = some e) : IsComplete t := by
  have hdigits : ∀ {digits : Text} {value : Int},
      (if digits ≠ [] ∧ digits.all isAsciiDigit = true then some (Text.digitsValue digits : Int)
        else none) = some value → digits ≠ [] ∧ ∀ c ∈ digits, isPlain c = true := by
    intro digits value hvalue
    split at hvalue
    · next hall =>
      refine ⟨hall.1, fun c hc => ?_⟩
      exact isPlain_of_isAsciiDigit (List.all_eq_true.1 hall.2 c hc)
    · cases hvalue
  unfold Decimal.exponent? at hread
  dsimp only at hread
  split at hread
  · exact h
  · next c rest =>
    split at hread
    · cases hread
    · next hlower =>
      have hletter : isAsciiLetter c = true :=
        isAsciiLetter_of_toLower (by rwa [Classical.not_not.1 hlower])
      have hc : isPlain c = true := isPlain_of_isNameChar (by simp [isNameChar, hletter])
      have hrest : IsComplete (rest ++ t) :=
        h.of_not_beginsHidden (not_beginsHidden_of_isPlain hc (rest ++ t))
      split at hread
      · next digits =>
        refine hrest.of_isPlain_append fun d hd => ?_
        rcases List.mem_cons.1 hd with rfl | hd
        · rfl
        · exact (hdigits hread).2 d hd
      · next digits =>
        obtain ⟨value, hvalue, _⟩ := Option.map_eq_some_iff.1 hread
        obtain ⟨hne, hall⟩ := hdigits hvalue
        obtain ⟨d, ds, rfl⟩ := List.exists_cons_of_ne_nil hne
        have hminus : d ≠ '-' := by
          rintro rfl
          cases hall _ List.mem_cons_self
        refine (hrest.of_not_beginsHidden ?_).of_isPlain_append hall
        exact afterHidden?_eq_none_iff.1 (afterHidden?_minus hminus _)
      · exact hrest.of_isPlain_append (hdigits hread).2

theorem IsComplete.of_splitDigits {isDigit : Char → Bool} {letter : Char} {numeral : Text} {e : Int}
    (h : IsComplete (numeral ++ t)) (hdigit : ∀ c, isDigit c = true → isPlain c = true)
    (hletter : isAsciiLetter letter = true)
    (hread : Decimal.exponent? letter (Decimal.splitDigits isDigit numeral).2.2 = some e) :
    IsComplete t := by
  obtain ⟨digits, heq, hdigits⟩ := exists_splitDigits isDigit numeral
  rw [heq, List.append_assoc] at h
  refine (h.of_isPlain_append fun c hc => ?_).of_exponent hletter hread
  rcases hdigits c hc with hc | rfl
  · exact hdigit c hc
  · rfl

theorem IsComplete.of_readHex? {x : Char} {digits : Text} {n : Number}
    (h : IsComplete ('0' :: x :: (digits ++ t))) (hx : isPlain x = true)
    (hread : Number.readHex? digits = some n) : IsComplete t := by
  have hdigits : IsComplete (digits ++ t) :=
    (h.of_not_beginsHidden (not_beginsHidden_of_isPlain rfl _)).of_not_beginsHidden
      (not_beginsHidden_of_isPlain hx _)
  have hplain : ∀ c, Number.isHexDigit c = true → isPlain c = true :=
    fun c => isPlain_of_isHexDigit
  unfold Number.readHex? at hread
  dsimp only at hread
  split at hread
  · cases hread
  split at hread
  · next hend =>
    have hnone : Decimal.exponent? 'p' (Decimal.splitDigits Number.isHexDigit digits).2.2 =
        some 0 := by
      rw [hend.1]
      rfl
    exact hdigits.of_splitDigits hplain (by decide) hnone
  · obtain ⟨e, he, _⟩ := Option.bind_eq_some_iff.1 hread
    exact hdigits.of_splitDigits hplain (by decide) he

/-- What stands behind a numeral is complete: no character of the numeral begins a string or a
comment. -/
theorem IsComplete.of_readUnsigned? {numeral : Text} {n : Number} (h : IsComplete (numeral ++ t))
    (hread : Number.readUnsigned? numeral = some n) : IsComplete t := by
  unfold Number.readUnsigned? at hread
  split at hread
  · exact h.of_readHex? rfl hread
  · exact h.of_readHex? rfl hread
  · split at hread
    · next hall =>
      refine h.of_isPlain_append fun c hc => ?_
      exact isPlain_of_isAsciiDigit (List.all_eq_true.1 hall.2.1 c hc)
    · obtain ⟨x, hx, _⟩ := Option.map_eq_some_iff.1 hread
      obtain ⟨e, he, _⟩ := Option.bind_eq_some_iff.1 hx
      exact h.of_splitDigits (fun c => isPlain_of_isAsciiDigit) (by decide) he

end Stencil.Lua
