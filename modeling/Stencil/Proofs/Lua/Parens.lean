import Stencil.Proofs.Lua.Significance

/-! Parentheses that close one another.

Of a text whose characters are marked, only the parentheses outside strings and comments count.
`Nested` is their grammar, with no depth in it, and `Closes` says with it which of two parentheses
closes the other. The scanner that counts a depth finds just that one
(`closingParen?_eq_some_iff`). -/
namespace Stencil.Lua

/-- A parenthesis outside strings and comments. -/
def isParen (m : Char × Bool) : Bool := m.2 && (m.1 == '(' || m.1 == ')')

/-- Each parenthesis has its partner. -/
inductive Nested : List (Char × Bool) → Prop
  | nil : Nested []
  | other {m : Char × Bool} {rest : List (Char × Bool)} :
    isParen m = false → Nested rest → Nested (m :: rest)
  | pair {inner rest : List (Char × Bool)} :
    Nested inner → Nested rest → Nested (('(', true) :: (inner ++ (')', true) :: rest))

/-- The parenthesis at an index is closed by the one at another: both stand outside strings and
comments, and those that do so between them are properly nested. -/
def Closes (code : Text) (opening closing : Nat) : Prop :=
  ∃ before inner after, marked code = before ++ ('(', true) :: (inner ++ (')', true) :: after) ∧
    before.length = opening ∧ opening + 1 + inner.length = closing ∧ Nested inner

variable {m : Char × Bool} {inner rest ms : List (Char × Bool)} {depth i : Nat}

/-! ### The scanner, one character at a time -/

theorem closingIndex?_other (h : isParen m = false) (depth : Int) (rest : List (Char × Bool)) :
    closingIndex? depth (m :: rest) = (closingIndex? depth rest).map (· + 1) := by
  obtain ⟨c, significant⟩ := m
  unfold isParen at h
  cases significant with
  | false => rfl
  | true =>
    obtain ⟨hopen, hclose⟩ := Bool.or_eq_false_iff.1 h
    dsimp only at hopen hclose
    rw [closingIndex?, hopen, hclose]
    rfl

/-- Characters without a parenthesis of the code are passed over. -/
theorem closingIndex?_passed {part : List (Char × Bool)} (h : ∀ m ∈ part, isParen m = false)
    (depth : Int) (rest : List (Char × Bool)) :
    closingIndex? depth (part ++ rest) = (closingIndex? depth rest).map (· + part.length) := by
  induction part with
  | nil => exact Option.map_id'.symm
  | cons m part ih =>
    obtain ⟨hm, hpart⟩ := List.forall_mem_cons.1 h
    rw [List.cons_append, closingIndex?_other hm, ih hpart, Option.map_map, List.length_cons]
    rfl

theorem isParen_of_hidden {t : Text} {m : Char × Bool} (h : m ∈ t.map (·, false)) :
    isParen m = false := by
  obtain ⟨c, -, rfl⟩ := List.mem_map.1 h
  rfl

theorem closingIndex?_hidden (depth : Int) (t : Text) (rest : List (Char × Bool)) :
    closingIndex? depth (t.map (·, false) ++ rest) =
      (closingIndex? depth rest).map (· + t.length) := by
  rw [closingIndex?_passed fun _ => isParen_of_hidden, List.length_map]

theorem closingIndex?_open (depth : Nat) (rest : List (Char × Bool)) :
    closingIndex? depth (('(', true) :: rest) =
      (closingIndex? (depth + 1 : Nat) rest).map (· + 1) := rfl

theorem closingIndex?_close_one (rest : List (Char × Bool)) :
    closingIndex? (1 : Nat) ((')', true) :: rest) = some 0 := rfl

theorem closingIndex?_close (depth : Nat) (rest : List (Char × Bool)) :
    closingIndex? (depth + 2 : Nat) ((')', true) :: rest) =
      (closingIndex? (depth + 1 : Nat) rest).map (· + 1) := by
  have hdepth : ¬ ((depth + 2 : Nat) : Int) = 1 := by omega
  have hless : ((depth + 2 : Nat) : Int) - 1 = (depth + 1 : Nat) := by omega
  show (if ((depth + 2 : Nat) : Int) = 1 then some 0 else _) = _
  rw [if_neg hdepth, hless]
  rfl

/-- A character is a parenthesis of the code, of one kind or the other, or it is passed over. -/
theorem paren_cases (m : Char × Bool) : m = ('(', true) ∨ m = (')', true) ∨ isParen m = false := by
  obtain ⟨c, significant⟩ := m
  cases significant with
  | false => exact .inr (.inr rfl)
  | true =>
    by_cases hopen : c = '('
    · exact .inl (by rw [hopen])
    · by_cases hclose : c = ')'
      · exact .inr (.inl (by rw [hclose]))
      · refine .inr (.inr ?_)
        simp [isParen, hopen, hclose]

/-! ### The scanner and the grammar -/

/-- What is nested is passed over at any depth. -/
theorem Nested.closingIndex? (h : Nested inner) (depth : Nat) (rest : List (Char × Bool)) :
    closingIndex? (depth + 1 : Nat) (inner ++ rest) =
      (Lua.closingIndex? (depth + 1 : Nat) rest).map (· + inner.length) := by
  induction h generalizing depth rest with
  | nil => exact Option.map_id'.symm
  | other hm _ ih =>
    rw [List.cons_append, closingIndex?_other hm, ih, Option.map_map, List.length_cons]
    rfl
  | @pair inner behind _ _ ihinner ihbehind =>
    have hsum : (· + 1) ∘ (· + inner.length) ∘ (· + 1) ∘ (· + behind.length) =
        (· + (('(', true) :: (inner ++ (')', true) :: behind)).length) := by
      funext n
      simp only [Function.comp, List.length_cons, List.length_append]
      omega
    rw [List.cons_append, List.append_assoc, List.cons_append, closingIndex?_open, ihinner,
      closingIndex?_close, ihbehind, Option.map_map, Option.map_map, Option.map_map, ← hsum]
    rfl

/-- Where the scanner stops: it has passed over something nested and stands at a parenthesis that
closes one level. If there are more levels, it goes on behind it. -/
theorem exists_of_closingIndex? (h : closingIndex? (depth + 1 : Nat) ms = some i) :
    ∃ inner rest, ms = inner ++ (')', true) :: rest ∧ Nested inner ∧
      (depth = 0 → i = inner.length) ∧
      ∀ d, depth = d + 1 → ∃ j, closingIndex? (d + 1 : Nat) rest = some j ∧
        i = inner.length + 1 + j := by
  generalize hn : ms.length = n
  -- behind an inner pair the scanner starts anew, so the induction is on the length
  induction n using Nat.strongRecOn generalizing ms depth i with
  | ind n ih =>
    subst hn
    cases ms with
    | nil => cases h
    | cons m cs =>
      rcases paren_cases m with rfl | rfl | hm
      · rw [closingIndex?_open] at h
        obtain ⟨k, hk, rfl⟩ := Option.map_eq_some_iff.1 h
        obtain ⟨first, behind, rfl, hfirst, _, hgo⟩ := ih _ (Nat.lt_succ_self _) hk rfl
        obtain ⟨j, hj, rfl⟩ := hgo depth rfl
        obtain ⟨second, rest, rfl, hsecond, hzero, hsucc⟩ :=
          ih behind.length (by simp only [List.length_cons, List.length_append]; omega) hj rfl
        refine ⟨('(', true) :: (first ++ (')', true) :: second), rest, by simp,
          .pair hfirst hsecond, fun hdepth => ?_, fun d hd => ?_⟩
        · have := hzero hdepth
          simp only [List.length_cons, List.length_append]
          omega
        · obtain ⟨j', hj', heq⟩ := hsucc d hd
          refine ⟨j', hj', ?_⟩
          simp only [List.length_cons, List.length_append]
          omega
      · refine ⟨[], cs, rfl, .nil, fun hdepth => ?_, fun d hd => ?_⟩
        · subst hdepth
          exact (Option.some.inj ((closingIndex?_close_one cs).symm.trans h)).symm
        · subst hd
          rw [closingIndex?_close] at h
          obtain ⟨j, hj, rfl⟩ := Option.map_eq_some_iff.1 h
          exact ⟨j, hj, by simp only [List.length_nil]; omega⟩
      · rw [closingIndex?_other hm] at h
        obtain ⟨k, hk, rfl⟩ := Option.map_eq_some_iff.1 h
        obtain ⟨first, rest, rfl, hfirst, hzero, hsucc⟩ := ih _ (Nat.lt_succ_self _) hk rfl
        refine ⟨m :: first, rest, rfl, .other hm hfirst, fun hdepth => ?_, fun d hd => ?_⟩
        · rw [hzero hdepth, List.length_cons]
        · obtain ⟨j, hj, rfl⟩ := hsucc d hd
          exact ⟨j, hj, by rw [List.length_cons]; omega⟩

/-- Behind an opening parenthesis the scanner stops at the parenthesis that closes it. -/
theorem closingIndex?_one_iff :
    closingIndex? (1 : Nat) ms = some i ↔
      ∃ inner rest, ms = inner ++ (')', true) :: rest ∧ Nested inner ∧ inner.length = i := by
  constructor
  · intro h
    have h : closingIndex? ((0 + 1 : Nat) : Int) ms = some i := h
    obtain ⟨inner, rest, hms, hinner, hzero, _⟩ := exists_of_closingIndex? h
    exact ⟨inner, rest, hms, hinner, (hzero rfl).symm⟩
  · rintro ⟨inner, rest, rfl, hinner, rfl⟩
    rw [hinner.closingIndex? 0, closingIndex?_close_one, Option.map_some, Nat.zero_add]

/-- **The scanner finds the parenthesis that closes another**, and nothing where there is none. -/
theorem closingParen?_eq_some_iff {code : Text} {opening closing : Nat}
    (h : (marked code)[opening]? = some ('(', true)) :
    closingParen? code opening = some closing ↔ Closes code opening closing := by
  have hcode : code[opening]? = some '(' := by
    have hfst : ((marked code).map Prod.fst)[opening]? = some '(' := by
      rw [List.getElem?_map, h]
      rfl
    rwa [map_fst_marked] at hfst
  obtain ⟨hlt, hget⟩ := List.getElem?_eq_some_iff.1 h
  have hdrop : (marked code).drop opening = ('(', true) :: (marked code).drop (opening + 1) := by
    rw [List.drop_eq_getElem_cons hlt, hget]
  have hscan : closingParen? code opening =
      (closingIndex? (1 : Nat) ((marked code).drop (opening + 1))).map (opening + 1 + ·) := by
    rw [closingParen?, if_pos hcode, hdrop]
    show Option.map _ (closingIndex? (0 : Nat) _) = _
    rw [closingIndex?_open, Option.map_map]
    congr 1
    funext n
    simp only [Function.comp]
    omega
  rw [hscan, Option.map_eq_some_iff]
  constructor
  · rintro ⟨i, hi, rfl⟩
    obtain ⟨inner, rest, hrest, hinner, rfl⟩ := closingIndex?_one_iff.1 hi
    refine ⟨(marked code).take opening, inner, rest, ?_, ?_, rfl, hinner⟩
    · rw [← hrest, ← hdrop, List.take_append_drop]
    · rw [List.length_take_of_le (Nat.le_of_lt hlt)]
  · rintro ⟨before, inner, after, hmarked, rfl, rfl, hinner⟩
    refine ⟨inner.length, closingIndex?_one_iff.2 ⟨inner, after, ?_, hinner, rfl⟩, rfl⟩
    rw [hmarked, List.append_cons, List.drop_left' (by simp)]

end Stencil.Lua
