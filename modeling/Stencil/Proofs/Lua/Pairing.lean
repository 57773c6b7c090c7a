import Mathlib.Order.Bounds.Basic
import Stencil.Proofs.Lua.Parens
import Stencil.Proofs.Lua.Segments
import Stencil.Proofs.Text.Offset

/-! Which parenthesis closes the one at a byte offset.

For a parenthesis outside strings and comments it is the first one that closes it by the grammar of
nested parentheses (`closingParenByte?_nested`), and what the strings and comments hold plays no
part in it. An offset inside of a string or comment is another matter: the depth is counted from
there on as if the parenthesis stood in the code, so it can fall below zero, and a parenthesis can
be found that closes a later one (`closingParenByte?_safe_iff`). -/
namespace Stencil.Lua

variable {ms passed rest : List (Char × Bool)} {m : Char × Bool} {depth : Int} {i : Nat}

/-! ### Depth -/

/-- What a character adds to the depth. -/
def weight (m : Char × Bool) : Int :=
  if m = ('(', true) then 1 else if m = (')', true) then -1 else 0

/-- The parentheses that are opened and not closed. -/
def balance : List (Char × Bool) → Int
  | [] => 0
  | m :: rest => weight m + balance rest

@[simp] theorem balance_nil : balance [] = 0 := rfl

@[simp] theorem balance_cons (m : Char × Bool) (ms : List (Char × Bool)) :
    balance (m :: ms) = weight m + balance ms := rfl

@[simp] theorem weight_open : weight ('(', true) = 1 := rfl

@[simp] theorem weight_close : weight (')', true) = -1 := rfl

@[simp] theorem weight_hidden (c : Char) : weight (c, false) = 0 := by
  simp [weight]

theorem weight_of_isParen (h : isParen m = false) : weight m = 0 := by
  unfold weight
  rw [if_neg, if_neg]
  all_goals
    rintro rfl
    exact absurd h (by decide)

theorem closingIndex?_cons (depth : Int) (m : Char × Bool) (rest : List (Char × Bool)) :
    closingIndex? depth (m :: rest) =
      if m = (')', true) ∧ depth = 1 then some 0
      else (closingIndex? (depth + weight m) rest).map (· + 1) := by
  rcases paren_cases m with rfl | rfl | hm
  · rw [if_neg (by simp)]
    rfl
  · by_cases hdepth : depth = 1
    · rw [if_pos ⟨rfl, hdepth⟩, hdepth]
      rfl
    · rw [if_neg (by simp [hdepth])]
      show (if depth = 1 then some 0 else _) = _
      rw [if_neg hdepth]
      rfl
  · have hne : ¬ (m = (')', true) ∧ depth = 1) := by
      rintro ⟨rfl, _⟩
      exact absurd hm (by decide)
    rw [if_neg hne, closingIndex?_other hm, weight_of_isParen hm, Int.add_zero]

/-- The search with the values that its depth takes. -/
def counted : Int → List (Char × Bool) → List Int × Option Nat
  | _, [] => ([], none)
  | depth, m :: rest =>
    if m = (')', true) ∧ depth = 1 then ([0], some 0)
    else
      let (depths, found) := counted (depth + weight m) rest
      ((depth + weight m) :: depths, found.map (· + 1))

theorem counted_snd (depth : Int) (ms : List (Char × Bool)) :
    (counted depth ms).2 = closingIndex? depth ms := by
  induction ms generalizing depth with
  | nil => rfl
  | cons m rest ih =>
    rw [counted, closingIndex?_cons]
    split
    · rfl
    · rw [← ih]

/-- From the first level on the depth is never below zero: it is zero where the search ends. -/
theorem counted_nonneg (h : 1 ≤ depth) : ∀ d ∈ (counted depth ms).1, 0 ≤ d := by
  induction ms generalizing depth with
  | nil => exact fun d hd => nomatch hd
  | cons m rest ih =>
    rw [counted]
    split
    · intro d hd
      rw [List.mem_singleton.1 hd]
    · next hnot =>
      have hnext : 1 ≤ depth + weight m := by
        rcases paren_cases m with rfl | rfl | hm
        · rw [weight_open]
          omega
        · have hdepth : depth ≠ 1 := fun hone => hnot ⟨rfl, hone⟩
          rw [weight_close]
          omega
        · rw [weight_of_isParen hm]
          omega
      exact List.forall_mem_cons.2 ⟨by omega, ih hnext⟩

/-- No parenthesis closes as many as are open in front of it. -/
def StaysOpen (depth : Int) (ms : List (Char × Bool)) : Prop :=
  ∀ passed rest, ms = passed ++ (')', true) :: rest → 1 < depth + balance passed

theorem staysOpen_cons : StaysOpen depth (m :: ms) ↔
    (m = (')', true) → 1 < depth) ∧ StaysOpen (depth + weight m) ms := by
  constructor
  · refine fun hall => ⟨fun hm => ?_, fun passed rest heq => ?_⟩
    · have := hall [] ms (by rw [hm]; rfl)
      rwa [balance_nil, Int.add_zero] at this
    · have := hall (m :: passed) rest (congrArg (m :: ·) heq)
      rwa [balance_cons, ← Int.add_assoc] at this
  · rintro ⟨hfirst, hlater⟩ passed rest heq
    cases passed with
    | nil =>
      rw [balance_nil, Int.add_zero]
      exact hfirst (List.cons.inj heq).1
    | cons p ps =>
      obtain ⟨rfl, hms⟩ := List.cons.inj heq
      rw [balance_cons, ← Int.add_assoc]
      exact hlater ps rest hms

/-- From level zero on the depth stays at zero or above and nothing is found if and only if no
parenthesis closes as many as have been opened. -/
theorem counted_safe_iff (h : 0 ≤ depth) :
    ((∀ d ∈ (counted depth ms).1, 0 ≤ d) ∧ (counted depth ms).2 = none) ↔ StaysOpen depth ms := by
  induction ms generalizing depth with
  | nil =>
    refine iff_of_true ⟨fun d hd => (nomatch hd), rfl⟩ fun passed rest heq => ?_
    cases passed <;> cases heq
  | cons m ms ih =>
    rw [counted, staysOpen_cons]
    split
    · next hlast =>
      obtain ⟨rfl, rfl⟩ := hlast
      exact iff_of_false (fun hsafe => nomatch hsafe.2) fun hopen => absurd (hopen.1 rfl) (by decide)
    · next hnot =>
      dsimp only
      rw [List.forall_mem_cons, Option.map_eq_none_iff, and_assoc]
      by_cases hnext : 0 ≤ depth + weight m
      · rw [ih hnext]
        refine ⟨fun hsafe => ⟨fun hm => ?_, hsafe.2⟩, fun hopen => ⟨hnext, hopen.2⟩⟩
        have hdepth : depth ≠ 1 := fun hone => hnot ⟨hm, hone⟩
        rw [hm, weight_close] at hnext
        omega
      · -- only a closing parenthesis takes the depth below zero
        refine iff_of_false (fun hsafe => hnext hsafe.1) fun hopen => ?_
        rcases paren_cases m with rfl | rfl | hm
        · rw [weight_open] at hnext
          omega
        · have := hopen.1 rfl
          rw [weight_close] at hnext
          omega
        · rw [weight_of_isParen hm] at hnext
          omega

/-- A search either ends in the first part of a text, whatever follows, or it goes on behind that
part with the depth that the part leaves. -/
theorem closingIndex?_append (depth : Int) (ms : List (Char × Bool)) :
    (∃ i < ms.length, ∀ rest, closingIndex? depth (ms ++ rest) = some i) ∨
      ∀ rest, closingIndex? depth (ms ++ rest) =
        (closingIndex? (depth + balance ms) rest).map (· + ms.length) := by
  induction ms generalizing depth with
  | nil => exact .inr fun rest => by rw [balance_nil, Int.add_zero]; exact Option.map_id'.symm
  | cons m ms ih =>
    by_cases hlast : m = (')', true) ∧ depth = 1
    · exact .inl ⟨0, Nat.succ_pos _, fun rest => by
        rw [List.cons_append, closingIndex?_cons, if_pos hlast]⟩
    · rcases ih (depth + weight m) with ⟨i, hi, hfound⟩ | hbehind
      · exact .inl ⟨i + 1, Nat.succ_lt_succ hi, fun rest => by
          rw [List.cons_append, closingIndex?_cons, if_neg hlast, hfound]
          rfl⟩
      · refine .inr fun rest => ?_
        rw [List.cons_append, closingIndex?_cons, if_neg hlast, hbehind, Option.map_map,
          balance_cons, Int.add_assoc]
        rfl

/-! ### Offsets -/

/-- The bytes that the characters take. -/
def bytesOf (ms : List (Char × Bool)) : Nat := Text.utf8Size (ms.map Prod.fst)

@[simp] theorem bytesOf_append (ms ns : List (Char × Bool)) :
    bytesOf (ms ++ ns) = bytesOf ms + bytesOf ns := by
  simp [bytesOf]

@[simp] theorem bytesOf_cons (m : Char × Bool) (ms : List (Char × Bool)) :
    bytesOf (m :: ms) = m.1.utf8Size + bytesOf ms := rfl

theorem bytesOf_hidden (t : Text) : bytesOf (t.map (·, false)) = t.utf8Size := by
  simp [bytesOf, Function.comp_def]

/-- A character, significant or hidden, starts at a byte offset. -/
def StandsAt (ms : List (Char × Bool)) (m : Char × Bool) (offset : Nat) : Prop :=
  ∃ before after, ms = before ++ m :: after ∧ bytesOf before = offset

/-- The parenthesis at a byte offset is closed by the one at another: both stand outside strings and
comments, and those that do so between them are properly nested. -/
def ClosesAt (ms : List (Char × Bool)) (opening closing : Nat) : Prop :=
  ∃ before inner after, ms = before ++ ('(', true) :: (inner ++ (')', true) :: after) ∧
    bytesOf before = opening ∧ opening + 1 + bytesOf inner = closing ∧ Nested inner

variable {code : Text} {before after : List (Char × Bool)} {opening closing : Nat}

theorem utf8Size_take (code : Text) (n : Nat) :
    Text.utf8Size (code.take n) = bytesOf ((marked code).take n) := by
  rw [bytesOf, List.map_take, map_fst_marked]

theorem getElem?_of_marked (h : marked code = before ++ m :: after) :
    code[before.length]? = some m.1 := by
  rw [← map_fst_marked code, h]
  simp

theorem indexOfByte?_of_marked (h : marked code = before ++ after) :
    code.indexOfByte? (bytesOf before) = some before.length := by
  have hcode := map_fst_marked code
  rw [h, List.map_append] at hcode
  have hindex := Text.indexOfByte?_utf8Size (before.map Prod.fst) (after.map Prod.fst)
  rwa [hcode, List.length_map] at hindex

/-- Where the marked code is parted is known from the offset. -/
theorem append_inj_of_marked {first behind : List (Char × Bool)}
    (h : marked code = before ++ after) (h' : marked code = first ++ behind)
    (hbytes : bytesOf first = bytesOf before) : before = first ∧ after = behind := by
  have hindex := indexOfByte?_of_marked h'
  rw [hbytes, indexOfByte?_of_marked h] at hindex
  exact List.append_inj (h.symm.trans h') (Option.some.inj hindex)

/-- What is found from a byte offset on is found from the character there. -/
theorem closingParenByte?_of_marked (h : marked code = before ++ after) :
    closingParenByte? code (bytesOf before) =
      (closingParen? code before.length).map fun n => bytesOf ((marked code).take n) := by
  have hbytes : (fun n => bytesOf ((marked code).take n)) = fun n => Text.utf8Size (code.take n) :=
    funext fun n => (utf8Size_take code n).symm
  rw [closingParenByte?, indexOfByte?_of_marked h, hbytes]
  exact Option.map_eq_bind.symm

/-- The search from a parenthesis on. -/
theorem closingParenByte?_eq_map {significant : Bool}
    (h : marked code = before ++ ('(', significant) :: after) :
    closingParenByte? code (bytesOf before) =
      (closingIndex? 0 (('(', significant) :: after)).map fun n =>
        bytesOf before + bytesOf ((('(', significant) :: after).take n) := by
  have hcode : code[before.length]? = some '(' := getElem?_of_marked h
  have hdrop : (marked code).drop before.length = ('(', significant) :: after := by
    rw [h, List.drop_left]
  have hbytes : ∀ n, bytesOf ((marked code).take (before.length + n)) =
      bytesOf before + bytesOf ((('(', significant) :: after).take n) := by
    intro n
    rw [h, List.take_length_add_append, bytesOf_append]
  rw [closingParenByte?_of_marked h, closingParen?, if_pos hcode, hdrop, Option.map_map]
  congr 1
  exact funext hbytes

/-! ### The parenthesis that closes another -/

theorem closingParenByte?_eq_some_iff (h : StandsAt (marked code) ('(', true) opening) :
    closingParenByte? code opening = some closing ↔ ClosesAt (marked code) opening closing := by
  obtain ⟨before, after, hmarked, rfl⟩ := h
  have hopen : (marked code)[before.length]? = some ('(', true) := by
    rw [hmarked]
    simp
  have hbytes : ∀ inner rest,
      marked code = before ++ ('(', true) :: (inner ++ (')', true) :: rest) →
      bytesOf ((marked code).take (before.length + 1 + inner.length)) =
        bytesOf before + 1 + bytesOf inner := by
    intro inner rest heq
    rw [heq, Nat.add_assoc, List.take_length_add_append, Nat.add_comm 1, List.take_succ_cons,
      List.take_left, bytesOf_append, bytesOf_cons, Nat.add_assoc]
    rfl
  rw [closingParenByte?_of_marked hmarked, Option.map_eq_some_iff]
  constructor
  · rintro ⟨_, hclosing, rfl⟩
    obtain ⟨first, inner, rest, heq, hlength, rfl, hinner⟩ :=
      (closingParen?_eq_some_iff hopen).1 hclosing
    obtain ⟨rfl, _⟩ := List.append_inj (hmarked.symm.trans heq) hlength.symm
    exact ⟨before, inner, rest, heq, rfl, (hbytes inner rest heq).symm, hinner⟩
  · rintro ⟨first, inner, rest, heq, hfirst, rfl, hinner⟩
    obtain ⟨rfl, _⟩ := append_inj_of_marked hmarked heq hfirst
    refine ⟨before.length + 1 + inner.length, ?_, hbytes inner rest heq⟩
    exact (closingParen?_eq_some_iff hopen).2 ⟨before, inner, rest, heq, rfl, rfl, hinner⟩

/-- What is hidden at the end of a line closes nothing. -/
theorem ClosesAt.of_append_hidden {t : Text}
    (h : ClosesAt (ms ++ t.map (·, false)) opening closing) : ClosesAt ms opening closing := by
  obtain ⟨before, inner, after, heq, hbefore, hinner, hnested⟩ := h
  have hsplit : ms ++ (t.map (·, false) ++ []) =
      (before ++ ('(', true) :: inner) ++ (')', true) :: after := by
    rw [List.append_nil, heq, List.append_assoc, List.cons_append]
  rcases exists_of_append_hidden hsplit with ⟨rest, rfl, _⟩ | ⟨rest, _, hnil⟩
  · exact ⟨before, inner, rest, by rw [List.append_assoc, List.cons_append], hbefore, hinner,
      hnested⟩
  · exact absurd hnil.symm (List.append_ne_nil_of_right_ne_nil _ (List.cons_ne_nil _ _))

theorem bytesOf_take_passed (ms part ns : List (Char × Bool)) (n : Nat) :
    bytesOf ((ms ++ (part ++ ns)).take (n + part.length + ms.length)) =
      bytesOf ms + (bytesOf part + bytesOf (ns.take n)) := by
  rw [Nat.add_comm _ ms.length, List.take_length_add_append, Nat.add_comm n,
    List.take_length_add_append, bytesOf_append, bytesOf_append]

/-- What a string or comment holds plays no part in the search, except for the bytes it takes. -/
theorem closingParenByte?_of_hidden {code' t t' : Text}
    (h : marked code = before ++ (t.map (·, false) ++ after))
    (h' : marked code' = before ++ (t'.map (·, false) ++ after))
    (hsize : Text.utf8Size t' = Text.utf8Size t)
    (hopening : StandsAt (marked code) ('(', true) opening) :
    closingParenByte? code' opening = closingParenByte? code opening := by
  have hbytes : bytesOf (t'.map (·, false)) = bytesOf (t.map (·, false)) := by
    rw [bytesOf_hidden, bytesOf_hidden, hsize]
  obtain ⟨first, behind, hmarked, rfl⟩ := hopening
  rcases exists_of_append_hidden (h.symm.trans hmarked) with ⟨rest, rfl, rfl⟩ | ⟨rest, rfl, rfl⟩
  · rw [List.append_assoc, List.cons_append] at h h'
    rw [closingParenByte?_eq_map h, closingParenByte?_eq_map h', ← List.cons_append,
      ← List.cons_append]
    rcases closingIndex?_append 0 (('(', true) :: rest) with ⟨i, hi, hfound⟩ | hbehind
    · -- found in front of the string or comment
      rw [hfound, hfound, Option.map_some, Option.map_some,
        List.take_append_of_le_length (Nat.le_of_lt hi),
        List.take_append_of_le_length (Nat.le_of_lt hi)]
    · -- searched for behind it, from the same depth on
      rw [hbehind, hbehind, closingIndex?_passed fun _ => isParen_of_hidden,
        closingIndex?_passed fun _ => isParen_of_hidden, Option.map_map, Option.map_map,
        Option.map_map, Option.map_map]
      congr 1
      funext n
      simp only [Function.comp_apply, bytesOf_take_passed, hbytes]
  · have hfront : bytesOf (before ++ (t.map (·, false) ++ rest)) =
        bytesOf (before ++ (t'.map (·, false) ++ rest)) := by
      simp only [bytesOf_append, hbytes]
    have hmarked' : marked code' =
        (before ++ (t'.map (·, false) ++ rest)) ++ ('(', true) :: behind := by
      rw [h', List.append_assoc, List.append_assoc]
    rw [closingParenByte?_eq_map hmarked, hfront, closingParenByte?_eq_map hmarked']

/-- **The search finds the parenthesis that closes the one at an offset**, the first one that does,
and nothing where there is none; what is not closed on the line closes nothing, and no string or
comment has a say by what it holds. -/
theorem closingParenByte?_nested (code : Text) :
    (∃ segments, IsCode segments ∧ segmentsText segments = code) ∧
    ∀ segments, IsCode segments → segmentsText segments = code →
      ∀ opening, StandsAt (segmentsMarked segments) ('(', true) opening →
        (∀ closing, closingParenByte? code opening = some closing ↔
          IsLeast {p | opening < p ∧ ClosesAt (segmentsMarked segments) opening p} closing) ∧
        (closingParenByte? code opening = none ↔
          ∀ p, ¬ ClosesAt (segmentsMarked segments) opening p) ∧
        (∀ before t, segments = before ++ [.unclosed t] →
          (∀ p, ¬ ClosesAt (segmentsMarked before) opening p) →
          closingParenByte? code opening = none) ∧
        ∀ before after start inside inside' finish,
          segments = before ++ .hidden start inside finish :: after →
          Encloses start inside' finish → Text.utf8Size inside' = Text.utf8Size inside →
          closingParenByte? (segmentsText (before ++ .hidden start inside' finish :: after))
            opening = closingParenByte? code opening := by
  refine ⟨exists_isCode code, ?_⟩
  rintro segments hcode rfl opening hopening
  rw [← hcode.marked_eq] at hopening ⊢
  have hsome : ∀ closing, closingParenByte? (segmentsText segments) opening = some closing ↔
      ClosesAt (marked (segmentsText segments)) opening closing :=
    fun closing => closingParenByte?_eq_some_iff hopening
  have hlater : ∀ {p}, ClosesAt (marked (segmentsText segments)) opening p → opening < p := by
    rintro p ⟨_, inner, _, _, _, rfl, _⟩
    omega
  have hnone : closingParenByte? (segmentsText segments) opening = none ↔
      ∀ p, ¬ ClosesAt (marked (segmentsText segments)) opening p := by
    rw [Option.eq_none_iff_forall_ne_some]
    exact forall_congr' fun p => not_congr (hsome p)
  refine ⟨fun closing => ⟨fun hfound => ?_, fun hleast => (hsome closing).2 hleast.1.2⟩, hnone,
    ?_, ?_⟩
  · have hcloses := (hsome closing).1 hfound
    refine ⟨⟨hlater hcloses, hcloses⟩, fun p hp => ?_⟩
    have hsame := hfound.symm.trans ((hsome p).2 hp.2)
    exact Nat.le_of_eq (Option.some.inj hsame)
  · rintro before t rfl hopen
    refine hnone.2 fun p hp => hopen p ?_
    have hmarked : segmentsMarked (before ++ [.unclosed t]) =
        segmentsMarked before ++ t.map (·, false) := by
      rw [segmentsMarked_append, segmentsMarked_cons]
      exact congrArg _ (List.append_nil _)
    rw [hcode.marked_eq, hmarked] at hp
    exact hp.of_append_hidden
  · rintro before after start inside inside' finish rfl hencloses hsize
    have hmarked : ∀ {inside},
        IsCode (before ++ .hidden start inside finish :: after) →
        marked (segmentsText (before ++ .hidden start inside finish :: after)) =
          segmentsMarked before ++ ((start ++ (inside ++ finish)).map (·, false) ++
            segmentsMarked after) := by
      intro inside h
      rw [h.marked_eq, segmentsMarked_append, segmentsMarked_cons]
      rfl
    refine closingParenByte?_of_hidden (hmarked hcode) (hmarked (hcode.replace hencloses)) ?_
      hopening
    simp only [Text.utf8Size_append, hsize]

/-- In `('(')` the last parenthesis closes the first one, and so it does if the string holds a
closing parenthesis. -/
theorem closingParenByte?_nested_string :
    closingParenByte? "('(')" 0 = some 4 ∧ closingParenByte? "(')')" 0 = some 4 := by
  have hcode : IsCode [.char '(', .hidden ['\''] ['('] ['\''], .char ')'] :=
    .char (by decide) (.hidden (.short (.inl rfl) (.char (by decide) (by decide) .nil))
      (.char (by decide) .nil))
  have hclosing : Encloses ['\''] [')'] ['\''] :=
    .short (.inl rfl) (.char (by decide) (by decide) .nil)
  have hfound : closingParenByte? "('(')" 0 = some 4 := by decide
  obtain ⟨_, hnested⟩ := closingParenByte?_nested "('(')"
  obtain ⟨_, _, _, hreplaced⟩ := hnested _ hcode rfl 0 ⟨[], _, rfl, rfl⟩
  have hsame := hreplaced [.char '('] [.char ')'] ['\''] ['('] [')'] ['\''] rfl hclosing rfl
  exact ⟨hfound, hsame.trans hfound⟩

/-! ### Any offset -/

/-- The search from a byte offset, with the values that its depth takes. -/
def countedAt (code : Text) (opening : Nat) : List Int × Option Nat :=
  match code.indexOfByte? opening with
  | none => ([], none)
  | some i =>
    if code[i]? = some '(' then
      let (depths, found) := counted 0 ((marked code).drop i)
      (depths, found.map fun n => Text.utf8Size (code.take (i + n)))
    else ([], none)

theorem countedAt_snd (code : Text) (opening : Nat) :
    (countedAt code opening).2 = closingParenByte? code opening := by
  unfold countedAt closingParenByte?
  cases code.indexOfByte? opening with
  | none => rfl
  | some i =>
    show _ = (closingParen? code i).bind _
    rw [closingParen?]
    dsimp only
    split
    · rw [counted_snd, Option.bind_map, Option.map_eq_bind]
      rfl
    · rfl

theorem exists_standsAt {c : Char} (hindex : code.indexOfByte? opening = some i)
    (h : code[i]? = some c) : ∃ significant, StandsAt (marked code) (c, significant) opening := by
  obtain ⟨first, rest, rfl, rfl, rfl⟩ := Text.indexOfByte?_eq_some_iff.1 hindex
  have hfst := map_fst_marked (first ++ rest)
  obtain ⟨before, after, hmarked, rfl, rfl⟩ := List.map_eq_append_iff.1 hfst
  rw [List.getElem?_append_right (Nat.le_refl _), Nat.sub_self] at h
  cases after with
  | nil => cases h
  | cons m after =>
    cases h
    exact ⟨m.2, before, after, hmarked, rfl⟩

theorem countedAt_of_marked {significant : Bool}
    (h : marked code = before ++ ('(', significant) :: after) :
    (countedAt code (bytesOf before)).1 = (counted 0 (('(', significant) :: after)).1 := by
  have hcode : code[before.length]? = some '(' := getElem?_of_marked h
  rw [countedAt, indexOfByte?_of_marked h]
  dsimp only
  rw [if_pos hcode, h, List.drop_left]

/-- Where no parenthesis stands nothing is counted. -/
theorem countedAt_of_not_standsAt
    (h : ∀ significant, ¬ StandsAt (marked code) ('(', significant) opening) :
    countedAt code opening = ([], none) := by
  unfold countedAt
  cases hindex : code.indexOfByte? opening with
  | none => rfl
  | some i =>
    dsimp only
    split
    · next hparen =>
      obtain ⟨significant, hstands⟩ := exists_standsAt hindex hparen
      exact absurd hstands (h significant)
    · rfl

theorem StandsAt.unique {m n : Char × Bool} (hm : StandsAt (marked code) m opening)
    (hn : StandsAt (marked code) n opening) : m = n := by
  obtain ⟨before, after, hmarked, rfl⟩ := hm
  obtain ⟨first, rest, heq, hbytes⟩ := hn
  exact (List.cons.inj (append_inj_of_marked hmarked heq hbytes).2).1

/-- **The search is safe at every offset but those of hidden parentheses**: its depth is never below
zero, and it finds nothing unless a parenthesis of the code stands at the offset. At a parenthesis
inside a string or comment it is safe only if no parenthesis behind it closes as many as are opened
from there on. -/
theorem closingParenByte?_safe_iff (code : Text) (opening : Nat) :
    ∃ segments, IsCode segments ∧ segmentsText segments = code ∧
      (countedAt code opening).2 = closingParenByte? code opening ∧
      (((∀ depth ∈ (countedAt code opening).1, 0 ≤ depth) ∧
        (¬ StandsAt (segmentsMarked segments) ('(', true) opening →
          closingParenByte? code opening = none)) ↔
        ∀ before passed rest, segmentsMarked segments =
          before ++ ('(', false) :: (passed ++ (')', true) :: rest) →
          bytesOf before = opening → 1 < balance passed) := by
  obtain ⟨segments, hcode, rfl⟩ := exists_isCode code
  refine ⟨segments, hcode, rfl, countedAt_snd _ _, ?_⟩
  rw [← hcode.marked_eq, ← countedAt_snd]
  by_cases hstands : ∃ significant,
      StandsAt (marked (segmentsText segments)) ('(', significant) opening
  · obtain ⟨significant, before, after, hmarked, rfl⟩ := hstands
    have hhere : StandsAt (marked (segmentsText segments)) ('(', significant) (bytesOf before) :=
      ⟨before, after, hmarked, rfl⟩
    cases significant with
    | true =>
      refine iff_of_true ⟨?_, fun hnot => absurd hhere hnot⟩ ?_
      · rw [countedAt_of_marked hmarked]
        exact List.forall_mem_cons.2 ⟨by decide, counted_nonneg (by decide)⟩
      · intro first passed rest heq hbytes
        exact absurd (hhere.unique ⟨first, _, heq, hbytes⟩) (by decide)
    | false =>
      have hnot : ¬ StandsAt (marked (segmentsText segments)) ('(', true) (bytesOf before) :=
        fun hopen => absurd (hhere.unique hopen) (by decide)
      have hnone : (countedAt (segmentsText segments) (bytesOf before)).2 = none ↔
          (counted 0 (('(', false) :: after)).2 = none := by
        rw [countedAt_snd, closingParenByte?_eq_map hmarked, Option.map_eq_none_iff, counted_snd]
      have hopen : StaysOpen 0 (('(', false) :: after) ↔
          ∀ passed rest, after = passed ++ (')', true) :: rest → 1 < balance passed := by
        rw [staysOpen_cons, weight_hidden]
        simp [StaysOpen]
      rw [countedAt_of_marked hmarked, hnone, imp_iff_right hnot,
        counted_safe_iff (Int.le_refl 0), hopen]
      constructor
      · intro hall first passed rest heq hbytes
        obtain ⟨rfl, hafter⟩ := append_inj_of_marked hmarked heq hbytes
        exact hall passed rest (List.cons.inj hafter).2
      · intro hall passed rest heq
        exact hall before passed rest (by rw [hmarked, heq]) rfl
  · have hnowhere := not_exists.1 hstands
    rw [countedAt_of_not_standsAt hnowhere]
    refine iff_of_true ⟨fun _ hd => (nomatch hd), fun _ => rfl⟩ ?_
    exact fun before passed rest heq hbytes => absurd ⟨before, _, heq, hbytes⟩ (hnowhere false)

/-- The parenthesis at the offset stands in a string: what is found closes one behind the string,
and a parenthesis that closes nothing brings the depth below zero. -/
theorem closingParenByte?_string :
    "\"(\" ()".toList = segmentsText [.hidden ['"'] ['('] ['"'], .char ' ', .char '(', .char ')'] ∧
      (marked "\"(\" ()")[1]? = some ('(', false) ∧ closingParenByte? "\"(\" ()" 1 = some 5 ∧
      (marked "\"(\" )")[1]? = some ('(', false) ∧ (countedAt "\"(\" )" 1).1 = [0, 0, 0, -1] := by
  decide

/-! ### Parts of the code -/

section Parts

variable {u : Text} {ns : List (Char × Bool)}

/-- A character in front of a part stands where it does without the part. -/
theorem StandsAt.of_append_left (h : StandsAt (ms ++ ns) m opening) (hlt : opening < bytesOf ms) :
    StandsAt ms m opening := by
  obtain ⟨first, rest, heq, rfl⟩ := h
  rcases List.append_eq_append_iff.1 heq.symm with ⟨more, rfl, hrest⟩ | ⟨more, rfl, hrest⟩
  · cases more with
    | nil =>
      rw [List.append_nil] at hlt
      exact absurd hlt (Nat.lt_irrefl _)
    | cons n more =>
      obtain ⟨rfl, -⟩ := List.cons.inj hrest
      exact ⟨first, more, rfl, rfl⟩
  · rw [bytesOf_append] at hlt
    omega

/-- A character behind a part stands where it does without the part, but for the bytes of it. -/
theorem StandsAt.of_append_right (h : StandsAt (ms ++ ns) m (bytesOf ms + opening)) :
    StandsAt ns m opening := by
  obtain ⟨first, rest, heq, hbytes⟩ := h
  rcases List.append_eq_append_iff.1 heq with ⟨more, rfl, hrest⟩ | ⟨more, rfl, hrest⟩
  · refine ⟨more, rest, hrest, ?_⟩
    rw [bytesOf_append] at hbytes
    omega
  · cases more with
    | nil =>
      rw [List.append_nil] at hbytes
      exact ⟨[], rest, hrest.symm, (Nat.add_left_cancel hbytes.symm).symm⟩
    | cons n more =>
      have := n.1.utf8Size_pos
      rw [bytesOf_append, bytesOf_cons] at hbytes
      omega

/-- Where no parenthesis stands none is found. -/
theorem closingParenByte?_eq_none
    (h : ∀ significant, ¬ StandsAt (marked code) ('(', significant) opening) :
    closingParenByte? code opening = none := by
  rw [← countedAt_snd, countedAt_of_not_standsAt h]

/-- Behind a part the search is the one in what stands behind it. -/
theorem closingParenByte?_behind (h : marked code = ms ++ marked u) (opening : Nat) :
    closingParenByte? code (bytesOf ms + opening) =
      (closingParenByte? u opening).map (bytesOf ms + ·) := by
  by_cases hstands : ∃ significant, StandsAt (marked u) ('(', significant) opening
  · obtain ⟨significant, first, rest, hmarked, rfl⟩ := hstands
    have hwhole : marked code = (ms ++ first) ++ ('(', significant) :: rest := by
      rw [h, hmarked, List.append_assoc]
    rw [closingParenByte?_eq_map hmarked, ← bytesOf_append, closingParenByte?_eq_map hwhole,
      Option.map_map]
    simp only [bytesOf_append, Function.comp_def, Nat.add_assoc]
  · have hnowhere := not_exists.1 hstands
    rw [closingParenByte?_eq_none hnowhere, closingParenByte?_eq_none fun significant hwhole => ?_]
    · rfl
    · rw [h] at hwhole
      exact hnowhere significant hwhole.of_append_right

theorem exists_of_closingIndex?_eq_some (h : closingIndex? depth ms = some i) :
    ∃ passed rest, ms = passed ++ (')', true) :: rest ∧ passed.length = i := by
  induction ms generalizing depth i with
  | nil => cases h
  | cons m ms ih =>
    rw [closingIndex?_cons] at h
    split at h
    · next hlast =>
      cases h
      exact ⟨[], ms, by rw [hlast.1]; rfl, rfl⟩
    · obtain ⟨j, hj, rfl⟩ := Option.map_eq_some_iff.1 h
      obtain ⟨passed, rest, rfl, rfl⟩ := ih hj
      exact ⟨m :: passed, rest, rfl, rfl⟩

/-- From any offset on, what is found is a parenthesis outside strings and comments. -/
theorem standsAt_of_closingParenByte? (h : closingParenByte? code opening = some closing) :
    StandsAt (marked code) (')', true) closing := by
  by_cases hstands : ∃ significant, StandsAt (marked code) ('(', significant) opening
  · obtain ⟨significant, first, rest, hmarked, rfl⟩ := hstands
    rw [closingParenByte?_eq_map hmarked] at h
    obtain ⟨i, hi, rfl⟩ := Option.map_eq_some_iff.1 h
    obtain ⟨passed, behind, heq, rfl⟩ := exists_of_closingIndex?_eq_some hi
    refine ⟨first ++ passed, behind, ?_, ?_⟩
    · rw [hmarked, heq, List.append_assoc]
    · rw [heq, List.take_left, bytesOf_append]
  · rw [closingParenByte?_eq_none (not_exists.1 hstands)] at h
    cases h

theorem bytesOf_take_lt (h : i < ms.length) : bytesOf (ms.take i) < bytesOf ms := by
  have hdrop : ms.drop i ≠ [] := List.drop_eq_nil_iff.not.2 (Nat.not_le.2 h)
  obtain ⟨m, rest, hrest⟩ := List.exists_cons_of_ne_nil hdrop
  have hsplit := List.take_append_drop i ms
  have := m.1.utf8Size_pos
  rw [← hsplit, hrest, List.take_left' (List.length_take_of_le (Nat.le_of_lt h)), bytesOf_append,
    bytesOf_cons]
  omega

/-- One part without a parenthesis of the code can stand for another: what is found behind it is
found that many bytes on. -/
theorem closingParenByte?_replace {code' : Text} {part part' : List (Char × Bool)}
    (h : marked code = ms ++ (part ++ ns)) (h' : marked code' = ms ++ (part' ++ ns))
    (hpart : ∀ m ∈ part, isParen m = false) (hpart' : ∀ m ∈ part', isParen m = false)
    (hopening : opening < bytesOf ms) :
    closingParenByte? code' opening = (closingParenByte? code opening).map fun closing =>
      if closing < bytesOf ms then closing else closing - bytesOf part + bytesOf part' := by
  by_cases hstands : ∃ significant, StandsAt ms ('(', significant) opening
  · obtain ⟨significant, first, rest, rfl, rfl⟩ := hstands
    rw [List.append_assoc, List.cons_append] at h h'
    rw [closingParenByte?_eq_map h, closingParenByte?_eq_map h', ← List.cons_append,
      ← List.cons_append]
    rcases closingIndex?_append 0 (('(', significant) :: rest) with ⟨i, hi, hfound⟩ | hbehind
    · -- found in front of the part
      have hlt := bytesOf_take_lt hi
      rw [hfound, hfound, Option.map_some, Option.map_some, Option.map_some,
        List.take_append_of_le_length (Nat.le_of_lt hi),
        List.take_append_of_le_length (Nat.le_of_lt hi), bytesOf_append, if_pos (by omega)]
    · -- searched for behind it, from the same depth on
      rw [hbehind, hbehind, closingIndex?_passed hpart, closingIndex?_passed hpart', Option.map_map,
        Option.map_map, Option.map_map, Option.map_map, Option.map_map]
      congr 1
      funext n
      simp only [Function.comp_apply, bytesOf_take_passed, bytesOf_append]
      rw [if_neg (by omega)]
      omega
  · have hnone : ∀ {code : Text} {behind : List (Char × Bool)}, marked code = ms ++ behind →
        closingParenByte? code opening = none := by
      intro code behind hmarked
      refine closingParenByte?_eq_none fun significant hwhole => ?_
      rw [hmarked] at hwhole
      exact not_exists.1 hstands significant (hwhole.of_append_left hopening)
    rw [hnone h, hnone h']
    rfl

end Parts

end Stencil.Lua
