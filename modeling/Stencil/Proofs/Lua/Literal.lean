import Stencil.Proofs.Lua.Comment
import Stencil.Proofs.Lua.Ending

/-! Literals in code.

Every form of a literal is a string or a long bracket from its opening to its closing
(`exists_encloses_quote`), so the scanner passes over it as a whole, whatever it holds and whatever
stands behind it. Behind code that a literal can follow (`TakesLiteral`) nothing that the literal
holds plays a part: `PassesOver` says what this is for each of the readers that go by the marks. -/
namespace Stencil.Lua

open Bytewise

/-! ### A literal is one string -/

section Encloses

variable {quote : Char} {t : Text}

theorem isShort_of_forall (h : ∀ c ∈ t, c ≠ '\\' ∧ c ≠ quote) : IsShort quote t := by
  induction t with
  | nil => exact .nil
  | cons c cs ih =>
    obtain ⟨⟨hescape, hquote⟩, hcs⟩ := List.forall_mem_cons.1 h
    exact .char hescape hquote (ih hcs)

theorem IsShort.digit {c : Char} (hc : isAsciiDigit c = true) (h : IsShort '"' t) :
    IsShort '"' (c :: t) := by
  refine .char ?_ ?_ h
  all_goals
    rintro rfl
    exact absurd hc (by decide)

/-- A character or its escape goes on in a string. -/
theorem IsShort.escapeChar_append (c : Char) (h : IsShort '"' t) :
    IsShort '"' (escapeChar c ++ t) := by
  unfold escapeChar
  split
  · exact .escape _ h
  next hslash =>
  split
  · exact .escape _ h
  next hdouble =>
  split
  · exact .escape _ h
  split
  · exact .escape _ h
  split
  · next hneeds =>
    obtain ⟨x, y, z, heq, _, hy, hz, _⟩ := decimalEscape_eq (lt_of_needsEscape hneeds)
    rw [heq]
    exact .escape x ((h.digit hz).digit hy)
  · exact .char hslash hdouble h

theorem isShort_flatMap_escapeChar (content : Text) : IsShort '"' (content.flatMap escapeChar) := by
  induction content with
  | nil => exact .nil
  | cons c cs ih =>
    rw [List.flatMap_cons]
    exact ih.escapeChar_append c

end Encloses

/-- **A literal is a string or a long bracket from its opening to its closing**, in each of its four
forms. -/
theorem exists_encloses_quote (content : Text) : ∃ opening inside closing,
    quote content = opening ++ (inside ++ closing) ∧ Encloses opening inside closing := by
  have hplain : ∀ {q : Char}, '\\' ∉ content ∧ q ∉ content → IsShort q content :=
    fun {q} h => isShort_of_forall fun c hc =>
      ⟨fun heq => h.1 (heq ▸ hc), fun heq => h.2 (heq ▸ hc)⟩
  unfold quote
  split
  · exact ⟨['"'], _, ['"'], rfl, .short (.inr rfl) (isShort_flatMap_escapeChar content)⟩
  split
  · next hsingle => exact ⟨['\''], content, ['\''], rfl, .short (.inl rfl) (hplain hsingle)⟩
  split
  · next hdouble => exact ⟨['"'], content, ['"'], rfl, .short (.inr rfl) (hplain hdouble)⟩
  · have hfits := fitsLevel_iff.1 (fitsLevel_longLevel content)
    refine ⟨longOpening (longLevel content), content, longClosing (longLevel content), ?_,
      .long hfits⟩
    simp [longLiteral, longOpening]

theorem marked_quote_append (content t : Text) :
    marked (quote content ++ t) = (quote content).map (·, false) ++ marked t := by
  obtain ⟨opening, inside, closing, heq, hencloses⟩ := exists_encloses_quote content
  rw [heq]
  exact hencloses.marked_append t

/-! ### What is passed over -/

/-- The readers of code read it as if a blank stood between two parts of it. -/
structure PassesOver (before hidden behind : Text) : Prop where
  /-- Every character of the parts is marked as it is by itself, and none between them is seen. -/
  marked_eq : marked (before ++ (hidden ++ behind)) =
    marked before ++ (hidden.map (·, false) ++ marked behind)
  /-- The bytes outside strings and comments are those of the parts. -/
  positions_eq : positions (before ++ (hidden ++ behind)).bytes =
    positions before.bytes ++
      (positions behind.bytes).map (before.bytes.length + hidden.bytes.length + ·)
  /-- The code does not end between them. -/
  prefix_eq : significantPrefix (before ++ (hidden ++ behind)) =
    if significantPrefix behind = [] then significantPrefix before
    else before ++ (hidden ++ significantPrefix behind)
  /-- A parenthesis in front of them is closed by the one that closes it across a blank. -/
  closing_before : ∀ opening < before.bytes.length,
    closingParenByte? (before ++ (hidden ++ behind)) opening =
      (closingParenByte? (before ++ ' ' :: behind) opening).map fun closing =>
        if closing < before.bytes.length then closing else closing - 1 + hidden.bytes.length
  /-- A parenthesis behind them is closed by the one that closes it there. -/
  closing_behind : ∀ opening,
    closingParenByte? (before ++ (hidden ++ behind))
        (before.bytes.length + hidden.bytes.length + opening) =
      (closingParenByte? behind opening).map (before.bytes.length + hidden.bytes.length + ·)
  /-- From no offset on a parenthesis between them is found. -/
  closing_outside : ∀ opening closing,
    closingParenByte? (before ++ (hidden ++ behind)) opening = some closing →
      closing < before.bytes.length ∨ before.bytes.length + hidden.bytes.length ≤ closing

theorem PassesOver.of_marked {before hidden behind : Text}
    (h : marked (before ++ (hidden ++ behind)) =
      marked before ++ (hidden.map (·, false) ++ marked behind))
    (hblank : marked (before ++ ' ' :: behind) =
      marked before ++ ([(' ', true)] ++ marked behind)) :
    PassesOver before hidden behind := by
  have hpart : bytesOf (hidden.map (·, false)) = hidden.bytes.length := by
    rw [bytesOf_hidden, length_bytes_eq_utf8Size]
  have hfront : bytesOf (marked before ++ hidden.map (·, false)) =
      before.bytes.length + hidden.bytes.length := by
    rw [bytesOf_append, bytesOf_marked, hpart]
  have hwhole : marked (before ++ (hidden ++ behind)) =
      (marked before ++ hidden.map (·, false)) ++ marked behind := by
    rw [h, List.append_assoc]
  refine ⟨h, ?_, ?_, fun opening hopening => ?_, fun opening => ?_,
    fun opening closing hfound => ?_⟩
  · rw [positions_of_marked hwhole, hfront, significantBytes_append, significantBytes_hidden,
      List.append_nil, positions_bytes before]
  · have hend : ((hidden.map (·, false)).rdropWhile trails) = [] := by
      refine List.rdropWhile_eq_nil_iff.2 fun m hm => ?_
      obtain ⟨c, -, rfl⟩ := List.mem_map.1 hm
      rfl
    have hfst : (marked before ++ hidden.map (·, false)).map Prod.fst = before ++ hidden := by
      rw [List.map_append, map_fst_marked]
      simp [Function.comp_def]
    rw [significantPrefix_of_marked hwhole, rdropWhile_append, hend, List.isEmpty_nil, if_pos rfl,
      hfst, List.append_assoc]
    rfl
  · have hone : ∀ m ∈ [(' ', true)], isParen m = false := by decide
    rw [← bytesOf_marked] at hopening ⊢
    rw [closingParenByte?_replace hblank h hone (fun _ => isParen_of_hidden) hopening, hpart]
    rfl
  · rw [← hfront]
    exact closingParenByte?_behind hwhole opening
  · obtain ⟨first, rest, heq, rfl⟩ := standsAt_of_closingParenByte? hfound
    rw [h] at heq
    rw [← bytesOf_marked before]
    rcases exists_of_append_hidden heq with ⟨more, hmore, -⟩ | ⟨more, rfl, -⟩
    · left
      rw [hmore, bytesOf_append, bytesOf_cons]
      exact Nat.lt_add_of_pos_right (Nat.add_pos_left (Char.utf8Size_pos _) _)
    · right
      rw [bytesOf_append, bytesOf_append, hpart]
      omega

/-! ### Where a literal can stand -/

/-- A literal can stand behind the text: every string and comment of the text is closed, and it does
not end in a bracket and signs, to which a long bracket would be joined. -/
def TakesLiteral (before : Text) : Prop :=
  IsComplete before ∧ ∀ level, ¬ '[' :: Text.repeated '=' level <:+ before

theorem exists_cons_quote (content : Text) :
    ∃ s rest, quote content = s :: rest ∧ s ≠ '=' ∧ s ≠ '-' := by
  unfold quote
  repeat' split
  all_goals exact ⟨_, _, rfl, by decide, by decide⟩

theorem TakesLiteral.staysApart {before : Text} (h : TakesLiteral before) (content t : Text) :
    StaysApart before (quote content ++ t) := by
  obtain ⟨s, rest, heq, hsign, hminus⟩ := exists_cons_quote content
  intro c cs hsuffix hbegins
  rw [heq, List.cons_append, List.cons_append] at hbegins
  rw [beginsHidden_iff] at hbegins ⊢
  refine hbegins.imp id (Or.imp ?_ ?_)
  · rintro ⟨level, hlevel⟩
    have hcut := longOpening_isPrefix_cut hsign hlevel
    rw [← List.cons_append, List.prefix_concat_iff] at hcut
    rcases hcut with hjoined | hin
    · have hsplit : ('[' :: Text.repeated '=' level) ++ ['['] = (c :: cs) ++ [s] := hjoined
      have hend := (List.append_inj' hsplit rfl).1
      exact absurd (hend ▸ hsuffix) (h.2 level)
    · exact ⟨level, hin⟩
  · intro hcomment
    obtain ⟨behind, hwhole⟩ := hcomment
    obtain ⟨rfl, hnext⟩ := List.cons.inj hwhole
    cases cs with
    | nil => exact absurd (List.cons.inj hnext).1.symm hminus
    | cons d ds =>
      obtain ⟨rfl, -⟩ := List.cons.inj hnext
      exact ⟨ds, rfl⟩

theorem TakesLiteral.of_isPlain {before : Text} (h : ∀ c ∈ before, isPlain c = true) :
    TakesLiteral before := by
  refine ⟨?_, fun level hsuffix => ?_⟩
  · have hcomplete := IsComplete.isPlain_append before h .nil
    rwa [List.append_nil] at hcomplete
  · exact absurd (h '[' (hsuffix.subset List.mem_cons_self)) (by decide)

/-- **The scanner passes over a literal, whatever it holds and whatever stands behind it**: what is
outside strings and comments there is so by itself, and moved by the bytes of the literal. Wherever
a literal can stand the readers go by the code around it alone. -/
theorem passesOver_quote (content behind : Text) :
    marked (quote content ++ behind) = (quote content).map (·, false) ++ marked behind ∧
    positions (quote content ++ behind).bytes =
      (positions behind.bytes).map ((quote content).bytes.length + ·) ∧
    ∀ before, TakesLiteral before → PassesOver before (quote content) behind := by
  refine ⟨marked_quote_append content behind, ?_, ?_⟩
  · have hbytes : bytesOf ((quote content).map (·, false)) = (quote content).bytes.length := by
      rw [bytesOf_hidden, length_bytes_eq_utf8Size]
    rw [positions_of_marked (marked_quote_append content behind), significantBytes_hidden, hbytes,
      List.nil_append]
  · intro before h
    refine .of_marked ?_ ?_
    · rw [h.1.marked_append (h.staysApart content behind), marked_quote_append]
    · have hends : Ends (' ' :: behind) := by
        rintro c ⟨⟩
        decide
      have hblank : marked (' ' :: behind) = (' ', true) :: marked behind :=
        Outside.marked_append (t := [' ']) (.of_isPlain (List.all_eq_true.1 rfl)) behind
      rw [h.1.marked_append (hends.staysApart before), hblank]
      rfl

/-- The call is closed by the parenthesis behind the literal, which holds one as well and begins
strings and comments. -/
theorem passesOver_quote_print :
    TakesLiteral "print(" ∧ quote ")'\"--[[" = "[[)'\"--[[]]".toList ∧
      closingParenByte? ("print(" ++ (quote ")'\"--[[" ++ ")")) 5 = some 17 := by
  have hbefore : TakesLiteral "print(" := .of_isPlain (List.all_eq_true.1 rfl)
  have hliteral : quote ")'\"--[[" = "[[)'\"--[[]]".toList := by decide
  have hpasses := (passesOver_quote ")'\"--[[" ")").2.2 _ hbefore
  have hblank : closingParenByte? ("print(" ++ ' ' :: ")") 5 = some 7 := by decide
  refine ⟨hbefore, hliteral, ?_⟩
  rw [hpasses.closing_before 5 (by decide), hblank, hliteral]
  rfl

end Stencil.Lua
