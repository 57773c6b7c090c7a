import Mathlib.Data.List.DropRight
import Stencil.Proofs.Lua.Bytewise

/-! Where code ends.

What trails code is cut off behind its last significant character that is no blank
(`isEnding_significantPrefix`), which is where the bytes have their last position of that kind
(`codeLength_bytes`). No string or comment reaches over this character, so what is in front of it is
read as before when nothing stands behind it (`IsCode.of_append`): the positions stay, and cutting
again changes nothing (`positions_significantPrefix`). -/
namespace Stencil.Lua

open Bytewise

/-! ### The last significant character -/

/-- A hidden character or a blank. -/
def trails (m : Char × Bool) : Bool := !m.2 || isAsciiBlank m.1

theorem significantPrefix_eq_map (code : Text) :
    significantPrefix code = ((marked code).rdropWhile trails).map Prod.fst := rfl

/-- The text ends with the last of the significant characters that are no blanks, or is empty where
there is none. -/
inductive IsEnding (ms : List (Char × Bool)) : Text → Prop
  | none : (∀ m ∈ ms, trails m = true) → IsEnding ms []
  | char {before after : List (Char × Bool)} {c : Char} : ms = before ++ (c, true) :: after →
    isAsciiBlank c = false → (∀ m ∈ after, trails m = true) →
    IsEnding ms (before.map Prod.fst ++ [c])

theorem exists_trailing (ms : List (Char × Bool)) :
    ∃ trailing, ms = ms.rdropWhile trails ++ trailing ∧ ∀ m ∈ trailing, trails m = true := by
  refine ⟨(ms.reverse.takeWhile trails).reverse, ?_, fun m hm => ?_⟩
  · rw [List.rdropWhile, ← List.reverse_append, List.takeWhile_append_dropWhile,
      List.reverse_reverse]
  · exact List.all_eq_true.1 List.all_takeWhile m (List.mem_reverse.1 hm)

theorem isEnding_significantPrefix (code : Text) :
    IsEnding (marked code) (significantPrefix code) := by
  obtain ⟨trailing, hmarked, htrailing⟩ := exists_trailing (marked code)
  rcases List.eq_nil_or_concat ((marked code).rdropWhile trails) with hnil | ⟨before, m, hlast⟩
  · rw [significantPrefix_eq_map, hnil]
    exact .none (List.rdropWhile_eq_nil_iff.1 hnil)
  · rw [List.concat_eq_append] at hlast
    have hne : (marked code).rdropWhile trails ≠ [] := by
      rw [hlast]
      exact List.append_ne_nil_of_right_ne_nil _ (List.cons_ne_nil _ _)
    have hnot := List.rdropWhile_last_not trails (marked code) hne
    simp only [hlast, List.getLast_append_singleton] at hnot
    obtain ⟨c, significant⟩ := m
    obtain ⟨rfl, hblank⟩ : significant = true ∧ isAsciiBlank c = false := by
      simpa [trails] using hnot
    rw [significantPrefix_eq_map, hlast, List.map_append]
    rw [hlast, List.append_assoc] at hmarked
    exact .char hmarked hblank htrailing

theorem rdropWhile_append {α : Type} (p : α → Bool) (xs ys : List α) :
    (xs ++ ys).rdropWhile p =
      if (ys.rdropWhile p).isEmpty then xs.rdropWhile p else xs ++ ys.rdropWhile p := by
  simp only [List.rdropWhile, List.reverse_append, List.dropWhile_append, List.isEmpty_reverse]
  split
  · rfl
  · rw [List.reverse_append, List.reverse_reverse]

/-- Code ends where its second part does, or where the first one does if there is nothing in the
second. -/
theorem significantPrefix_of_marked {code u : Text} {ms : List (Char × Bool)}
    (h : marked code = ms ++ marked u) :
    significantPrefix code =
      if significantPrefix u = [] then (ms.rdropWhile trails).map Prod.fst
      else ms.map Prod.fst ++ significantPrefix u := by
  have hempty : ((marked u).rdropWhile trails).isEmpty = true ↔ significantPrefix u = [] := by
    rw [List.isEmpty_iff, significantPrefix_eq_map, List.map_eq_nil_iff]
  rw [significantPrefix_eq_map code, h, rdropWhile_append]
  by_cases hu : ((marked u).rdropWhile trails).isEmpty = true
  · rw [if_pos hu, if_pos (hempty.1 hu)]
  · rw [if_neg hu, if_neg (hempty.not.1 hu), List.map_append, significantPrefix_eq_map]

/-! ### The last byte -/

/-- The byte of a blank. -/
def isBlankByte (b : UInt8) : Bool := [' ', '\t', '\n', '\x0C', '\r'].any fun c => b == byteOf c

/-- A byte that is no blank stands at the position. -/
def standsOut (t : Bytes) (p : Nat) : Bool := t[p]?.map isBlankByte == some false

/-- The number of bytes up to the last one outside strings and comments that is no blank. -/
def codeLength (t : Bytes) : Nat :=
  (((positions t).reverse.find? (standsOut t)).map (· + 1)).getD 0

theorem isBlankByte_of_mem_bytes {c : Char} {b : UInt8} (h : b ∈ Char.bytes c) :
    isBlankByte b = isAsciiBlank c := by
  have hbyte : ∀ d, d.toNat < 128 → (b == byteOf d) = (c == d) := fun d hd => by
    rw [Bool.eq_iff_iff, beq_iff_eq, beq_iff_eq, eq_byteOf_of_mem_iff hd h]
  simp only [isBlankByte, List.any_cons, List.any_nil, Bool.or_false]
  rw [hbyte ' ' (by decide), hbyte '\t' (by decide), hbyte '\n' (by decide),
    hbyte '\x0C' (by decide), hbyte '\r' (by decide), isAsciiBlank, Bool.or_assoc, Bool.or_assoc,
    Bool.or_assoc]

/-- Every position is that of a byte of a significant character. -/
theorem exists_of_mem_significantBytes {ms : List (Char × Bool)} {front : Bytes} {p : Nat}
    (h : p ∈ significantBytes front.length ms) :
    ∃ m ∈ ms, m.2 = true ∧ ∃ b ∈ Char.bytes m.1,
      (front ++ Text.bytes (ms.map Prod.fst))[p]? = some b := by
  induction ms generalizing front with
  | nil => cases h
  | cons m rest ih =>
    have hwhole : front ++ Text.bytes ((m :: rest).map Prod.fst) =
        front ++ Char.bytes m.1 ++ Text.bytes (rest.map Prod.fst) := by
      rw [List.map_cons, Text.bytes_cons, List.append_assoc]
    rw [hwhole]
    rcases List.mem_append.1 h with h | h
    · split at h
      · next hm =>
        obtain ⟨hle, hlt⟩ := List.mem_range'_1.1 h
        obtain ⟨k, rfl⟩ := Nat.exists_eq_add_of_le hle
        have hk : k < (Char.bytes m.1).length := by
          rw [length_bytes]
          omega
        refine ⟨m, List.mem_cons_self, hm, (Char.bytes m.1)[k], List.getElem_mem hk, ?_⟩
        rw [List.append_assoc, List.getElem?_append_right (Nat.le_add_right _ _),
          Nat.add_sub_cancel_left, List.getElem?_append_left hk, List.getElem?_eq_getElem hk]
      · cases h
    · have hlength : front.length + m.1.utf8Size = (front ++ Char.bytes m.1).length := by
        rw [List.length_append, length_bytes]
      rw [hlength] at h
      obtain ⟨n, hn, hfound⟩ := ih h
      exact ⟨n, List.mem_cons_of_mem _ hn, hfound⟩

section Length

variable {code t : Text} {before after : List (Char × Bool)}

theorem bytes_of_marked (h : marked code = before ++ after) :
    code.bytes = Text.bytes (before.map Prod.fst) ++ Text.bytes (after.map Prod.fst) := by
  rw [← Text.bytes_append, ← List.map_append, ← h, map_fst_marked]

theorem length_bytes_map_fst (ms : List (Char × Bool)) :
    (Text.bytes (ms.map Prod.fst)).length = bytesOf ms := length_bytes_eq_utf8Size _

/-- What trails the code is passed over. -/
theorem find?_trailing (h : marked code = before ++ after) (hafter : ∀ m ∈ after, trails m = true) :
    (significantBytes (bytesOf before) after).reverse.find? (standsOut code.bytes) = none := by
  refine List.find?_eq_none.2 fun p hp => ?_
  rw [List.mem_reverse, ← length_bytes_map_fst] at hp
  obtain ⟨m, hm, hmark, b, hb, hfound⟩ := exists_of_mem_significantBytes hp
  have hblank := hafter m hm
  rw [trails, hmark, Bool.not_true, Bool.false_or] at hblank
  rw [standsOut, bytes_of_marked h, hfound, Option.map_some, isBlankByte_of_mem_bytes hb, hblank]
  decide

/-- Every byte of a character that is no blank stands out. -/
theorem standsOut_of_marked {c : Char} {significant : Bool}
    (h : marked code = before ++ (c, significant) :: after) (hc : isAsciiBlank c = false) {k : Nat}
    (hk : k < c.utf8Size) : standsOut code.bytes (bytesOf before + k) = true := by
  have hk' : k < (Char.bytes c).length := by rwa [length_bytes]
  rw [standsOut, bytes_of_marked h, List.map_cons, Text.bytes_cons, ← length_bytes_map_fst,
    List.getElem?_append_right (Nat.le_add_right _ _), Nat.add_sub_cancel_left,
    List.getElem?_append_left hk', List.getElem?_eq_getElem hk', Option.map_some,
    isBlankByte_of_mem_bytes (List.getElem_mem hk'), hc]
  decide

/-- The bytes end where the characters do. -/
theorem codeLength_bytes (h : IsEnding (marked code) t) :
    codeLength code.bytes = t.bytes.length := by
  rw [codeLength, positions_bytes]
  cases h with
  | none hall =>
    have hwhole : marked code = [] ++ marked code := rfl
    have hfind := find?_trailing hwhole hall
    exact congrArg (fun found => (found.map (· + 1)).getD 0) hfind
  | @char before after c hmarked hblank hafter =>
    obtain ⟨k, hk⟩ := Nat.exists_eq_succ_of_ne_zero c.utf8Size_pos.ne'
    have hwhole : marked code = (before ++ [(c, true)]) ++ after := by
      rw [hmarked, List.append_assoc, List.singleton_append]
    have hlast : significantBytes 0 (before ++ [(c, true)]) =
        (significantBytes 0 before ++ List.range' (bytesOf before) k) ++ [bytesOf before + k] := by
      rw [significantBytes_append, Nat.zero_add, significantBytes, if_pos rfl, significantBytes,
        List.append_nil, hk, List.range'_1_concat, List.append_assoc]
    have hout : standsOut code.bytes (bytesOf before + k) = true :=
      standsOut_of_marked hmarked hblank (by omega)
    have hlength : (Text.bytes (before.map Prod.fst ++ [c])).length = bytesOf before + k + 1 := by
      rw [Text.bytes_append, List.length_append, length_bytes_map_fst, length_bytes_eq_utf8Size,
        Text.utf8Size_cons, hk]
      rfl
    rw [hwhole, significantBytes_append, Nat.zero_add, hlast, List.reverse_append,
      List.find?_append, find?_trailing hwhole hafter, Option.none_or, List.reverse_append,
      List.reverse_singleton, List.singleton_append, List.find?_cons_of_pos hout, hlength]
    rfl

end Length

/-! ### What is in front of the end -/

/-- Code is code without its last segments. -/
theorem IsCode.of_append {first rest : List Segment} (h : IsCode (first ++ rest)) :
    IsCode first := by
  induction first with
  | nil => exact .nil
  | cons segment first ih =>
    generalize hlater : first ++ rest = later at h ih
    rw [List.cons_append, hlater] at h
    cases h with
    | char hc hfirst =>
      refine .char (fun hbegins => hc ?_) (ih hfirst)
      rw [← hlater, segmentsText_append]
      exact hbegins.append _
    | hidden hencloses hfirst => exact .hidden hencloses (ih hfirst)
    | unclosed hunclosed =>
      obtain ⟨rfl, -⟩ := List.append_eq_nil_iff.1 hlater
      exact .unclosed hunclosed

/-- **Code that is cut behind a significant character is marked as before.** -/
theorem marked_of_cut {code : Text} {before after : List (Char × Bool)} {c : Char}
    (h : marked code = before ++ (c, true) :: after) :
    marked (before.map Prod.fst ++ [c]) = before ++ [(c, true)] := by
  obtain ⟨segments, hcode, rfl⟩ := exists_isCode code
  rw [hcode.marked_eq] at h
  obtain ⟨first, rest, rfl, rfl⟩ := exists_char_of_segmentsMarked h
  have hsplit : IsCode ((first ++ [.char c]) ++ rest) := by
    rwa [List.append_assoc, List.singleton_append]
  have hmarked := hsplit.of_append.marked_eq
  rw [segmentsText_append, segmentsMarked_append] at hmarked
  rw [map_fst_segmentsMarked]
  exact hmarked

/-- Up to its end code is marked as before, and nothing trails it there. -/
theorem exists_marked_of_isEnding {code t : Text} (h : IsEnding (marked code) t) :
    ∃ trailing, marked code = marked t ++ trailing ∧ significantPrefix t = t := by
  cases h with
  | none => exact ⟨_, rfl, rfl⟩
  | @char before after c hwhole hblank _ =>
    have ht := marked_of_cut hwhole
    refine ⟨after, ?_, significantPrefix_of_getLast? (c := c) ?_ hblank⟩
    · rw [ht, hwhole, List.append_assoc, List.singleton_append]
    · rw [ht, List.getLast?_append]
      rfl

/-- How code is scanned: every round moves on, and the positions are increasing and in range. -/
structure ScansCode (code : Text) : Prop where
  moves : ∀ t, ∀ rest ∈ Bytewise.afterHidden? t, rest.length < t.length
  increasing : (positions code.bytes).Pairwise (· < ·)
  inRange : ∀ p ∈ positions code.bytes, p < code.bytes.length

/-- What is left of code in front of where its last significant character ends. -/
structure IsCutOff (code t : Text) : Prop where
  segments : ∃ segments, IsCode segments ∧ segmentsText segments = code ∧
    positions code.bytes = significantBytes 0 (segmentsMarked segments) ∧
    IsEnding (segmentsMarked segments) t
  isPrefix : t <+: code
  bytes : t.bytes = code.bytes.take (codeLength code.bytes)
  kept : positions t.bytes = (positions code.bytes).filter (· < t.bytes.length)
  again : significantPrefix t = t

/-- **Code is cut off where its last significant character ends.** The positions in front of the end
are those of what is left, and cutting again changes nothing. -/
theorem positions_significantPrefix (code : Text) :
    ScansCode code ∧ IsCutOff code (significantPrefix code) := by
  have hending := isEnding_significantPrefix code
  generalize significantPrefix code = t at hending ⊢
  obtain ⟨segments, hcode, hsegments⟩ := exists_isCode code
  have hmarked : marked code = segmentsMarked segments := by rw [← hsegments, hcode.marked_eq]
  obtain ⟨trailing, hwhole, hagain⟩ := exists_marked_of_isEnding hending
  have hprefix : t <+: code := by
    rw [← map_fst_marked code, ← map_fst_marked t, hwhole, List.map_append]
    exact List.prefix_append _ _
  refine ⟨⟨fun t rest hrest => length_lt_of_afterHidden? hrest, ?_, fun p hp => ?_⟩,
    ⟨⟨segments, hcode, hsegments, ?_, hmarked ▸ hending⟩, hprefix, ?_, ?_, hagain⟩⟩
  · rw [positions_bytes]
    exact pairwise_significantBytes 0 _
  · rw [positions_bytes] at hp
    have hlt := (bounds_of_mem_significantBytes hp).2
    rwa [Nat.zero_add, bytesOf_marked] at hlt
  · rw [positions_bytes, hmarked]
  · rw [codeLength_bytes hending]
    exact List.prefix_iff_eq_take.1 (Text.bytes_isPrefix_iff.2 hprefix)
  · have hcut := filter_significantBytes 0 (marked t) trailing
    rwa [Nat.zero_add, bytesOf_marked, ← hwhole, ← positions_bytes, ← positions_bytes, eq_comm]
      at hcut

end Stencil.Lua
