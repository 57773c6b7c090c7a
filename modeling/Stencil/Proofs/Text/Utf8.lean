import Mathlib.Data.List.Infix
import Mathlib.Data.List.Lex
import Stencil.Text.Utf8

/-! What is written in UTF-8 is read back.

`decode_bytes` is the round trip with anything behind the text. From it, the bytes of a text spell
that text and no other (`text_bytes`, `text?_bytes`, `bytes_injective`), and they start with those of
what the text starts with (`bytes_isPrefix_iff`). The order of the bytes is that of the characters
(`bytes_lt`). -/
namespace Stencil

namespace Bytes

/-! ### One character -/

theorem toNat_ofNat_of_lt {n : Nat} (h : n < 256) : (UInt8.ofNat n).toNat = n :=
  Nat.mod_eq_of_lt h

/-- A byte that belongs to the character and is not its last one. -/
theorem decode_some_of_lt {p : Pending} {n : Nat} (rest : Bytes) (hn : n < 256)
    (hlow : p.low ≤ n) (hhigh : n ≤ p.high) (hmissing : 1 < p.missing) :
    decode (some p) (UInt8.ofNat n :: rest) =
      decode (some ⟨p.bits * 64 + (n - 0x80), p.missing - 1, 0x80, 0xBF⟩) rest := by
  rw [decode, toNat_ofNat_of_lt hn, if_pos ⟨hlow, hhigh⟩, if_neg (by omega)]

/-- The last byte of the character. -/
theorem decode_some_of_le {p : Pending} {n : Nat} (rest : Bytes) (hn : n < 256)
    (hlow : p.low ≤ n) (hhigh : n ≤ p.high) (hmissing : p.missing ≤ 1) :
    decode (some p) (UInt8.ofNat n :: rest) =
      some (Char.ofNat (p.bits * 64 + (n - 0x80))) :: decode none rest := by
  rw [decode, toNat_ofNat_of_lt hn, if_pos ⟨hlow, hhigh⟩, if_pos hmissing]

/-- The first byte of a character of several. -/
theorem decode_none_of_promise {n bits missing low high : Nat} (rest : Bytes) (hn : n < 256)
    (hlarge : 0x80 ≤ n) (h : promise? n = some (bits, missing, low, high)) :
    decode none (UInt8.ofNat n :: rest) = decode (some ⟨bits, missing, low, high⟩) rest := by
  rw [decode, toNat_ofNat_of_lt hn, opening, if_neg (by omega), h]
  rfl

/-- What the first byte of a character of three bytes promises holds of its second one. -/
theorem promise?_of_three {n : Nat} (hlow : 0x800 ≤ n) (hhigh : n < 0x10000)
    (hvalid : n < 0xD800 ∨ 0xDFFF < n) :
    ∃ low high, promise? (0xE0 + n / 4096) = some (n / 4096, 2, low, high) ∧
      low ≤ 0x80 + n / 64 % 64 ∧ 0x80 + n / 64 % 64 ≤ high := by
  unfold promise?
  rw [if_neg (by omega), if_neg (by omega)]
  by_cases hfirst : 0xE0 + n / 4096 = 0xE0
  · rw [if_pos hfirst]
    exact ⟨0xA0, 0xBF, by rw [show n / 4096 = 0 by omega], by omega, by omega⟩
  · rw [if_neg hfirst]
    by_cases hsurrogate : 0xE0 + n / 4096 = 0xED
    · rw [if_pos hsurrogate]
      exact ⟨0x80, 0x9F, by rw [show n / 4096 = 0xD by omega], by omega, by omega⟩
    · rw [if_neg hsurrogate, if_pos (by omega)]
      exact ⟨0x80, 0xBF, by rw [show 0xE0 + n / 4096 - 0xE0 = n / 4096 by omega], by omega,
        by omega⟩

theorem promise?_of_four {n : Nat} (hlow : 0x10000 ≤ n) (hhigh : n < 0x110000) :
    ∃ low high, promise? (0xF0 + n / 262144) = some (n / 262144, 3, low, high) ∧
      low ≤ 0x80 + n / 4096 % 64 ∧ 0x80 + n / 4096 % 64 ≤ high := by
  unfold promise?
  rw [if_neg (by omega), if_neg (by omega), if_neg (by omega), if_neg (by omega),
    if_neg (by omega)]
  by_cases hfirst : 0xF0 + n / 262144 = 0xF0
  · rw [if_pos hfirst]
    exact ⟨0x90, 0xBF, by rw [show n / 262144 = 0 by omega], by omega, by omega⟩
  · rw [if_neg hfirst]
    by_cases hlast : 0xF0 + n / 262144 < 0xF4
    · rw [if_pos hlast]
      exact ⟨0x80, 0xBF, by rw [show 0xF0 + n / 262144 - 0xF0 = n / 262144 by omega], by omega,
        by omega⟩
    · rw [if_neg hlast, if_pos (by omega)]
      exact ⟨0x80, 0x8F, by rw [show n / 262144 = 4 by omega], by omega, by omega⟩

/-- A character is read back, whatever follows it. -/
theorem decode_char (c : Char) (rest : Bytes) :
    decode none (Char.bytes c ++ rest) = some c :: decode none rest := by
  have hvalid : c.toNat < 0xD800 ∨ 0xDFFF < c.toNat ∧ c.toNat < 0x110000 := c.valid
  have hback : Char.ofNat c.toNat = c := Char.ofNat_toNat c
  unfold Char.bytes
  generalize c.toNat = n at *
  dsimp only
  by_cases hone : n < 0x80
  · rw [if_pos hone, List.cons_append, List.nil_append, decode, toNat_ofNat_of_lt (by omega),
      opening, if_pos hone, hback]
    rfl
  rw [if_neg hone]
  by_cases htwo : n < 0x800
  · have hpromise : promise? (0xC0 + n / 64) = some (0xC0 + n / 64 - 0xC0, 1, 0x80, 0xBF) := by
      unfold promise?
      rw [if_neg (by omega), if_pos (by omega)]
    have hbits : (0xC0 + n / 64 - 0xC0) * 64 + (0x80 + n / 1 % 64 - 0x80) = n := by omega
    rw [if_pos htwo, List.cons_append, List.cons_append, List.nil_append,
      decode_none_of_promise _ (by omega) (by omega) hpromise,
      decode_some_of_le _ (by omega) (by simp) (by simp; omega) (by simp), hbits, hback]
  rw [if_neg htwo]
  by_cases hthree : n < 0x10000
  · obtain ⟨low, high, hpromise, hlow, hhigh⟩ := promise?_of_three (by omega) hthree (by omega)
    have hbits : (n / 4096 * 64 + (0x80 + n / 64 % 64 - 0x80)) * 64
        + (0x80 + n / 1 % 64 - 0x80) = n := by omega
    rw [if_pos hthree, List.cons_append, List.cons_append, List.cons_append, List.nil_append,
      decode_none_of_promise _ (by omega) (by omega) hpromise,
      decode_some_of_lt _ (by omega) hlow hhigh (by simp),
      decode_some_of_le _ (by omega) (by simp) (by simp; omega) (by simp), hbits, hback]
  · obtain ⟨low, high, hpromise, hlow, hhigh⟩ := promise?_of_four (n := n) (by omega) (by omega)
    have hbits : ((n / 262144 * 64 + (0x80 + n / 4096 % 64 - 0x80)) * 64
        + (0x80 + n / 64 % 64 - 0x80)) * 64 + (0x80 + n / 1 % 64 - 0x80) = n := by omega
    rw [if_neg hthree, List.cons_append, List.cons_append, List.cons_append, List.cons_append,
      List.nil_append, decode_none_of_promise _ (by omega) (by omega) hpromise,
      decode_some_of_lt _ (by omega) hlow hhigh (by simp),
      decode_some_of_lt _ (by omega) (by simp) (by simp; omega) (by simp),
      decode_some_of_le _ (by omega) (by simp) (by simp; omega) (by simp), hbits, hback]

/-! ### Texts -/

/-- **A text is read back from its bytes**, whatever follows them. -/
theorem decode_bytes (t : Text) (rest : Bytes) :
    decode none (t.bytes ++ rest) = t.map some ++ decode none rest := by
  induction t with
  | nil => rfl
  | cons c cs ih =>
    show decode none (Char.bytes c ++ Text.bytes cs ++ rest) = _
    rw [List.append_assoc, decode_char, ih]
    rfl

@[simp] theorem text_bytes (t : Text) : Bytes.text t.bytes = t := by
  have h := decode_bytes t []
  rw [List.append_nil, decode, List.append_nil] at h
  rw [text, h, List.map_map]
  simp [Function.comp_def]

@[simp] theorem text?_bytes (t : Text) : Bytes.text? t.bytes = some t := by
  have h := decode_bytes t []
  rw [List.append_nil, decode, List.append_nil] at h
  rw [text?, h]
  clear h
  induction t with
  | nil => rfl
  | cons c cs ih =>
    rw [List.map_cons, List.mapM_cons, ih]
    rfl

/-! ### Order -/

/-- The first bytes that differ tell the order. -/
theorem ofNat_cons_lt {m n : Nat} {s t : Bytes} (hn : n < 256) (h : m < n ∨ m = n ∧ s < t) :
    UInt8.ofNat m :: s < UInt8.ofNat n :: t := by
  rw [List.cons_lt_cons_iff]
  rcases h with h | ⟨rfl, h⟩
  · rw [UInt8.lt_iff_toNat_lt, toNat_ofNat_of_lt (h.trans hn), toNat_ofNat_of_lt hn]
    exact .inl h
  · exact .inr ⟨rfl, h⟩

theorem ofNat_cons_lt_of_le {m n : Nat} {s t : Bytes} (hn : n < 256) (hle : m ≤ n)
    (h : m = n → s < t) : UInt8.ofNat m :: s < UInt8.ofNat n :: t :=
  ofNat_cons_lt hn ((Nat.lt_or_eq_of_le hle).imp_right fun heq => ⟨heq, h heq⟩)

/-- Of two characters that take as many bytes, the order is told by the first bytes that differ; one
that takes fewer bytes begins with a lesser one. -/
theorem char_lt {c d : Char} (h : c < d) (s t : Bytes) :
    Char.bytes c ++ s < Char.bytes d ++ t := by
  have hvalid : d.toNat < 0xD800 ∨ 0xDFFF < d.toNat ∧ d.toNat < 0x110000 := d.valid
  have hlt : c.toNat < d.toNat := h
  unfold Char.bytes
  generalize c.toNat = m at *
  generalize d.toNat = n at *
  dsimp only
  by_cases hone : n < 0x80
  · rw [if_pos hone, if_pos (by omega)]
    exact ofNat_cons_lt (by omega) (.inl hlt)
  rw [if_neg hone]
  by_cases htwo : n < 0x800
  · rw [if_pos htwo]
    by_cases hm : m < 0x80
    · rw [if_pos hm]
      exact ofNat_cons_lt (by omega) (.inl (by omega))
    rw [if_neg hm, if_pos (by omega)]
    refine ofNat_cons_lt_of_le (by omega) (by omega) fun _ => ?_
    exact ofNat_cons_lt (by omega) (.inl (by omega))
  rw [if_neg htwo]
  by_cases hthree : n < 0x10000
  · rw [if_pos hthree]
    by_cases hm : m < 0x800
    · split
      · exact ofNat_cons_lt (by omega) (.inl (by omega))
      · exact ofNat_cons_lt (by omega) (.inl (by omega))
    rw [if_neg (by omega), if_neg hm, if_pos (by omega)]
    refine ofNat_cons_lt_of_le (by omega) (by omega) fun _ => ?_
    refine ofNat_cons_lt_of_le (by omega) (by omega) fun _ => ?_
    exact ofNat_cons_lt (by omega) (.inl (by omega))
  rw [if_neg hthree]
  by_cases hm : m < 0x10000
  · split
    · exact ofNat_cons_lt (by omega) (.inl (by omega))
    · split
      · exact ofNat_cons_lt (by omega) (.inl (by omega))
      · exact ofNat_cons_lt (by omega) (.inl (by omega))
  rw [if_neg (by omega), if_neg (by omega), if_neg hm]
  refine ofNat_cons_lt_of_le (by omega) (by omega) fun _ => ?_
  refine ofNat_cons_lt_of_le (by omega) (by omega) fun _ => ?_
  refine ofNat_cons_lt_of_le (by omega) (by omega) fun _ => ?_
  exact ofNat_cons_lt (by omega) (.inl (by omega))

end Bytes

namespace Text

theorem bytes_injective {a b : Text} (h : a.bytes = b.bytes) : a = b := by
  rw [← Bytes.text_bytes a, h, Bytes.text_bytes]

@[simp] theorem bytes_nil : bytes [] = [] := rfl

theorem bytes_cons (c : Char) (t : Text) : bytes (c :: t) = Char.bytes c ++ bytes t := rfl

theorem bytes_append (a b : Text) : bytes (a ++ b) = bytes a ++ bytes b := List.flatMap_append

/-- A text starts with another one if its bytes do. -/
theorem bytes_isPrefix_iff {part t : Text} : part.bytes <+: t.bytes ↔ part <+: t := by
  constructor
  · rintro ⟨rest, heq⟩
    have hdecoded := Bytes.decode_bytes t []
    rw [List.append_nil, Bytes.decode, List.append_nil, ← heq, Bytes.decode_bytes] at hdecoded
    have hstarts : part.map some <+: t.map some := ⟨_, hdecoded⟩
    rwa [List.prefix_map_iff_of_injective fun _ _ => Option.some.inj] at hstarts
  · rintro ⟨rest, rfl⟩
    exact ⟨bytes rest, (bytes_append part rest).symm⟩

/-- **The order of texts is that of their bytes.** -/
theorem bytes_lt {a b : Text} (h : a < b) : a.bytes < b.bytes := by
  induction h with
  | @nil c cs =>
    obtain ⟨first, rest, hbytes⟩ : ∃ first rest, bytes (c :: cs) = first :: rest :=
      List.exists_cons_of_ne_nil fun hnil => List.cons_ne_nil c cs (bytes_injective hnil)
    rw [hbytes]
    exact List.Lex.nil
  | cons _ ih => exact List.Lex.append_left _ ih _
  | rel h => exact Bytes.char_lt h _ _

end Text
end Stencil
