/-! Text as a list of characters.

Everything the library computes on text is a recursion over `List Char`; a `String` is met at
the outside only. This file has the pieces that the rest is built from: what follows or precedes
a given part (`after?`, `before?`), the first occurrence of a part (`cut?`), splitting and
joining, and the size of a text in UTF-8.

`after?_eq_some_iff` and `cut?_eq_some` say what the two readers return: nothing is lost, and
the part that was looked for is exactly what was taken out. -/
namespace Stencil

abbrev Text := List Char

instance : Coe String Text := ⟨String.toList⟩

namespace Text

/-! ### Parts -/

/-- What follows `part` in a text that starts with it. -/
def after? : Text → Text → Option Text
  | [], t => some t
  | _ :: _, [] => none
  | p :: ps, c :: cs => if p = c then after? ps cs else none

theorem after?_eq_some_iff {part t rest : Text} :
    after? part t = some rest ↔ t = part ++ rest := by
  induction part generalizing t with
  | nil => simp [after?, eq_comm]
  | cons p ps ih =>
    cases t with
    | nil => simp [after?]
    | cons c cs =>
      by_cases h : p = c
      · simp [after?, h, ih]
      · simp [after?, h, Ne.symm h]

@[simp] theorem after?_append (part rest : Text) : after? part (part ++ rest) = some rest :=
  after?_eq_some_iff.2 rfl

def startsWith (t part : Text) : Bool := (after? part t).isSome

/-- What precedes `part` in a text that ends with it. -/
def before? (part t : Text) : Option Text :=
  (after? part.reverse t.reverse).map List.reverse

theorem before?_eq_some_iff {part t rest : Text} :
    before? part t = some rest ↔ t = rest ++ part := by
  simp only [before?, Option.map_eq_some_iff, after?_eq_some_iff]
  constructor
  · rintro ⟨a, h, rfl⟩
    have := congrArg List.reverse h
    simpa using this
  · rintro rfl
    exact ⟨rest.reverse, by simp, by simp⟩

/-- The text around the first occurrence of `part`. -/
def cut? (part : Text) : Text → Option (Text × Text)
  | [] => if part = [] then some ([], []) else none
  | c :: cs =>
    match after? part (c :: cs) with
    | some rest => some ([], rest)
    | none => (cut? part cs).map fun (before, rest) => (c :: before, rest)

theorem cut?_eq_some {part t before rest : Text} (h : cut? part t = some (before, rest)) :
    t = before ++ part ++ rest := by
  induction t generalizing before with
  | nil =>
    unfold cut? at h
    split at h <;> simp_all
  | cons c cs ih =>
    unfold cut? at h
    split at h
    · next r hr =>
      obtain ⟨rfl, rfl⟩ : [] = before ∧ r = rest := by simpa using h
      simpa using after?_eq_some_iff.1 hr
    · obtain ⟨⟨b, r⟩, hb, he⟩ := Option.map_eq_some_iff.1 h
      obtain ⟨rfl, rfl⟩ : c :: b = before ∧ r = rest := by simpa using he
      simp [ih hb]

/-- A part that is not empty takes at least one character out of the text. -/
theorem length_lt_of_cut? {part t before rest : Text} (hp : part ≠ [])
    (h : cut? part t = some (before, rest)) : rest.length < t.length := by
  have := congrArg List.length (cut?_eq_some h)
  have : 0 < part.length := List.length_pos_iff.2 hp
  simp only [List.length_append] at *
  omega

def contains (t part : Text) : Bool := (cut? part t).isSome

/-- What is left when every character of a class is taken off the end. -/
def dropEndWhile (p : Char → Bool) (t : Text) : Text := (t.reverse.dropWhile p).reverse

/-! ### Splitting and joining -/

/-- The pieces between separators; a text without one is a single piece. -/
def splitOn (sep : Char) : Text → List Text
  | [] => [[]]
  | c :: cs =>
    if c = sep then [] :: splitOn sep cs
    else match splitOn sep cs with
      | [] => [[c]]
      | piece :: pieces => (c :: piece) :: pieces

def join (sep : Text) : List Text → Text
  | [] => []
  | [t] => t
  | t :: ts => t ++ sep ++ join sep ts

/-- The text up to the first character that is `stop`, and what follows that character. -/
def splitFirst? (stop : Char) : Text → Option (Text × Text)
  | [] => none
  | c :: cs =>
    if c = stop then some ([], cs)
    else (splitFirst? stop cs).map fun (before, rest) => (c :: before, rest)

def repeated (c : Char) (n : Nat) : Text := List.replicate n c

def spaces (n : Nat) : Text := repeated ' ' n

/-! ### Sizes -/

/-- The number of bytes that the text takes in UTF-8. -/
def utf8Size : Text → Nat
  | [] => 0
  | c :: cs => c.utf8Size + utf8Size cs

/-- The index of the character that starts at a byte offset; none inside a character. -/
def indexOfByte? : Text → Nat → Option Nat
  | _, 0 => some 0
  | [], _ + 1 => none
  | c :: cs, n + 1 =>
    if c.utf8Size ≤ n + 1 then (indexOfByte? cs (n + 1 - c.utf8Size)).map (· + 1) else none

/-! ### Order -/

/-- Byte order of the UTF-8 forms, which is the order by code points. -/
def before (a b : Text) : Bool := decide (a < b)

/-! ### Numbers -/

def ofNat (n : Nat) : Text := Nat.toDigits 10 n

/-- A number written right-aligned in a field. -/
def padLeft (width : Nat) (t : Text) : Text := spaces (width - t.length) ++ t

/-- The value of a run of ASCII digits. -/
def digitsValue (digits : Text) : Nat :=
  digits.foldl (fun n c => n * 10 + (c.toNat - '0'.toNat)) 0

end Text
end Stencil
