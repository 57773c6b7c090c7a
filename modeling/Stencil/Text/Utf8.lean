import Stencil.Text.Basic

/-! Bytes and the text that they spell.

`Text.bytes` writes a text in UTF-8. `Bytes.text` reads any bytes: a sequence that spells no
character, taken as long as it could still have become one, is read as U+FFFD. `Bytes.text?` reads
only bytes that are UTF-8 throughout. -/
namespace Stencil

abbrev Bytes := List UInt8

/-! ### Writing -/

def Char.bytes (c : Char) : Bytes :=
  let n := c.toNat
  let tail := fun unit => UInt8.ofNat (0x80 + n / unit % 64)
  if n < 0x80 then [UInt8.ofNat n]
  else if n < 0x800 then [UInt8.ofNat (0xC0 + n / 64), tail 1]
  else if n < 0x10000 then [UInt8.ofNat (0xE0 + n / 4096), tail 64, tail 1]
  else [UInt8.ofNat (0xF0 + n / 262144), tail 4096, tail 64, tail 1]

def Text.bytes (t : Text) : Bytes := t.flatMap Char.bytes

/-! ### Reading -/

def replacementChar : Char := '\uFFFD'

/-- What a first byte promises: the bits that it adds, the number of bytes after it, and the least
and the greatest second byte. -/
def promise? (first : Nat) : Option (Nat × Nat × Nat × Nat) :=
  if first < 0xC2 then none
  else if first < 0xE0 then some (first - 0xC0, 1, 0x80, 0xBF)
  else if first = 0xE0 then some (0, 2, 0xA0, 0xBF)
  else if first = 0xED then some (0xD, 2, 0x80, 0x9F)
  else if first < 0xF0 then some (first - 0xE0, 2, 0x80, 0xBF)
  else if first = 0xF0 then some (0, 3, 0x90, 0xBF)
  else if first < 0xF4 then some (first - 0xF0, 3, 0x80, 0xBF)
  else if first = 0xF4 then some (4, 3, 0x80, 0x8F)
  else none

/-- Where a reader stands inside a character: the bits so far, the number of bytes still to come,
and the range of the next one. -/
structure Pending where
  bits : Nat
  missing : Nat
  low : Nat
  high : Nat

namespace Bytes

/-- What a byte that begins a character yields by itself, and what it leaves pending. -/
def opening (first : Nat) : List (Option Char) × Option Pending :=
  if first < 0x80 then ([some (Char.ofNat first)], none)
  else
    match promise? first with
    | some (bits, missing, low, high) => ([], some ⟨bits, missing, low, high⟩)
    | none => ([none], none)

/-- The characters that bytes spell, with `none` for each sequence that spells none. -/
def decode : Option Pending → Bytes → List (Option Char)
  | none, [] => []
  | some _, [] => [none]
  | none, b :: bs =>
    let (now, pending) := opening b.toNat
    now ++ decode pending bs
  | some p, b :: bs =>
    let n := b.toNat
    if p.low ≤ n ∧ n ≤ p.high then
      let bits := p.bits * 64 + (n - 0x80)
      if p.missing ≤ 1 then some (Char.ofNat bits) :: decode none bs
      else decode (some ⟨bits, p.missing - 1, 0x80, 0xBF⟩) bs
    else
      let (now, pending) := opening n
      none :: (now ++ decode pending bs)

/-- The text that bytes spell, with U+FFFD for what is no character. -/
def text (bytes : Bytes) : Text := (decode none bytes).map (·.getD replacementChar)

/-- The text that a message has for bytes, which end there at the first zero. -/
def shown (bytes : Bytes) : Text := text (bytes.takeWhile (· != 0))

/-- The text that bytes spell, if they are UTF-8. -/
def text? (bytes : Bytes) : Option Text := (decode none bytes).mapM id

/-- The bytes without a mark of their order at the start. -/
def withoutMark : Bytes → Bytes
  | 0xEF :: 0xBB :: 0xBF :: rest => rest
  | bytes => bytes

end Bytes
end Stencil
