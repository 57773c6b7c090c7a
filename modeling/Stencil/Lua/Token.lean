import Stencil.Lua.Number
import Stencil.Lua.Significance
import Stencil.Text.Utf8

/-! Tokens of the script language.

`tokens` reads a script from the left. Its last token is the end of the script, or `bad` where
reading had to stop; a bad token is complained about only when a reader of tokens comes to it.
Every token knows the line that it ends on and the words in which a message points at it. -/
namespace Stencil.Lua

inductive Token
  | name (name : Text)
  | string (value : Bytes)
  | number (value : Number)
  /-- A reserved word. -/
  | word (word : Text)
  | symbol (symbol : Text)
  | finish
  | bad (complaint : Text)
deriving Repr, DecidableEq

structure Lexeme where
  token : Token
  line : Nat
  /-- The token in a message. -/
  shown : Text
deriving Repr, DecidableEq

def words : List Text :=
  ["and", "break", "do", "else", "elseif", "end", "false", "for", "function", "goto", "if", "in",
    "local", "nil", "not", "or", "repeat", "return", "then", "true", "until", "while"]

/-- Longer symbols first, so that the first one that fits is the longest. -/
def symbols : List Text :=
  ["...", "<<", ">>", "//", "==", "~=", "<=", ">=", "::", ".."].map String.toList
    ++ "+-*/%^#&~|<>=()\x7b\x7d[];:,.".toList.map fun c => [c]

/-! ### Messages -/

def quoted (t : Text) : Text := '\'' :: (t ++ ['\''])

def endShown : Text := "<eof>"

def shownBytes (bytes : Bytes) : Text := quoted (Bytes.shown bytes)

def near (complaint shown : Text) : Text := complaint ++ " near " ++ shown

/-- A character that begins no token, known by its first byte. -/
def shownChar (c : Char) : Text :=
  let byte := ((Char.bytes c).head?.getD 0).toNat
  if 0x20 ≤ byte ∧ byte < 0x7F then quoted [c]
  else quoted ("<\\" ++ Text.ofNat byte ++ ">")

/-! ### Line ends -/

/-- A line end of one or two characters at the start of a text. -/
def afterLineEnd? : Text → Option Text
  | '\r' :: '\n' :: rest | '\n' :: '\r' :: rest | '\r' :: rest | '\n' :: rest => some rest
  | _ => none

/-- What follows the blanks at the start of a text, and the number of line ends among them. -/
def skipBlanks (fuel : Nat) (t : Text) : Nat × Text :=
  match fuel with
  | 0 => (0, t)
  | fuel + 1 =>
    match afterLineEnd? t with
    | some rest =>
      let (lines, rest) := skipBlanks fuel rest
      (lines + 1, rest)
    | none =>
      match t with
      | c :: rest =>
        if c = ' ' ∨ c = '\t' ∨ c = '\x0B' ∨ c = '\x0C' then skipBlanks fuel rest else (0, t)
      | [] => (0, [])

/-! ### Strings -/

/-- Part of a script that has been read: its value, what follows, and the line ends in it. -/
structure Read (α : Type) where
  value : α
  rest : Text
  lines : Nat

/-- An escape in a short string: the bytes that it stands for. A complaint comes with what of the
string had been read, from the backslash on. -/
def readEscape (t : Text) : Except (Text × Text) (Read Bytes) :=
  let one := fun (b : UInt8) rest => Except.ok (⟨[b], rest, 0⟩ : Read Bytes)
  let bad := fun (complaint : Text) (taken : Text) (rest : Text) =>
    Except.error (complaint, '\\' :: (taken ++ rest.take 1))
  match t with
  | 'a' :: rest => one 7 rest
  | 'b' :: rest => one 8 rest
  | 'f' :: rest => one 12 rest
  | 'n' :: rest => one 10 rest
  | 'r' :: rest => one 13 rest
  | 't' :: rest => one 9 rest
  | 'v' :: rest => one 11 rest
  | 'x' :: rest =>
    match rest with
    | a :: more =>
      match Number.hexValue? a with
      | none => bad "hexadecimal digit expected" ['x'] rest
      | some high =>
        match more with
        | b :: rest =>
          match Number.hexValue? b with
          | none => bad "hexadecimal digit expected" ['x', a] more
          | some low => one (UInt8.ofNat (16 * high + low)) rest
        | [] => bad "hexadecimal digit expected" ['x', a] []
    | [] => bad "hexadecimal digit expected" ['x'] []
  | 'z' :: rest =>
    let (lines, rest) := skipBlanks rest.length rest
    .ok ⟨[], rest, lines⟩
  | 'u' :: '\x7b' :: rest =>
    let digits := rest.takeWhile Number.isHexDigit
    let value := Number.hexDigitsValue digits
    let taken := 'u' :: '\x7b' :: digits
    match rest.dropWhile Number.isHexDigit with
    | '\x7d' :: after =>
      if digits = [] then bad "hexadecimal digit expected" taken ('\x7d' :: after)
      else if value < 0x110000 then .ok ⟨Char.bytes (Char.ofNat value), after, 0⟩
      else bad "UTF-8 value too large" taken ('\x7d' :: after)
    | after =>
      if digits = [] then bad "hexadecimal digit expected" taken after
      else bad "missing '\x7d' in \\u\x7bxxxx\x7d" taken after
  | 'u' :: rest => bad "missing '\x7b' in \\u\x7bxxxx\x7d" ['u'] rest
  | _ =>
    match afterLineEnd? t with
    | some rest => .ok ⟨[10], rest, 1⟩
    | none =>
      match t with
      | c :: rest =>
        if c = '\\' ∨ c = '"' ∨ c = '\'' then .ok ⟨Char.bytes c, rest, 0⟩
        else if isAsciiDigit c then
          let digits := (t.take 3).takeWhile isAsciiDigit
          let value := Text.digitsValue digits
          let rest := t.drop digits.length
          if value < 256 then one (UInt8.ofNat value) rest
          else bad "decimal escape too large" digits rest
        else bad "invalid escape sequence" [] t
      | [] => bad "invalid escape sequence" [] []

/-- Reads a short string whose opening quote has been read, given the bytes so far in reverse. -/
def readShort (quote : Char) (fuel : Nat) (done : Bytes) (lines : Nat) (t : Text) :
    Except (Text × Nat) (Read Bytes) :=
  let unfinished := fun shown => Except.error (near "unfinished string" shown, lines)
  let far := Char.bytes quote ++ done.reverse
  match fuel, t with
  | 0, _ | _, [] => unfinished endShown
  | fuel + 1, c :: rest =>
    if c = quote then .ok ⟨done.reverse, rest, lines⟩
    else if c = '\n' ∨ c = '\r' then unfinished (shownBytes far)
    else if c = '\\' then
      match rest with
      | [] => unfinished endShown
      | _ =>
        match readEscape rest with
        | .ok r => readShort quote fuel (r.value.reverse ++ done) (lines + r.lines) r.rest
        | .error (complaint, taken) =>
          .error (near complaint (shownBytes (far ++ Text.bytes taken)), lines)
    else readShort quote fuel ((Char.bytes c).reverse ++ done) lines rest

/-- The text with every line end written as one line feed, and the number of line ends. -/
def joinLines (fuel : Nat) (t : Text) : Text × Nat :=
  match fuel with
  | 0 => (t, 0)
  | fuel + 1 =>
    match afterLineEnd? t with
    | some rest =>
      let (joined, lines) := joinLines fuel rest
      ('\n' :: joined, lines + 1)
    | none =>
      match t with
      | c :: rest =>
        let (joined, lines) := joinLines fuel rest
        (c :: joined, lines)
      | [] => ([], 0)

/-- Reads a long bracket whose opening has been read; a line end right after that is dropped. -/
def readLong? (level : Nat) (t : Text) : Option (Read Text) :=
  (Text.cut? (longClosing level) t).map fun (inside, rest) =>
    let (joined, lines) := joinLines inside.length inside
    ⟨(afterLineEnd? joined).getD joined, rest, lines⟩

def unfinishedLong (what : Text) (line : Nat) : Text :=
  near ("unfinished long " ++ what ++ " (starting at line " ++ Text.ofNat line ++ ")") endShown

/-! ### Numerals -/

/-- The characters of a numeral: digits, points, and an exponent letter with its sign. -/
def numeralLength (letter : Char) : Text → Nat
  | [] => 0
  | [c] => if c.toLower = letter ∨ Number.isHexDigit c ∨ c = '.' then 1 else 0
  | c :: d :: rest =>
    if c.toLower = letter then
      if d = '+' ∨ d = '-' then 2 + numeralLength letter rest
      else 1 + numeralLength letter (d :: rest)
    else if Number.isHexDigit c ∨ c = '.' then 1 + numeralLength letter (d :: rest)
    else 0

def isNameStart (c : Char) : Bool := isAsciiLetter c || c == '_'

def isNameChar (c : Char) : Bool := isAsciiLetter c || isAsciiDigit c || c == '_'

/-- A letter right behind a numeral is taken with it, and makes it none. -/
def readNumeral (t : Text) : Text × Text :=
  let length :=
    match t with
    | '0' :: 'x' :: rest | '0' :: 'X' :: rest => 2 + numeralLength 'p' rest
    | _ => numeralLength 'e' t
  let length := if (t.drop length).head?.any isNameStart then length + 1 else length
  (t.take length, t.drop length)

/-! ### Tokens -/

/-- The token at the start of a text that starts with no blank and no comment, what follows it, and
the line that it ends on. -/
def readToken (line : Nat) (t : Text) : Lexeme × Text :=
  let stop := fun (complaint : Text) (line : Nat) => ((⟨.bad complaint, line, []⟩ : Lexeme), [])
  match t with
  | [] => (⟨.finish, line, endShown⟩, [])
  | c :: rest =>
    if isNameStart c then
      let name := t.takeWhile isNameChar
      let token := if words.contains name then Token.word name else .name name
      (⟨token, line, quoted name⟩, t.dropWhile isNameChar)
    else if isAsciiDigit c || (c == '.' && rest.head?.any isAsciiDigit) then
      let (numeral, rest) := readNumeral t
      match Number.readUnsigned? numeral with
      | some n => (⟨.number n, line, quoted numeral⟩, rest)
      | none => stop (near "malformed number" (quoted numeral)) line
    else if c = '"' ∨ c = '\'' then
      match readShort c t.length [] line rest with
      | .ok r =>
        (⟨.string r.value, r.lines, shownBytes (Char.bytes c ++ r.value ++ Char.bytes c)⟩, r.rest)
      | .error (complaint, line) => stop complaint line
    else
      match longOpening? t with
      | some (level, inside) =>
        match readLong? level inside with
        | some r =>
          let raw := inside.take (inside.length - r.rest.length)
          let shown := (t.take (t.length - inside.length)) ++ raw
          (⟨.string (Text.bytes r.value), line + r.lines, shownBytes (Text.bytes shown)⟩, r.rest)
        | none =>
          stop (unfinishedLong "string" line) (line + (joinLines inside.length inside).2)
      | none =>
        if c = '[' ∧ rest.head? = some '=' then
          let shown := '[' :: rest.takeWhile (· == '=')
          stop (near "invalid long string delimiter" (quoted shown)) line
        else
          match symbols.find? (Text.startsWith t) with
          | some s => (⟨.symbol s, line, quoted s⟩, t.drop s.length)
          | none => (⟨.symbol [c], line, shownChar c⟩, rest)

/-- What follows the comment at the start of a text, and the line ends in it; none when the text
starts with no comment. -/
def afterComment? (line : Nat) (t : Text) : Option (Except (Text × Nat) (Nat × Text)) :=
  match t with
  | '-' :: '-' :: rest =>
    match longOpening? rest with
    | some (level, inside) =>
      match readLong? level inside with
      | some r => some (.ok (r.lines, r.rest))
      | none =>
        some (.error (unfinishedLong "comment" line, (joinLines inside.length inside).2))
    | none => some (.ok (0, rest.dropWhile fun c => c != '\n' && c != '\r'))
  | _ => none

/-- The tokens of a text from a line on, up to the first that is the end or bad. -/
def tokensFrom (fuel line : Nat) (t : Text) : List Lexeme :=
  match fuel with
  | 0 => [⟨.finish, line, endShown⟩]
  | fuel + 1 =>
    let (lines, t) := skipBlanks t.length t
    let line := line + lines
    match afterComment? line t with
    | some (.ok (lines, rest)) => tokensFrom fuel (line + lines) rest
    | some (.error (complaint, lines)) => [⟨.bad complaint, line + lines, []⟩]
    | none =>
      let (lexeme, rest) := readToken line t
      match lexeme.token with
      | .finish | .bad _ => [lexeme]
      | _ => lexeme :: tokensFrom fuel lexeme.line rest

def tokens (script : Text) : List Lexeme := tokensFrom (script.length + 1) 1 script

end Stencil.Lua
