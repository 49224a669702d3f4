import Stencil.Lua.Number
import Stencil.Text.Utf8
/-!
# Tokens of the fragment language

Names, reserved words, numbers, strings and marks, each with the line on which it ends. Comments and
white space separate them. Where a text has anything else in it, its tokens end with one that is
malformed.
-/
namespace Stencil.Lua

inductive Word where
  | and | break | do | else | elseif | end | false | for | function | goto | if | in | local | nil
  | not | or | repeat | return | then | true | until | while
deriving Repr, DecidableEq

inductive Mark where
  | plus | minus | star | slash | doubleSlash | percent | caret | hash | ampersand | tilde | bar
  | shiftLeft | shiftRight | equal | notEqual | lessEqual | greaterEqual | less | greater | assign
  | openParen | closeParen | openBrace | closeBrace | openBracket | closeBracket | label
  | semicolon | colon | comma | dot | concat | dots
deriving Repr, DecidableEq

inductive Token where
  | name (id : String)
  | word (w : Word)
  | number (n : Num)
  | string (s : Bytes)
  | mark (m : Mark)
  /-- The text cannot be read any further. -/
  | malformed
deriving Repr, Inhabited

/-- A token with the line on which it ends. -/
structure Located where
  token : Token
  line : Nat
deriving Repr, Inhabited

namespace Word

def table : List (String × Word) :=
  [("and", .and), ("break", .break), ("do", .do), ("else", .else), ("elseif", .elseif),
    ("end", .end), ("false", .false), ("for", .for), ("function", .function), ("goto", .goto),
    ("if", .if), ("in", .in), ("local", .local), ("nil", .nil), ("not", .not), ("or", .or),
    ("repeat", .repeat), ("return", .return), ("then", .then), ("true", .true), ("until", .until),
    ("while", .while)]

def ofName? (name : String) : Option Word := (table.find? fun w => w.1 == name).map (·.2)

end Word

namespace Token

def startsName (c : Char) : Bool := c.isAlpha || c == '_'

def continuesName (c : Char) : Bool := c.isAlphanum || c == '_'

def isBreak (c : Char) : Bool := c == '\n' || c == '\r'

/-- The text after a line break; two different break characters in a row are one break. -/
def afterBreak (c : Char) (cs : Text) : Text :=
  match cs with
  | d :: rest => if isBreak d && d != c then rest else cs
  | [] => []

/-- The inside of a long bracket of a level: its bytes, the line breaks in it, and the text after
it. Every line break reads as a line feed. -/
def readBracket (level : Nat) : Nat → Text → Option (Bytes × Nat × Text)
  | 0, _ => none
  | _ + 1, [] => none
  | fuel + 1, c :: cs =>
    if c = ']' && (List.replicate level '=' ++ [']']).isPrefixOf cs then
      some ([], 0, cs.drop (level + 1))
    else if isBreak c then
      (readBracket level fuel (afterBreak c cs)).map fun (s, lines, rest) =>
        (10 :: s, lines + 1, rest)
    else
      (readBracket level fuel cs).map fun (s, lines, rest) =>
        (String.utf8EncodeChar c ++ s, lines, rest)

/-- A long bracket after its first `[`: the bytes in it, a line break right at the start left out,
the line breaks, and the text after it. The outer answer says whether a bracket opens here. -/
def longBracket? (cs : Text) : Option (Option (Bytes × Nat × Text)) :=
  let level := (cs.takeWhile (· == '=')).length
  match cs.drop level with
  | '[' :: inside =>
    match inside with
    | c :: rest =>
      if isBreak c then
        some ((readBracket level (cs.length + 1) (afterBreak c rest)).map fun (s, lines, rest) =>
          (s, lines + 1, rest))
      else some (readBracket level (cs.length + 1) inside)
    | [] => some none
  | _ => none

/-- The bytes of a code point below two to the 31st power. -/
def encodeCode (code : Nat) : Bytes :=
  let tail (k : Nat) : UInt8 := UInt8.ofNat (0x80 + code / Nat.pow 64 k % 64)
  if code < 0x80 then [UInt8.ofNat code]
  else if code < 0x800 then [UInt8.ofNat (0xC0 + code / 64), tail 0]
  else if code < 0x10000 then [UInt8.ofNat (0xE0 + code / Nat.pow 64 2), tail 1, tail 0]
  else if code < 0x200000 then [UInt8.ofNat (0xF0 + code / Nat.pow 64 3), tail 2, tail 1, tail 0]
  else if code < 0x4000000 then
    [UInt8.ofNat (0xF8 + code / Nat.pow 64 4), tail 3, tail 2, tail 1, tail 0]
  else [UInt8.ofNat (0xFC + code / Nat.pow 64 5), tail 4, tail 3, tail 2, tail 1, tail 0]

def hexValue? (c : Char) : Option Nat :=
  if c.isDigit then some (c.toNat - 48)
  else if 'a' ≤ c && c ≤ 'f' then some (c.toNat - 87)
  else if 'A' ≤ c && c ≤ 'F' then some (c.toNat - 55)
  else none

/-- The code point between the braces of an escape, and the text after it. -/
def readCode : Nat → Text → Option (Nat × Text)
  | code, '}' :: rest => some (code, rest)
  | code, c :: rest =>
    match hexValue? c with
    | some digit => 
      if code * 16 + digit < Nat.pow 2 31 then readCode (code * 16 + digit) rest else none
    | none => none
  | _, [] => none

/-- An escape after its backslash: its bytes, the line breaks in it, and the text after it. -/
def readEscape : Text → Option (Bytes × Nat × Text)
  | 'a' :: rest => some ([7], 0, rest)
  | 'b' :: rest => some ([8], 0, rest)
  | 'f' :: rest => some ([12], 0, rest)
  | 'n' :: rest => some ([10], 0, rest)
  | 'r' :: rest => some ([13], 0, rest)
  | 't' :: rest => some ([9], 0, rest)
  | 'v' :: rest => some ([11], 0, rest)
  | '\\' :: rest => some ([92], 0, rest)
  | '"' :: rest => some ([34], 0, rest)
  | '\'' :: rest => some ([39], 0, rest)
  | 'x' :: a :: b :: rest => do
    let high ← hexValue? a
    let low ← hexValue? b
    some ([UInt8.ofNat (high * 16 + low)], 0, rest)
  | 'u' :: '{' :: rest =>
    match rest with
    -- at least one digit
    | '}' :: _ => none
    | _ => (readCode 0 rest).map fun (code, rest) => (encodeCode code, 0, rest)
  | 'z' :: rest =>
    let blanks := rest.takeWhile Num.isSpace
    some ([], countBreaks blanks.length blanks, rest.dropWhile Num.isSpace)
  | c :: rest =>
    if isBreak c then some ([10], 1, afterBreak c rest)
    else if c.isDigit then
      let digits := c :: (rest.takeWhile Char.isDigit).take 2
      let value := digits.foldl (fun n d => n * 10 + (d.toNat - 48)) 0
      if value < 256 then some ([UInt8.ofNat value], 0, rest.drop (digits.length - 1)) else none
    else none
  | [] => none
where
  countBreaks : Nat → Text → Nat
    | fuel + 1, c :: cs =>
      if isBreak c then countBreaks fuel (afterBreak c cs) + 1 else countBreaks fuel cs
    | _, _ => 0

/-- The rest of a quoted string: its bytes, the line breaks in it, and the text after it. -/
def readQuoted (quote : Char) : Nat → Text → Option (Bytes × Nat × Text)
  | 0, _ => none
  | _ + 1, [] => none
  | fuel + 1, c :: cs =>
    if c = quote then some ([], 0, cs)
    else if isBreak c then none
    else if c = '\\' then
      match readEscape cs with
      | none => none
      | some (bytes, lines, rest) =>
        (readQuoted quote fuel rest).map fun (s, more, rest) => (bytes ++ s, lines + more, rest)
    else
      (readQuoted quote fuel cs).map fun (s, lines, rest) =>
        (String.utf8EncodeChar c ++ s, lines, rest)

/-- The length of the numeral at the front: digits, points and exponents with their signs. -/
def numeralLength (hex : Bool) : Text → Nat
  | [] => 0
  | [c] => if c.isDigit || c == '.' || (hexValue? c).isSome || isExponent hex c then 1 else 0
  | c :: d :: rest =>
    if isExponent hex c then
      if d == '+' || d == '-' then numeralLength hex rest + 2 else numeralLength hex (d :: rest) + 1
    else if c == '.' || (hexValue? c).isSome then numeralLength hex (d :: rest) + 1
    else 0
where
  isExponent (hex : Bool) (c : Char) : Bool :=
    if hex then c == 'p' || c == 'P' else c == 'e' || c == 'E'

/-- The numeral at the front, and the text after it. One that touches a letter is malformed. -/
def readNumeral (t : Text) : Option (Num × Text) :=
  let length := match t with
    | '0' :: 'x' :: rest | '0' :: 'X' :: rest => numeralLength true rest + 2
    | _ => numeralLength false t
  let rest := t.drop length
  if rest.head?.any startsName then none
  else (Num.ofNumeral? (t.take length)).map fun n => (n, rest)

/-- The mark at the front, the longest one, and the text after it. -/
def readMark : Text → Option (Mark × Text)
  | '.' :: '.' :: '.' :: rest => some (.dots, rest)
  | '.' :: '.' :: rest => some (.concat, rest)
  | '=' :: '=' :: rest => some (.equal, rest)
  | '~' :: '=' :: rest => some (.notEqual, rest)
  | '<' :: '=' :: rest => some (.lessEqual, rest)
  | '>' :: '=' :: rest => some (.greaterEqual, rest)
  | '<' :: '<' :: rest => some (.shiftLeft, rest)
  | '>' :: '>' :: rest => some (.shiftRight, rest)
  | '/' :: '/' :: rest => some (.doubleSlash, rest)
  | ':' :: ':' :: rest => some (.label, rest)
  | '+' :: rest => some (.plus, rest)
  | '-' :: rest => some (.minus, rest)
  | '*' :: rest => some (.star, rest)
  | '/' :: rest => some (.slash, rest)
  | '%' :: rest => some (.percent, rest)
  | '^' :: rest => some (.caret, rest)
  | '#' :: rest => some (.hash, rest)
  | '&' :: rest => some (.ampersand, rest)
  | '~' :: rest => some (.tilde, rest)
  | '|' :: rest => some (.bar, rest)
  | '<' :: rest => some (.less, rest)
  | '>' :: rest => some (.greater, rest)
  | '=' :: rest => some (.assign, rest)
  | '(' :: rest => some (.openParen, rest)
  | ')' :: rest => some (.closeParen, rest)
  | '{' :: rest => some (.openBrace, rest)
  | '}' :: rest => some (.closeBrace, rest)
  | '[' :: rest => some (.openBracket, rest)
  | ']' :: rest => some (.closeBracket, rest)
  | ';' :: rest => some (.semicolon, rest)
  | ':' :: rest => some (.colon, rest)
  | ',' :: rest => some (.comma, rest)
  | '.' :: rest => some (.dot, rest)
  | _ => none

def afterLine (t : Text) : Text := t.dropWhile fun c => !isBreak c

/-- The tokens of a text that begins on the given line. -/
def lexFrom : Nat → Nat → Text → List Located
  | 0, line, _ => [⟨.malformed, line⟩]
  | _ + 1, _, [] => []
  | fuel + 1, line, c :: cs =>
    let string (found : Option (Bytes × Nat × Text)) : List Located :=
      match found with
      | some (bytes, lines, rest) =>
        ⟨.string bytes, line + lines⟩ :: lexFrom fuel (line + lines) rest
      | none => [⟨.malformed, line⟩]
    if isBreak c then lexFrom fuel (line + 1) (afterBreak c cs)
    else if Num.isSpace c then lexFrom fuel line cs
    else if startsName c then
      let id := String.ofList (c :: cs.takeWhile continuesName)
      let token := match Word.ofName? id with
        | some w => Token.word w
        | none => Token.name id
      ⟨token, line⟩ :: lexFrom fuel line (cs.dropWhile continuesName)
    else if c.isDigit || (c == '.' && cs.head?.any Char.isDigit) then
      match readNumeral (c :: cs) with
      | some (n, rest) => ⟨.number n, line⟩ :: lexFrom fuel line rest
      | none => [⟨.malformed, line⟩]
    else if c = '"' || c = '\'' then string (readQuoted c (cs.length + 1) cs)
    else if c = '-' && cs.head? == some '-' then
      match (cs.drop 1) with
      | '[' :: rest =>
        match longBracket? rest with
        | some (some (_, lines, rest)) => lexFrom fuel (line + lines) rest
        -- a comment that begins as a long bracket has to end as one
        | some none => [⟨.malformed, line⟩]
        | none => lexFrom fuel line (afterLine rest)
      | rest => lexFrom fuel line (afterLine rest)
    else if c = '[' && (cs.head? == some '[' || cs.head? == some '=') then
      match longBracket? cs with
      | some found => string found
      | none => [⟨.malformed, line⟩]
    else
      match readMark (c :: cs) with
      | some (m, rest) => ⟨.mark m, line⟩ :: lexFrom fuel line rest
      | none => [⟨.malformed, line⟩]

def lex (t : Text) : List Located := lexFrom (t.length + 1) 1 t

end Token

end Stencil.Lua
