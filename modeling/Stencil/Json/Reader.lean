import Stencil.Json.Basic
import Stencil.Text.Blank
/-!
# Reading JSON

A reader of one JSON value. It refuses anything after the value, lone surrogates, control
characters in strings, floats out of range, and values nested more than 127 deep. Of the digits of a
number those count that fit into a word; a float is this word scaled by a power of ten.
-/
namespace Stencil.Json

def isSpace (c : Char) : Bool := c == ' ' || c == '\n' || c == '\t' || c == '\r'

def hexValue? (c : Char) : Option Nat :=
  if c.isDigit then some (c.toNat - 48)
  else if 'a' ≤ c && c ≤ 'f' then some (c.toNat - 87)
  else if 'A' ≤ c && c ≤ 'F' then some (c.toNat - 55)
  else none

def hexWord? (a b c d : Char) : Option Nat := do
  let a ← hexValue? a
  let b ← hexValue? b
  let c ← hexValue? c
  let d ← hexValue? d
  some (((a * 16 + b) * 16 + c) * 16 + d)

def escaped? (c : Char) : Option Char :=
  match c with
  | '"' => some '"'
  | '\\' => some '\\'
  | '/' => some '/'
  | 'b' => some (Char.ofNat 8)
  | 'f' => some (Char.ofNat 12)
  | 'n' => some '\n'
  | 'r' => some '\r'
  | 't' => some '\t'
  | _ => none

/-- The rest of a string after its opening quote: what it holds and what comes after it. -/
def readString? : Text → Option (Text × Text)
  | '"' :: rest => some ([], rest)
  | '\\' :: 'u' :: a :: b :: c :: d :: '\\' :: 'u' :: e :: f :: g :: h :: rest => do
    let high ← hexWord? a b c d
    let low ← hexWord? e f g h
    -- a character beyond the first plane is written as two halves
    if 0xD800 ≤ high && high < 0xDC00 then
      if 0xDC00 ≤ low && low < 0xE000 then
        let (text, rest) ← readString? rest
        some (Char.ofNat (0x10000 + (high - 0xD800) * 0x400 + (low - 0xDC00)) :: text, rest)
      else none
    else if 0xDC00 ≤ high && high < 0xE000 then none
    else
      let (text, rest) ← readString? ('\\' :: 'u' :: e :: f :: g :: h :: rest)
      some (Char.ofNat high :: text, rest)
  | '\\' :: 'u' :: a :: b :: c :: d :: rest => do
    let code ← hexWord? a b c d
    if 0xD800 ≤ code && code < 0xE000 then none
    else
      let (text, rest) ← readString? rest
      some (Char.ofNat code :: text, rest)
  | '\\' :: c :: rest => do
    let c ← escaped? c
    let (text, rest) ← readString? rest
    some (c :: text, rest)
  | c :: rest =>
    if c.val < 0x20 then none
    else do
      let (text, rest) ← readString? rest
      some (c :: text, rest)
  | [] => none

def digitsValue (digits : Text) : Nat := digits.foldl (fun n c => n * 10 + (c.toNat - 48)) 0

/-- Digits after a point, if there is a point; there must be at least one. -/
def readFraction? (t : Text) : Option (Option Text × Text) :=
  match t with
  | '.' :: rest =>
    let digits := rest.takeWhile Char.isDigit
    if digits.isEmpty then none else some (some digits, rest.dropWhile Char.isDigit)
  | _ => some (none, t)

/-- An exponent, if there is one; it must have at least one digit. -/
def readExponent? (t : Text) : Option (Option Int × Text) :=
  let read (sign : Int) (rest : Text) : Option (Option Int × Text) :=
    let digits := rest.takeWhile Char.isDigit
    if digits.isEmpty then none
    else some (some (sign * digitsValue digits), rest.dropWhile Char.isDigit)
  match t with
  | 'e' :: rest | 'E' :: rest =>
    match rest with
    | '+' :: rest => read 1 rest
    | '-' :: rest => read (-1) rest
    | _ => read 1 rest
  | _ => some (none, t)

/-- The number that digits write after a number, as far as it fits into a word, and how many digits
that takes. -/
def growWord (value taken : Nat) : Text → Nat × Nat
  | [] => (value, taken)
  | c :: cs =>
    let next := value * 10 + (c.toNat - 48)
    if next < Nat.pow 2 64 then growWord next (taken + 1) cs else (value, taken)

def tenTo (k : Nat) : Float := Float.ofScientific 1 false k

/-- A double divided by a power of ten, in steps that are doubles themselves. -/
def scaleDown (x : Float) (k : Nat) : Float :=
  if k ≤ 308 then x / tenTo k
  else if x == 0 then x
  else scaleDown (x / tenTo 308) (k - 308)
termination_by k

/-- A word times a power of ten. The word becomes a double first, and the product or quotient is
rounded again. Products out of range have no double. -/
def scale? (value : Nat) (exponent : Int) : Option Float :=
  let x := Float.ofNat value
  if exponent < 0 then some (scaleDown x exponent.natAbs)
  else if value = 0 then some x
  else if 308 < exponent then none
  else
    let product := x * tenTo exponent.toNat
    if product.isInf then none else some product

/-- A number without its sign, and the text after it. -/
def readNumber? (negative : Bool) (t : Text) : Option (Json × Text) :=
  let whole := t.takeWhile Char.isDigit
  if whole.isEmpty || (whole.head? == some '0' && whole.length ≠ 1) then none
  else do
    let (fraction, rest) ← readFraction? (t.dropWhile Char.isDigit)
    let (exponent, rest) ← readExponent? rest
    let (word, taken) := growWord 0 0 whole
    let left := whole.length - taken
    let float (value : Nat) (exponent : Int) : Option (Json × Text) :=
      (scale? value exponent).map fun x => (.float (if negative then -x else x), rest)
    match fraction, exponent with
    | none, none =>
      if left ≠ 0 then float word left
      else if !negative then some (.int word, rest)
      -- there is no negative zero among the integers, and none below the least one
      else if word = 0 || Nat.pow 2 63 < word then float word 0
      else some (.int (-(word : Int)), rest)
    | _, _ =>
      let (value, used) := growWord word 0 (fraction.getD [])
      float value ((left : Int) - used + exponent.getD 0)

/-- The rest of a word of which the first letter was read. -/
def readWord? (word : List Char) (value : Json) (t : Text) : Option (Json × Text) :=
  if word.isPrefixOf t then some (value, t.drop word.length) else none

mutual

/-- A value; the first number bounds the steps, the second the nesting. -/
def readValue? : Nat → Nat → Text → Option (Json × Text)
  | 0, _, _ => none
  | fuel + 1, depth, t =>
    match t.dropWhile isSpace with
    | 'n' :: rest => readWord? "ull".toList .null rest
    | 't' :: rest => readWord? "rue".toList (.bool true) rest
    | 'f' :: rest => readWord? "alse".toList (.bool false) rest
    | '"' :: rest => (readString? rest).map fun (s, rest) => (.string (String.ofList s), rest)
    | '-' :: rest => readNumber? true rest
    | '[' :: rest =>
      match depth with
      | 0 => none
      | depth + 1 =>
        match rest.dropWhile isSpace with
        | ']' :: rest => some (.list [], rest)
        | rest => (readItems? fuel depth rest).map fun (items, rest) => (.list items, rest)
    | '{' :: rest =>
      match depth with
      | 0 => none
      | depth + 1 =>
        match rest.dropWhile isSpace with
        | '}' :: rest => some (.object [], rest)
        | rest => (readFields? fuel depth rest).map fun (fields, rest) => (ofFields fields, rest)
    | t => readNumber? false t

def readItems? : Nat → Nat → Text → Option (List Json × Text)
  | 0, _, _ => none
  | fuel + 1, depth, t =>
    match readValue? fuel depth t with
    | none => none
    | some (item, rest) =>
      match rest.dropWhile isSpace with
      | ',' :: rest => (readItems? fuel depth rest).map fun (items, rest) => (item :: items, rest)
      | ']' :: rest => some ([item], rest)
      | _ => none

def readFields? : Nat → Nat → Text → Option (List (String × Json) × Text)
  | 0, _, _ => none
  | fuel + 1, depth, t =>
    match t.dropWhile isSpace with
    | '"' :: rest =>
      match readString? rest with
      | none => none
      | some (key, rest) =>
        match rest.dropWhile isSpace with
        | ':' :: rest =>
          match readValue? fuel depth rest with
          | none => none
          | some (value, rest) =>
            let field := (String.ofList key, value)
            match rest.dropWhile isSpace with
            | ',' :: rest =>
              (readFields? fuel depth rest).map fun (fields, rest) => (field :: fields, rest)
            | '}' :: rest => some ([field], rest)
            | _ => none
        | _ => none
    | _ => none

end

/-- The value that a text writes. -/
def ofText? (t : Text) : Option Json :=
  match readValue? (2 * t.length + 2) 127 t with
  | some (value, rest) => if rest.all isSpace then some value else none
  | none => none

end Stencil.Json
