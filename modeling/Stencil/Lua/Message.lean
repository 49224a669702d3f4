import Stencil.Lua.Value
/-!
# Values as texts outside

What emitted values and raised values become outside the fragment language. Only strings and numbers
are texts; anything that was raised has a message.
-/
namespace Stencil.Lua

def Utf8.Fault.message (f : Utf8.Fault) : Text :=
  match f.length with
  | some length =>
    "invalid utf-8 sequence of ".toList ++ Nat.toDigits 10 length ++ " bytes from index ".toList ++
      Nat.toDigits 10 f.index
  | none => "incomplete utf-8 byte sequence from index ".toList ++ Nat.toDigits 10 f.index

/-- The words that begin the message of an error raised by a program. -/
def raisedWords : Text := "runtime error: ".toList

namespace Value

/-- The name of a value's type in messages about texts from outside. -/
def givenName : Value → String
  | .number (.int _) => "integer"
  | .failure .. => "error"
  | v => v.typeName

def toText (v : Value) : Except Text Text :=
  match v.toBytes? with
  | none =>
    .error ("error converting Lua ".toList ++ v.givenName.toList ++
      " to String (expected string or number)".toList)
  | some bytes =>
    match bytes.toText? with
    | .ok t => .ok t
    | .error fault =>
      .error ("error converting Lua string to String (".toList ++ Utf8.Fault.message fault ++
        ")".toList)

/-- The message of what a program raised: words from outside as they are, any other value by its
text up to the first NUL. -/
def message : Value → Text
  | .failure _ message => message
  | v => raisedWords ++ Bytes.toTextLossy (v.display.takeWhile (· != 0))

end Value

end Stencil.Lua
