import Bitplane.Text.CharClass

/-! # A character in quotes

A character stands between single quotes; one that would not be seen, or would be misread there, is
written as an escape: the quote and the backslash behind a backslash, four control characters by
their letters, and every hidden character as `\u` with its code point in braces, in lower-case
hexadecimal without leading zeros. Hidden is what is unprintable, ignorable, or extending and no
letter. -/

namespace Bitplane.Quoted

/-- The escape that gives a code point in hexadecimal. -/
def byCodePoint (c : Char) : String :=
  "\\u\x7b" ++ String.ofList (Nat.toDigits 16 c.toNat) ++ "\x7d"

/-- The character would not be seen on its own. A letter that extends the one before it would. -/
def isHidden (c : Char) : Bool :=
  CharClass.isUnprintable c || CharClass.isIgnorable c ||
    (CharClass.isExtending c && !CharClass.isExtendingLetter c)

/-- What stands between the quotes. -/
def body (c : Char) : String :=
  if c = '\x00' then "\\0"
  else if c = '\t' then "\\t"
  else if c = '\r' then "\\r"
  else if c = '\n' then "\\n"
  else if c = '\'' then "\\'"
  else if c = '\\' then "\\\\"
  else if isHidden c then byCodePoint c
  else c.toString

/-- **The character in single quotes.** -/
def char (c : Char) : String := "'" ++ body c ++ "'"

end Bitplane.Quoted
