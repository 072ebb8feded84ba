import NumericTrees.Text.GraphemeExtend
import NumericTrees.Text.Unprintable

/-!
# Quoted texts

A text in double quotes, with the quote, the backslash and the usual control characters behind a
backslash, and every further character that would not show up on its own as its code point.
-/

namespace NumericTrees.Text

/-- A character as its code point: a backslash, `u`, and the hexadecimal digits in braces. -/
def codePoint (c : Char) : List Char := '\\' :: 'u' :: '{' :: Nat.toDigits 16 c.toNat ++ ['}']

/-- A character inside a quoted text, where the characters in `hidden` stand as code points. -/
def quotedChar (hidden : Char → Bool) (c : Char) : List Char :=
  if c = '\x00' then ['\\', '0']
  else if c = '\t' then ['\\', 't']
  else if c = '\r' then ['\\', 'r']
  else if c = '\n' then ['\\', 'n']
  else if c = '"' then ['\\', '"']
  else if c = '\\' then ['\\', '\\']
  else if hidden c then codePoint c
  else [c]

/-- A text in double quotes. -/
def quoted (hidden : Char → Bool) (s : List Char) : List Char :=
  '"' :: s.flatMap (quotedChar hidden) ++ ['"']

/-- Letters without a visible form, which keep the place of a missing Hangul letter. -/
def isFiller (c : Char) : Bool := c == '\u115f' || c == '\u1160' || c == '\u3164' || c == '\uffa0'

/-- The halfwidth sound marks of Katakana, which follow a letter in a place of their own. -/
def isHalfwidthSoundMark (c : Char) : Bool := c == '\uff9e' || c == '\uff9f'

/-- The characters that do not show up on their own: those without a visible form, and those that
join the character before them without a place of their own. -/
def isHidden (c : Char) : Bool :=
  isUnprintable c || isFiller c || (extendsGrapheme c && !isHalfwidthSoundMark c)

end NumericTrees.Text
