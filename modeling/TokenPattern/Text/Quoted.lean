import TokenPattern.Text.DefaultIgnorable
import TokenPattern.Text.ExtendingMark
import TokenPattern.Text.Unprintable

namespace TokenPattern.Text

def decimal (number : Nat) : List Char := Nat.toDigits 10 number

def codePoint (c : Char) : List Char :=
  ['\\', 'u', '\x7b'] ++ Nat.toDigits 16 c.toNat ++ ['\x7d']

/-- A character that would not be seen on its own at its place. -/
def isHidden (c : Char) : Bool := isUnprintable c || isDefaultIgnorable c || isExtendingMark c

def escape (c : Char) : List Char :=
  if c = '"' then ['\\', '"']
  else if c = '\\' then ['\\', '\\']
  else if c = '\x00' then ['\\', '0']
  else if c = '\t' then ['\\', 't']
  else if c = '\n' then ['\\', 'n']
  else if c = '\r' then ['\\', 'r']
  else if isHidden c then codePoint c
  else [c]

def quoted (text : String) : List Char := '"' :: text.toList.flatMap escape ++ ['"']

end TokenPattern.Text
