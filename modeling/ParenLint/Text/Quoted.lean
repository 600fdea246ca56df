/-
# Quoted text

A text between double quotes, written so that it stays on one line and shows
what it holds. Quotes and backslashes get a backslash; NUL, tab, line feed
and carriage return have a letter of their own; any other character that does
not show as itself (`isPrintable`) is written by its code point in hexadecimal
digits between braces.

Key definitions: `Quoted.encode`, `quote`.
-/
import ParenLint.Text.Printable

namespace ParenLint

def Quoted.encode (c : Char) : List Char :=
  if c = '\x00' then ['\\', '0']
  else if c = '\t' then ['\\', 't']
  else if c = '\n' then ['\\', 'n']
  else if c = '\r' then ['\\', 'r']
  else if c = '"' ∨ c = '\\' then ['\\', c]
  else if isPrintable c then [c]
  else '\\' :: 'u' :: '\x7b' :: (Nat.toDigits 16 c.toNat ++ ['\x7d'])

def quote (cs : List Char) : List Char := '"' :: (cs.flatMap Quoted.encode ++ ['"'])

def quoted (cs : List Char) : String := String.ofList (quote cs)

end ParenLint
