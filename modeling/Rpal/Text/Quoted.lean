/-
# Quoted text

A token in a message and a name in a trace are shown quoted, so that blanks, controls and
look-alikes can be told apart:

    x y       'x y'
    it's      "it's"
    a<tab>b   'a\tb'
    U+200B    '\u200b'

Single quotes are used unless the text holds a single quote and no double quote.  A backslash
and the quote in use are escaped, a line feed, a carriage return and a tab have short
escapes, and any other character that is not printable is written by its number.
-/
import Rpal.Text.Printable

namespace Rpal.Text

/-- A number in hexadecimal, filled up with zeros to a given width. -/
def hex (width n : Nat) : String :=
  let digits := Nat.toDigits 16 n
  String.ofList (List.replicate (width - digits.length) '0' ++ digits)

/-- One character of a quoted text. -/
def quotedChar (quote c : Char) : String :=
  if c = '\\' || c = quote then String.ofList ['\\', c]
  else if c = '\n' then "\\n"
  else if c = '\r' then "\\r"
  else if c = '\t' then "\\t"
  else if isPrintable c then String.singleton c
  else if c.toNat < 0x100 then "\\x" ++ hex 2 c.toNat
  else if c.toNat < 0x10000 then "\\u" ++ hex 4 c.toNat
  else "\\U" ++ hex 8 c.toNat

/-- The quote around a text. -/
def quoteFor (cs : List Char) : Char :=
  if cs.contains '\'' && !cs.contains '"' then '"' else '\''

/-- A text in quotes. -/
def quoted (s : String) : String :=
  let cs := s.toList
  let quote := quoteFor cs
  String.singleton quote ++ String.join (cs.map (quotedChar quote)) ++ String.singleton quote

end Rpal.Text
