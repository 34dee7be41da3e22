/-
# Tokens

The words of the language:

    identifier   a letter, then letters, digits and underscores
    keyword      one of twenty reserved words
    integer      a run of decimal digits of any script
    string       characters between single quotes
    symbol       an operator or a bracket

Whether a word is a keyword depends on what stands right next to it: a reserved word that
touches a letter, a digit, an underscore or a dollar sign is an identifier.  So `1in` is the
integer `1` followed by the identifier `in`.
-/
namespace Rpal

/-! ## 1. Keywords -/

/-- A reserved word. -/
inductive Keyword where
  | letWord | inWord | within | fnWord | whereWord | aug | or | not | gr | ge
  | ls | le | eq | ne | true | false | nil | dummy | recWord | and
  deriving DecidableEq

namespace Keyword

/-- A reserved word as it is written. -/
def spelling : Keyword → String
  | letWord => "let"
  | inWord => "in"
  | within => "within"
  | fnWord => "fn"
  | whereWord => "where"
  | aug => "aug"
  | or => "or"
  | not => "not"
  | gr => "gr"
  | ge => "ge"
  | ls => "ls"
  | le => "le"
  | eq => "eq"
  | ne => "ne"
  | true => "true"
  | false => "false"
  | nil => "nil"
  | dummy => "dummy"
  | recWord => "rec"
  | and => "and"

/-- The reserved words in their usual order. -/
def all : List Keyword :=
  [letWord, inWord, within, fnWord, whereWord, aug, or, not, gr, ge,
    ls, le, eq, ne, true, false, nil, dummy, recWord, and]

/-- The list of reserved words is complete. -/
theorem mem_all (w : Keyword) : w ∈ all := by
  cases w <;> decide

/-- The reserved word that a spelling writes. -/
def ofSpelling? (s : String) : Option Keyword :=
  all.find? fun w => w.spelling == s

/-- Every reserved word is read back from its spelling. -/
theorem ofSpelling?_spelling (w : Keyword) : ofSpelling? w.spelling = some w := by
  cases w <;> decide

/-- A spelling that is read writes the word that was read. -/
theorem spelling_of_ofSpelling? {s : String} {w : Keyword} (h : ofSpelling? s = some w) :
    w.spelling = s := by
  have := List.find?_some h
  exact eq_of_beq this

end Keyword

/-! ## 2. Symbols and tokens -/

/-- An operator, a bracket or another mark of punctuation. -/
inductive Symbol where
  | lparen | rparen | comma | dot | equals | at | bar | ampersand
  | arrow | plus | minus | times | power | divide
  | greater | greaterEqual | less | lessEqual
  deriving DecidableEq

/-- A symbol as it is written. -/
def Symbol.spelling : Symbol → String
  | .lparen => "("
  | .rparen => ")"
  | .comma => ","
  | .dot => "."
  | .equals => "="
  | .at => "@"
  | .bar => "|"
  | .ampersand => "&"
  | .arrow => "->"
  | .plus => "+"
  | .minus => "-"
  | .times => "*"
  | .power => "**"
  | .divide => "/"
  | .greater => ">"
  | .greaterEqual => ">="
  | .less => "<"
  | .lessEqual => "<="

/-- A token.  A string holds the characters between its quotes, unread. -/
inductive Token where
  | identifier (name : String)
  | keyword (word : Keyword)
  | integer (digits : String)
  | string (raw : String)
  | symbol (symbol : Symbol)
  deriving DecidableEq

/-- A token at its place in a text.  `glued` tells whether a letter, a digit, an underscore or
a dollar sign stands right before it. -/
structure Lexeme where
  token : Token
  start : Nat
  glued : Bool
  deriving DecidableEq

namespace Lexeme

/-- The letters of a word, reserved or not. -/
def word? (l : Lexeme) : Option String :=
  match l.token with
  | .identifier name => some name
  | .keyword w => some w.spelling
  | _ => none

/-- Where the search for a keyword is given up at a token that is not that keyword: at the
token, except that letters which spell the keyword but touch other word characters move the
place behind them, or one back if it is their start that touches. -/
def missOf (w : Keyword) (l : Lexeme) : Nat :=
  match l.word? with
  | some word =>
    if w.spelling.toList.isPrefixOf word.toList then
      if l.glued then l.start - 1 else l.start + w.spelling.length
    else l.start
  | none => l.start

end Lexeme

end Rpal
