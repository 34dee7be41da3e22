/-
# Diagnosis of a source text

Where reading fails at an offset, the diagnosis names the token found there, gives its line
and column, shows an excerpt of the text with a caret, and looks for usual mistakes.

The offset is that of the text with its tabs expanded, while the diagnosis works on the text as
written: the offset is only cut off at the end of the written text.
-/
import Rpal.ParseError
import Rpal.Text.Blank
import Rpal.Text.Digit
import Rpal.Text.Lines
import Rpal.Text.Quoted
import Rpal.Text.Word
import Rpal.Token.Scanner

namespace Rpal.Diagnosis

/-! ## 1. The token found -/

/-- The longest run at the start of a text that could be the inside of a string literal. -/
def stringRun : List Char → List Char
  | [] => []
  | '\\' :: c :: rest => if c = '\n' then [] else '\\' :: c :: stringRun rest
  | c :: rest => if c = '\'' || c = '\\' then [] else c :: stringRun rest

/-- A string literal at the start of a text, closed or not, without its opening quote. -/
def openString (cs : List Char) : List Char :=
  let run := stringRun cs
  if (cs.drop run.length).head? = some '\'' then run ++ ['\''] else run

/-- Names the token that starts a text free of white space at its start. -/
def nameToken : List Char → String
  | [] => "end of input"
  | c :: rest =>
    let named (sort : String) (cs : List Char) := sort ++ " " ++ Text.quoted (String.ofList cs)
    if c = '/' && rest.head? = some '/' then "a comment"
    else if c = '\'' then named "string" (c :: openString rest)
    else if Text.isDigit c then named "integer" (c :: rest.takeWhile Text.isDigit)
    else if c.isAlpha then named "name" (c :: rest.takeWhile Token.isNameChar)
    else match Token.readSymbol (c :: rest) with
      | some (s, _) => named "operator" s.spelling.toList
      | none => named "character" [c]

/-- Names the token at an offset, behind white space. -/
def tokenAt (cs : List Char) (loc : Int) : String :=
  nameToken (Text.trimStart (Text.after loc cs))

/-! ## 2. The excerpt -/

/-- Fills a number up with blanks to a width of four. -/
def padNumber (n : Nat) : String :=
  let digits := toString n
  String.ofList (List.replicate (4 - digits.length) ' ') ++ digits

/-- A numbered row, followed by the caret if it is the row of interest. -/
def excerptRow (line column : Int) (number : Nat) (row : List Char) : List String :=
  let caret := "     | " ++ String.ofList (List.replicate (column - 1).toNat ' ') ++ "^"
  (padNumber number ++ " | " ++ String.ofList row) :: if (number : Int) = line then [caret] else []

/-- The number of rows shown before and after the line of an error. -/
def contextRadius : Int := 2

/-- The rows at most `radius` away from a line, with a caret under a column of it. -/
def excerpt (cs : List Char) (line column radius : Int) : String :=
  let rows := match Text.rows cs with
    | [] => [[]]
    | rows => rows
  "\n".intercalate <| (rows.zipIdx 1).flatMap fun (row, number) =>
    if line - radius ≤ number && number ≤ line + radius then excerptRow line column number row
    else []

/-! ## 3. Hints -/

/-- Whether a text occurs within another. -/
def occursIn (part : List Char) : List Char → Bool
  | [] => part.isEmpty
  | c :: rest => part.isPrefixOf (c :: rest) || occursIn part rest

/-- The hints for a source text in which a token was found where none fits. -/
def hints (cs : List Char) (found : String) : List String :=
  let has (part : String) := occursIn part.toList cs
  let hasWord (word : String) := Text.hasWord word.toList cs
  let rules : List (Bool × String) := [
    (occursIn ['"'] found.toList || has "\"",
      "Strings are written with single quotes: 'text'"),
    (occursIn "';'".toList found.toList,
      "An RPAL program is one expression; there are no statement separators"),
    (hasWord "let" && !hasWord "in",
      "Every 'let' needs 'in' followed by the body expression"),
    (has "->" && !has "|",
      "A conditional needs both branches: condition -> then | else"),
    (hasWord "fn" && !has ".",
      "A lambda is written 'fn x . body'"),
    (found = "end of input" && cs.count '(' > cs.count ')',
      "Check for an unclosed '('"),
    (cs.count ')' > cs.count '(',
      "There is a ')' without a matching '('")]
  rules.filterMap fun (applies, hint) => if applies then some hint else none

/-! ## 4. The error -/

/-- What a failure message says was expected: the rest of its first line behind the word
`Expected` and some white space. -/
def expectedFrom (message : String) : List String :=
  let lead := "Expected".toList
  let cs := message.toList
  if lead.isPrefixOf cs then
    let gap := (cs.drop lead.length).takeWhile Text.isBlank
    let rest := (cs.drop lead.length).dropWhile Text.isBlank
    if gap.isEmpty then []
    else if !rest.isEmpty then [String.ofList (Text.trim (rest.takeWhile (· != '\n')))]
    else if (gap.drop 1).any (· != '\n') then [""]
    else []
  else []

/-- The error of a source text that cannot be read on at an offset.  `message` is the message
of the failure; it may be empty, and only tells what was expected. -/
def parseError (filename source message : String) (offset : Int) : ParseError :=
  let cs := source.toList
  let location := min offset cs.length
  let line := Text.lineNumber location cs
  let column := Text.columnNumber location cs
  let found := tokenAt cs location
  { message := "unexpected " ++ found
    location, line, column
    expected := expectedFrom message
    got := some found
    context := if Text.allBlank cs then none else some (excerpt cs line column contextRadius)
    suggestions := hints cs found
    filename }

end Rpal.Diagnosis
