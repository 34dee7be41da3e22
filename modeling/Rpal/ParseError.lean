/-
# Parse errors and their reports

A parse error says what was met and where, shows the lines around the place with a caret under
the column, and may add hints:

    Parse error at <input>:2:4: unexpected name 'in'
      Found: name 'in'
       1 | let x = 5
       2 | y  in x
         |    ^
      Hint: ...

An error that has no line, such as that of a missing file, is reported in one line.
-/
namespace Rpal

/-- An error in a source text or a source file. -/
structure ParseError where
  message : String
  location : Int := 0
  line : Int := 0
  column : Int := 0
  expected : List String := []
  got : Option String := none
  context : Option String := none
  suggestions : List String := []
  filename : String := "<input>"

namespace ParseError

/-- A part of a report that is left out when its text is missing or empty. -/
def part (lead : String) : Option String → List String
  | some text => if text.isEmpty then [] else [lead ++ text]
  | none => []

/-- The report of an error. -/
def report (e : ParseError) : String :=
  if e.line = 0 then "Parse error: " ++ e.message
  else
    let place := e.filename ++ ":" ++ toString e.line ++ ":" ++ toString e.column
    let expected :=
      if e.expected.isEmpty then [] else ["  Expected: " ++ ", ".intercalate e.expected]
    "\n".intercalate <|
      ["Parse error at " ++ place ++ ": " ++ e.message] ++ expected ++
        part "  Found: " e.got ++ part "" e.context ++ e.suggestions.map ("  Hint: " ++ ·)

/-- The error of a file that does not exist. -/
def missingFile (path : String) : ParseError :=
  { message := "File not found: " ++ path }

/-- The error of a file that is not UTF-8 text. -/
def undecodableFile (path reason : String) : ParseError :=
  { message := "Cannot decode file " ++ path ++ ": " ++ reason }

end ParseError

end Rpal
