/-
# From characters to tokens

The scanner reads a text, already free of tabs, from left to right.  Before each token it
skips a gap: any run of blanks, line ends and comments.  A comment runs from `//` to the end
of its line, and a backslash at the end of the line carries it on to the next.

A token is as long as it can be: `->`, `**`, `>=` and `<=` are one symbol each.  A character
that begins no token ends the scan; nothing behind it can ever be part of a program.
-/
import Rpal.Text.Digit
import Rpal.Token

namespace Rpal.Token

/-! ## 1. Classes of characters -/

/-- Whether a character separates tokens. -/
def isGapChar (c : Char) : Bool :=
  c = ' ' || c = '\n' || c = '\t' || c = '\r'

/-- Whether a character can continue an identifier. -/
def isNameChar (c : Char) : Bool :=
  c.isAlphanum || c = '_'

/-- Whether a character keeps a reserved word next to it from being a keyword. -/
def isKeywordChar (c : Char) : Bool :=
  isNameChar c || c = '$'

/-! ## 2. Gaps -/

mutual

/-- Drops the gap at the start of a text. -/
def skipGap : List Char → List Char
  | [] => []
  | '/' :: '/' :: rest => skipComment rest
  | c :: rest => if isGapChar c then skipGap rest else c :: rest

/-- Drops the rest of a comment, and the gap behind it. -/
def skipComment : List Char → List Char
  | [] => []
  | '\\' :: '\n' :: rest => skipComment rest
  | c :: rest => if c = '\n' then skipGap rest else skipComment rest

end

mutual

/-- A gap is a piece of the text: skipping it adds nothing. -/
theorem skipGap_suffix (cs : List Char) : skipGap cs <:+ cs := by
  match cs with
  | [] => simp [skipGap]
  | '/' :: '/' :: rest =>
    rw [skipGap]
    exact (skipComment_suffix rest).trans ⟨['/', '/'], rfl⟩
  | c :: rest =>
    rw [skipGap.eq_def]
    split
    · simp
    · rename_i rest' h
      obtain ⟨rfl, rfl⟩ := List.cons.inj h
      exact (skipComment_suffix rest').trans ⟨['/', '/'], rfl⟩
    · rename_i c' rest' _ h
      obtain ⟨rfl, rfl⟩ := List.cons.inj h
      split
      · exact (skipGap_suffix rest).trans (List.suffix_cons _ _)
      · exact List.suffix_refl _

/-- The rest of a comment is a piece of the text as well. -/
theorem skipComment_suffix (cs : List Char) : skipComment cs <:+ cs := by
  match cs with
  | [] => simp [skipComment]
  | c :: rest =>
    rw [skipComment.eq_def]
    split
    · simp
    · rename_i rest' h
      obtain ⟨rfl, rfl⟩ := List.cons.inj h
      exact (skipComment_suffix rest').trans ⟨['\\', '\n'], rfl⟩
    · rename_i c' rest' _ h
      obtain ⟨rfl, rfl⟩ := List.cons.inj h
      split
      · exact (skipGap_suffix rest).trans (List.suffix_cons _ _)
      · exact (skipComment_suffix rest).trans (List.suffix_cons _ _)

end

/-! ## 3. Single tokens -/

/-- The characters of a string literal behind its opening quote, and the text behind its
closing quote.  A backslash takes the next character with it, which must not be a line feed;
without a closing quote there is no literal. -/
def readString : List Char → Option (List Char × List Char)
  | [] => none
  | '\\' :: c :: rest =>
    if c = '\n' then none
    else (readString rest).map fun (raw, behind) => ('\\' :: c :: raw, behind)
  | c :: rest =>
    if c = '\'' then some ([], rest)
    else if c = '\\' then none
    else (readString rest).map fun (raw, behind) => (c :: raw, behind)

/-- A literal is its characters, the closing quote and what stands behind. -/
theorem readString_eq {cs raw behind : List Char} (h : readString cs = some (raw, behind)) :
    cs = raw ++ '\'' :: behind := by
  fun_induction readString cs generalizing raw behind with
  | case1 => simp at h
  | case2 => simp at h
  | case3 c rest hc ih =>
    obtain ⟨⟨raw', behind'⟩, hr, he⟩ := Option.map_eq_some_iff.mp h
    simp only [Prod.mk.injEq] at he
    obtain ⟨rfl, rfl⟩ := he
    simp [ih hr]
  | case4 rest => simp_all
  | case5 => simp at h
  | case6 c rest _ _ _ ih =>
    obtain ⟨⟨raw', behind'⟩, hr, he⟩ := Option.map_eq_some_iff.mp h
    simp only [Prod.mk.injEq] at he
    obtain ⟨rfl, rfl⟩ := he
    simp [ih hr]

/-- The symbol at the start of a text, and what stands behind it. -/
def readSymbol : List Char → Option (Symbol × List Char)
  | '-' :: '>' :: rest => some (.arrow, rest)
  | '*' :: '*' :: rest => some (.power, rest)
  | '>' :: '=' :: rest => some (.greaterEqual, rest)
  | '<' :: '=' :: rest => some (.lessEqual, rest)
  | '(' :: rest => some (.lparen, rest)
  | ')' :: rest => some (.rparen, rest)
  | ',' :: rest => some (.comma, rest)
  | '.' :: rest => some (.dot, rest)
  | '=' :: rest => some (.equals, rest)
  | '@' :: rest => some (.at, rest)
  | '|' :: rest => some (.bar, rest)
  | '&' :: rest => some (.ampersand, rest)
  | '+' :: rest => some (.plus, rest)
  | '-' :: rest => some (.minus, rest)
  | '*' :: rest => some (.times, rest)
  | '/' :: rest => some (.divide, rest)
  | '>' :: rest => some (.greater, rest)
  | '<' :: rest => some (.less, rest)
  | _ => none

/-- A symbol is read as it is spelled. -/
theorem readSymbol_eq {cs behind : List Char} {s : Symbol} (h : readSymbol cs = some (s, behind)) :
    cs = s.spelling.toList ++ behind := by
  unfold readSymbol at h
  split at h <;>
    first
    | (simp only [Option.some.injEq, Prod.mk.injEq] at h; obtain ⟨rfl, rfl⟩ := h; rfl)
    | simp at h

/-- A word is a keyword if it is reserved and touches no other word character. -/
def ofWord (glued : Bool) (word behind : List Char) : Token :=
  let name := String.ofList word
  if glued || behind.head?.any isKeywordChar then .identifier name
  else match Keyword.ofSpelling? name with
    | some w => .keyword w
    | none => .identifier name

/-- The token at the start of a text, and what stands behind it. -/
def read (glued : Bool) (cs : List Char) : Option (Token × List Char) :=
  match cs with
  | [] => none
  | c :: rest =>
    if c.isAlpha then
      let behind := rest.dropWhile isNameChar
      some (ofWord glued (c :: rest.takeWhile isNameChar) behind, behind)
    else if Text.isDigit c then
      some (.integer (String.ofList (c :: rest.takeWhile Text.isDigit)),
        rest.dropWhile Text.isDigit)
    else if c = '\'' then
      (readString rest).map fun (raw, behind) => (.string (String.ofList raw), behind)
    else (readSymbol (c :: rest)).map fun (s, behind) => (.symbol s, behind)

/-- A token has at least one character. -/
theorem read_length_lt {glued : Bool} {cs behind : List Char} {t : Token}
    (h : read glued cs = some (t, behind)) : behind.length < cs.length := by
  match cs with
  | [] => simp [read] at h
  | c :: rest =>
    have hdrop : ∀ p : Char → Bool, (rest.dropWhile p).length < (c :: rest).length := fun p => by
      have := (List.dropWhile_suffix p (l := rest)).length_le
      simp only [List.length_cons]
      omega
    simp only [read] at h
    split at h
    · simp only [Option.some.injEq, Prod.mk.injEq] at h
      exact h.2 ▸ hdrop isNameChar
    · split at h
      · simp only [Option.some.injEq, Prod.mk.injEq] at h
        exact h.2 ▸ hdrop Text.isDigit
      · split at h
        · obtain ⟨⟨raw, b⟩, hr, he⟩ := Option.map_eq_some_iff.mp h
          simp only [Prod.mk.injEq] at he
          have := congrArg List.length (readString_eq hr)
          simp only [List.length_append, List.length_cons] at this ⊢
          have := congrArg List.length he.2
          omega
        · obtain ⟨⟨s, b⟩, hr, he⟩ := Option.map_eq_some_iff.mp h
          simp only [Prod.mk.injEq] at he
          have h1 := congrArg List.length (readSymbol_eq hr)
          have h2 := congrArg List.length he.2
          have h3 : 0 < s.spelling.toList.length := by cases s <;> decide
          simp only [List.length_append] at h1
          omega

end Token

/-! ## 4. Whole texts -/

/-- What a scan yields: the tokens, the place where it stopped, and whether that is the end of
the text. -/
structure Scan where
  lexemes : List Lexeme
  stop : Nat
  complete : Bool

namespace Scan

/-- Scans on from `offset`; `glued` tells about the character before. -/
def fromOffset (offset : Nat) (glued : Bool) (cs : List Char) : Scan :=
  let here := Token.skipGap cs
  let start := offset + (cs.length - here.length)
  let glued := glued && here.length == cs.length
  match h : Token.read glued here with
  | none => { lexemes := [], stop := start, complete := here.isEmpty }
  | some (token, behind) =>
    have : behind.length < cs.length :=
      Nat.lt_of_lt_of_le (Token.read_length_lt h) (Token.skipGap_suffix cs).length_le
    let used := here.take (here.length - behind.length)
    let scan := fromOffset (start + used.length) (used.getLast?.any Token.isKeywordChar) behind
    { scan with lexemes := ⟨token, start, glued⟩ :: scan.lexemes }
termination_by cs.length

/-- Scans a text. -/
def ofText (cs : List Char) : Scan :=
  fromOffset 0 false cs

end Scan

end Rpal
