/-
# Layout

Between the tokens of a source text stand gaps, runs of white space and of comments:

    let x = 1 in x           let x// the number
                               = 1
                             in x

A comment goes on to the next line where a backslash stands in front of the line feed.  `LaidOut`
says which texts write given tokens, with a gap between any two; what the gaps are makes no
difference.  The scanner finds the same tokens in all these texts (`Scan.finds_laidOut`), and the
parser looks at nothing else (`Program.parse_layout`).
-/
import Rpal.Proofs.Grammar.Parsing

namespace Rpal

namespace Token

variable {ts : List Token} {cs gap text : List Char}

/-! ## 1. Gaps -/

/-- The text of a comment behind its slashes: a line feed stands in it only behind a backslash. -/
inductive IsComment : List Char → Prop where
  | nil : IsComment []
  | continued {text : List Char} (h : IsComment text) : IsComment ('\\' :: '\n' :: text)
  | char {c : Char} {text : List Char} (hc : c ≠ '\n') (h : IsComment text) : IsComment (c :: text)

/-- White space and comments.  A comment ends at a line feed that no backslash stands in front
of. -/
inductive Gap : List Char → Prop where
  | nil : Gap []
  | space {c : Char} {gap : List Char} (hc : isGapChar c) (h : Gap gap) : Gap (c :: gap)
  | comment {text gap : List Char} (ht : IsComment text) (hend : text.getLast? ≠ some '\\')
      (h : Gap gap) : Gap ('/' :: '/' :: (text ++ '\n' :: gap))

/-- A gap at the end of a text, whose last comment may end with the text. -/
inductive LastGap : List Char → Prop where
  | gap {gap : List Char} (h : Gap gap) : LastGap gap
  | comment {gap text : List Char} (h : Gap gap) (ht : IsComment text) :
      LastGap (gap ++ '/' :: '/' :: text)

theorem IsComment.head_ne (h : IsComment text) : text.head? ≠ some '\n' := by
  cases h with
  | nil => exact nofun
  | continued => exact fun heq => absurd (Option.some.inj heq) (by decide)
  | char hc => exact fun heq => hc (Option.some.inj heq)

theorem skipComment_cons {c : Char} (hc : c ≠ '\n') (h : c = '\\' → cs.head? ≠ some '\n') :
    skipComment (c :: cs) = skipComment cs := by
  rw [skipComment.eq_3 c cs, if_neg hc]
  rintro rest rfl rfl
  exact h rfl rfl

/-- A comment is skipped up to the line feed that ends it. -/
theorem skipComment_append (ht : IsComment text) (hend : text.getLast? ≠ some '\\')
    (rest : List Char) : skipComment (text ++ '\n' :: rest) = skipGap rest := by
  induction ht with
  | nil => rfl
  | @continued text ht ih =>
    refine ih fun hlast => hend ?_
    rw [List.getLast?_cons, List.getLast?_cons, hlast]
    rfl
  | @char c text hc ht ih =>
    have hbackslash : c = '\\' → (text ++ '\n' :: rest).head? ≠ some '\n' := by
      rintro rfl
      cases text with
      | nil => exact absurd rfl hend
      | cons d text => exact ht.head_ne
    rw [List.cons_append, skipComment_cons hc hbackslash]
    refine ih fun hlast => hend ?_
    rw [List.getLast?_cons, hlast]
    rfl

/-- A comment without an end is skipped to the end of the text. -/
theorem skipComment_eq_nil (ht : IsComment text) : skipComment text = [] := by
  induction ht with
  | nil => rfl
  | continued _ ih => exact ih
  | char hc ht ih => rw [skipComment_cons hc fun _ => ht.head_ne, ih]

/-- **A gap is skipped**, whatever stands behind it. -/
theorem skipGap_append (h : Gap gap) (rest : List Char) : skipGap (gap ++ rest) = skipGap rest := by
  induction h with
  | nil => rfl
  | space hc _ ih => rw [List.cons_append, skipGap_gapChar hc, ih]
  | @comment text gap ht hend _ ih =>
    calc skipGap ('/' :: '/' :: (text ++ '\n' :: gap) ++ rest)
        = skipComment (text ++ '\n' :: (gap ++ rest)) := by
          simp only [List.cons_append, List.append_assoc, skipGap]
      _ = skipGap (gap ++ rest) := skipComment_append ht hend _
      _ = skipGap rest := ih

theorem LastGap.skipGap_eq_nil (h : LastGap gap) : skipGap gap = [] := by
  cases h with
  | gap h =>
    have hskip := skipGap_append h []
    rwa [List.append_nil] at hskip
  | comment h ht =>
    rw [skipGap_append h]
    exact skipComment_eq_nil ht

/-! ## 2. Texts that write tokens -/

/-- The text behind a token that writes further tokens: in front of each of them a gap that begins
with white space, and such a gap or nothing behind the last. -/
inductive Behind : List Token → List Char → Prop where
  | last {gap : List Char} (hg : LastGap gap) (ha : Apart gap) : Behind [] gap
  | next {c : Char} {t : Token} {ts : List Token} {gap cs : List Char} (hc : isGapChar c)
      (hg : Gap gap) (h : Behind ts cs) : Behind (t :: ts) (c :: (gap ++ (t.spelling ++ cs)))

/-- The text writes the tokens, with any gap between two of them, and any or none at its start and
at its end. -/
inductive LaidOut : List Token → List Char → Prop where
  | nothing {gap : List Char} (hg : LastGap gap) : LaidOut [] gap
  | tokens {t : Token} {ts : List Token} {gap cs : List Char} (hg : Gap gap) (h : Behind ts cs) :
      LaidOut (t :: ts) (gap ++ (t.spelling ++ cs))

theorem Behind.apart (h : Behind ts cs) : Apart cs := by
  cases h with
  | last _ ha => exact ha
  | next hc =>
    intro d hd
    obtain rfl := Option.some.inj hd
    exact hc

end Token

namespace Scan

open Token

variable {ts : List Token} {cs : List Char}

theorem read_behind_gap {t : Token} {gap : List Char} (ht : t.Lexical) (hg : Gap gap)
    (h : Behind ts cs) :
    Token.read false (skipGap (gap ++ (t.spelling ++ cs))) = some (t, cs) := by
  rw [skipGap_append hg]
  exact read_skipGap_spelling ht h.apart

theorem finds_behind (h : Behind ts cs) (hts : ∀ t ∈ ts, t.Lexical) :
    ∀ offset glued, Finds (fromOffset offset glued cs) ts := by
  induction h with
  | last hg => exact finds_nothing hg.skipGap_eq_nil
  | next hc hg h ih =>
    rw [List.forall_mem_cons] at hts
    exact finds_behind_gap hc (read_behind_gap hts.1 hg h) (ih hts.2)

/-- **Tokens are scanned back** from every text that writes them. -/
theorem finds_laidOut (h : LaidOut ts cs) (hts : ∀ t ∈ ts, t.Lexical) : Finds (ofText cs) ts := by
  cases h with
  | nothing hg => exact finds_nothing hg.skipGap_eq_nil 0 false
  | tokens hg h =>
    rw [List.forall_mem_cons] at hts
    exact finds_of_read 0 (read_behind_gap hts.1 hg h) (finds_behind h hts.2)

end Scan

namespace Program

open Grammar Token

/-! ## 3. Parsing -/

/-- A text that writes tokens has the trees of their derivations. -/
theorem parse_laidOut_iff {ts : List Token} (hts : ∀ t ∈ ts, t.Lexical) {source : String}
    (htab : '\t' ∉ source.toList) (h : LaidOut ts source.toList) (filename : String) (t : Tree) :
    parse filename source = .ok t ↔ Derives .expression ts t := by
  obtain ⟨htokens, hcomplete⟩ := Scan.finds_laidOut h hts
  rw [parse_iff_derives htab, htokens]
  exact and_iff_right hcomplete

/-- **Layout is insignificant.**  Two texts that write the same tokens, whatever the gaps between
them, are read as the same tree, or none of them is a program. -/
theorem parse_layout (filename : String) {ts : List Token} (hts : ∀ t ∈ ts, t.Lexical)
    {source source' : String} (htab : '\t' ∉ source.toList) (htab' : '\t' ∉ source'.toList)
    (h : LaidOut ts source.toList) (h' : LaidOut ts source'.toList) :
    (∃ t, parse filename source = .ok t ∧ parse filename source' = .ok t) ∨
      (∃ e, parse filename source = .error e) ∧ ∃ e, parse filename source' = .error e := by
  have hiff := parse_laidOut_iff hts htab h filename
  have hiff' := parse_laidOut_iff hts htab' h' filename
  cases hparse : parse filename source with
  | ok t => exact .inl ⟨t, rfl, (hiff' t).mpr ((hiff t).mp hparse)⟩
  | error e =>
    cases hparse' : parse filename source' with
    | ok t =>
      have hok := (hiff t).mpr ((hiff' t).mp hparse')
      cases hparse.symm.trans hok
    | error e' => exact .inr ⟨⟨e, rfl⟩, e', rfl⟩

/-- `- 1`, and the same with comments: one that goes on to a second line, one that holds a quote,
and one that the text ends in. -/
theorem parse_layout_comments :
    let ts : List Token := [.symbol .minus, .integer "1"]
    let source := "- 1"
    let source' := "//\\\n'\n-\r//'\n1 //"
    (∀ t ∈ ts, t.Lexical) ∧ LaidOut ts source.toList ∧ LaidOut ts source'.toList ∧
      ∃ t, parse "<input>" source = .ok t ∧ parse "<input>" source' = .ok t := by
  intro ts source source'
  have hts : ∀ t ∈ ts, t.Lexical := by
    refine List.forall_mem_cons.mpr ⟨trivial, List.forall_mem_singleton.mpr ⟨by decide, ?_⟩⟩
    exact List.all_eq_true.mp (by decide)
  have h : LaidOut ts source.toList := by
    rw [show source.toList = ['-', ' ', '1'] by decide]
    exact .tokens (t := .symbol .minus) .nil
      (.next (t := .integer "1") rfl .nil (.last (.gap .nil) nofun))
  have h' : LaidOut ts source'.toList := by
    rw [show source'.toList = ['/', '/', '\\', '\n', '\'', '\n'] ++ ('-' ::
      ('\r' :: (['/', '/', '\'', '\n'] ++ ('1' :: [' ', '/', '/'])))) by decide]
    have hlast : Behind [] [' ', '/', '/'] :=
      .last (.comment (.space rfl .nil) .nil) fun c hc => Option.some.inj hc ▸ rfl
    exact .tokens (t := .symbol .minus)
      (.comment (.continued (.char (by decide) .nil)) (by decide) .nil)
      (.next (t := .integer "1") rfl (.comment (.char (by decide) .nil) (by decide) .nil) hlast)
  refine ⟨hts, h, h', ?_⟩
  rcases parse_layout "<input>" hts (by decide) (by decide) h h' with hok | ⟨⟨e, he⟩, -⟩
  · exact hok
  · obtain ⟨one, hone, htree⟩ : Derives (.chain .product) [.integer "1"] (.leaf .integer "1") :=
      (derives_atom rfl).climb 4
    have hnegative : Derives .expression ts (.branch .neg [.leaf .integer "1"]) :=
      Derives.climb 9 (n := .chain .sum) ⟨.negative one, by rw [Derivation.yield, hone],
        by rw [Derivation.tree, htree]⟩
    cases he.symm.trans ((parse_laidOut_iff hts (by decide) h "<input>" _).mpr hnegative)

end Program

end Rpal
