/-
# Kinds of nodes

Every node of a program tree, every instruction of the machine and every value it computes
has a kind.  The kinds form one vocabulary:

    IDENTIFIER INTEGER STRING LET LAMBDA ...   written by the grammar
    YSTAR                                      brought in by standardizing
    BETA DELTA ETA TUPLE ENV                   met only while a program runs

A tree handed in from outside may hold a kind that is none of these; `Kind.other` keeps its
name, so nothing about such a node is lost.
-/
import Rpal.Text.LowerCase

namespace Rpal

/-- The kind of a node, an instruction or a value. -/
inductive Kind where
  | identifier | integer | string
  | letIn | lambda | whereDef | within | conditional
  | or | and | not
  | gr | ge | ls | le | eq | ne
  | plus | minus | neg | mult | div | exp
  | trueValue | falseValue | tau | aug | atCall | gamma | nil | dummy
  | simultDef | recDef | equal | functionForm | paren | comma | yStar
  | beta | delta | eta | tuple | env
  /-- A kind outside the vocabulary, by its name. -/
  | other (name : String)
  deriving DecidableEq, Repr, Inhabited

namespace Kind

/-! ## 1. Names -/

/-- The name of a kind. -/
def name : Kind → String
  | identifier => "IDENTIFIER"
  | integer => "INTEGER"
  | string => "STRING"
  | letIn => "LET"
  | lambda => "LAMBDA"
  | whereDef => "WHERE"
  | within => "WITHIN"
  | conditional => "CONDITIONAL"
  | or => "OR"
  | and => "AND"
  | not => "NOT"
  | gr => "GR"
  | ge => "GE"
  | ls => "LS"
  | le => "LE"
  | eq => "EQ"
  | ne => "NE"
  | plus => "PLUS"
  | minus => "MINUS"
  | neg => "NEG"
  | mult => "MULT"
  | div => "DIV"
  | exp => "EXP"
  | trueValue => "TRUE"
  | falseValue => "FALSE"
  | tau => "TAU"
  | aug => "AUG"
  | atCall => "AT"
  | gamma => "GAMMA"
  | nil => "NIL"
  | dummy => "DUMMY"
  | simultDef => "SIMULTDEF"
  | recDef => "REC"
  | equal => "EQUAL"
  | functionForm => "FCNFORM"
  | paren => "PAREN"
  | comma => "COMMA"
  | yStar => "YSTAR"
  | beta => "BETA"
  | delta => "DELTA"
  | eta => "ETA"
  | tuple => "TUPLE"
  | env => "ENV"
  | other name => name

/-- The kind of a given name; a name outside the vocabulary is kept as it is. -/
def ofName : String → Kind
  | "IDENTIFIER" => identifier
  | "INTEGER" => integer
  | "STRING" => string
  | "LET" => letIn
  | "LAMBDA" => lambda
  | "WHERE" => whereDef
  | "WITHIN" => within
  | "CONDITIONAL" => conditional
  | "OR" => or
  | "AND" => and
  | "NOT" => not
  | "GR" => gr
  | "GE" => ge
  | "LS" => ls
  | "LE" => le
  | "EQ" => eq
  | "NE" => ne
  | "PLUS" => plus
  | "MINUS" => minus
  | "NEG" => neg
  | "MULT" => mult
  | "DIV" => div
  | "EXP" => exp
  | "TRUE" => trueValue
  | "FALSE" => falseValue
  | "TAU" => tau
  | "AUG" => aug
  | "AT" => atCall
  | "GAMMA" => gamma
  | "NIL" => nil
  | "DUMMY" => dummy
  | "SIMULTDEF" => simultDef
  | "REC" => recDef
  | "EQUAL" => equal
  | "FCNFORM" => functionForm
  | "PAREN" => paren
  | "COMMA" => comma
  | "YSTAR" => yStar
  | "BETA" => beta
  | "DELTA" => delta
  | "ETA" => eta
  | "TUPLE" => tuple
  | "ENV" => env
  | name => other name

/-! ## 2. Labels -/

/-- The label of a kind in a printed tree.  Identifiers, integers and strings show their
text; a missing text reads `None`. -/
def label (kind : Kind) (text : Option String) : String :=
  let shown := text.getD "None"
  match kind with
  | identifier => s!"<ID:{shown}>"
  | string => s!"<STR:'{shown}'>"
  | integer => s!"<INT:{shown}>"
  | letIn => "let"
  | lambda => "lambda"
  | whereDef => "where"
  | within => "within"
  | conditional => "->"
  | or => "or"
  | and => "&"
  | not => "not"
  | gr => "gr"
  | ge => "ge"
  | ls => "ls"
  | le => "le"
  | eq => "eq"
  | ne => "ne"
  | plus => "+"
  | minus => "-"
  | neg => "neg"
  | mult => "*"
  | div => "/"
  | exp => "**"
  | trueValue => "<true>"
  | falseValue => "<false>"
  | tau => "tau"
  | aug => "aug"
  | atCall => "@"
  | gamma => "gamma"
  | nil => "<nil>"
  | dummy => "<dummy>"
  | simultDef => "and"
  | recDef => "rec"
  | equal => "="
  | functionForm => "function_form"
  | paren => "<()>"
  | comma => ","
  | yStar => "<Y*>"
  | beta => "beta"
  | delta => "delta"
  | eta => "eta"
  | tuple => "tuple"
  | env => "env"
  | other name => Text.lowerCase name

/-- The kind as messages name it: closures, wrappers, built-in names and `Y*` are all
functions, and both truth values are one kind. -/
def spoken : Kind → String
  | integer => "integer"
  | string => "string"
  | trueValue | falseValue => "truthvalue"
  | tuple => "tuple"
  | dummy => "dummy"
  | delta | eta | identifier | yStar => "function"
  | kind => Text.lowerCase kind.name

end Kind

end Rpal
