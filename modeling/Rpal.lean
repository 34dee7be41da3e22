import Rpal.CommandLine
import Rpal.Environment.Forest
import Rpal.Main
import Rpal.Proofs.Evaluation.Standardizing
import Rpal.Proofs.Machine.Balance
import Rpal.Session
import Rpal.Proofs.Grammar.Derivation
import Rpal.Proofs.Grammar.Soundness
import Rpal.Proofs.Grammar.Completeness
import Rpal.Proofs.Grammar.Parsing
import Rpal.Proofs.Grammar.Rendering
import Rpal.Proofs.Standard.Canonical
import Rpal.Proofs.Standard.Normal
import Rpal.Proofs.Control.Names
import Rpal.Proofs.Machine.Scope
import Rpal.Proofs.Interactive.Conversations
import Rpal.Proofs.CommandLine.Scripts
import Rpal.Proofs.Standard.Failures
import Rpal.Proofs.Standard.Confluence
import Rpal.Proofs.Control.Numbering
import Rpal.Proofs.Control.Decoding
import Rpal.Proofs.Machine.Context
import Rpal.Proofs.Machine.Copies
import Rpal.Proofs.Machine.Entries
import Rpal.Proofs.Program.Sum
import Rpal.Proofs.Grammar.Layout
import Rpal.Proofs.Grammar.Identifiers
import Rpal.Proofs.Tree.Outline
import Rpal.Proofs.Evaluation.Gathering
import Rpal.Proofs.Evaluation.Regrouping
import Rpal.Proofs.Grammar.Literals
import Rpal.Proofs.Program.Echo
import Rpal.Proofs.Environment.Histories
import Rpal.Proofs.Operator.Exactness
import Rpal.Proofs.Operator.NegativePowers
import Rpal.Proofs.Diagnosis.Excerpt
import Rpal.Proofs.Diagnosis.Tabs
import Rpal.Proofs.Diagnosis.Positions
import Rpal.Proofs.Item.Sequences
import Rpal.Proofs.Operator.Comparisons
import Rpal.Proofs.Grammar.Recognition
