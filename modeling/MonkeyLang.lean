import MonkeyLang.Token
import MonkeyLang.Token.Scan
import MonkeyLang.Operator
import MonkeyLang.Integer
import MonkeyLang.Tree
import MonkeyLang.Tree.Text
import MonkeyLang.Diagnostic
import MonkeyLang.Cursor
import MonkeyLang.Cursor.Step
import MonkeyLang.Cursor.Recovery
import MonkeyLang.Tree.Parse
import MonkeyLang.Value
import MonkeyLang.Value.Arithmetic
import MonkeyLang.Environment
import MonkeyLang.Tree.Evaluation
import MonkeyLang.Script
import MonkeyLang.Settings
import MonkeyLang.Text
import MonkeyLang.Shell
import MonkeyLang.CommandLine.Arguments
import MonkeyLang.CommandLine
import MonkeyLang.Main
import MonkeyLang.Proofs.Reading.Induction
import MonkeyLang.Proofs.Invariant
import MonkeyLang.Proofs.Grammar
import MonkeyLang.Proofs.Chain
import MonkeyLang.Proofs.Written
import MonkeyLang.Proofs.Yields
import MonkeyLang.Proofs.Reading.Skipping
import MonkeyLang.Proofs.Reading.Recovery
import MonkeyLang.Proofs.Reading.Calls
import MonkeyLang.Proofs.Abandoned
import MonkeyLang.Proofs.Reading.Kept
import MonkeyLang.Proofs.Reading.Soundness
import MonkeyLang.Proofs.Reading.Completeness
import MonkeyLang.Proofs.Acceptance
import MonkeyLang.Proofs.Braces
import MonkeyLang.Proofs.Embedding
import MonkeyLang.Proofs.Embedding.Recovery
import MonkeyLang.Proofs.Embedding.Agreement
import MonkeyLang.Proofs.Embedding.Reading
import MonkeyLang.Proofs.Relabelling
import MonkeyLang.Proofs.Relabelling.Reading
import MonkeyLang.Proofs.Confinement
import MonkeyLang.Proofs.Segments
import MonkeyLang.Proofs.Blocks
import MonkeyLang.Proofs.Lexing.LongestMatch
import MonkeyLang.Proofs.Lexing.Decomposition
import MonkeyLang.Proofs.CanonicalText
import MonkeyLang.Proofs.Completion
import MonkeyLang.Proofs.Incomplete
import MonkeyLang.Proofs.Unclosed.Recovery
import MonkeyLang.Proofs.Unclosed
import MonkeyLang.Proofs.Advances
import MonkeyLang.Proofs.Bookkeeping.Places
import MonkeyLang.Proofs.Bookkeeping.Blocks
import MonkeyLang.Proofs.Bookkeeping.Phrases
import MonkeyLang.Proofs.Bookkeeping
import MonkeyLang.Proofs.Lexing.LineBreak
import MonkeyLang.Proofs.Lexing.Spacing
import MonkeyLang.Proofs.Evaluation.Result
import MonkeyLang.Proofs.Evaluation.Returns
import MonkeyLang.Proofs.Evaluation.Names
import MonkeyLang.Proofs.Evaluation.Frame
import MonkeyLang.Proofs.Evaluation.Renaming
import MonkeyLang.Proofs.Evaluation.InStep
import MonkeyLang.Proofs.Evaluation.Repetition
import MonkeyLang.Proofs.Evaluation.Independence
import MonkeyLang.Proofs.Evaluation.Contexts
import MonkeyLang.Proofs.Evaluation.Arithmetic
import MonkeyLang.Proofs.Pieces
import MonkeyLang.Proofs.FrontEnds
import MonkeyLang.Proofs.Session
import MonkeyLang.Proofs.Updates
import MonkeyLang.Proofs.Decimal
import MonkeyLang.Proofs.Grounds
import MonkeyLang.Proofs.IntegerLiterals
