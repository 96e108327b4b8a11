import SmallLisp.Text.CodeRange
import SmallLisp.Text.Blank
import SmallLisp.Text.Line
import SmallLisp.Text.Cluster.Table
import SmallLisp.Text.Cluster
import SmallLisp.Text.Typed
import SmallLisp.Token.Basic
import SmallLisp.Token.Lexer
import SmallLisp.Token.Cursor
import SmallLisp.Datum.Basic
import SmallLisp.Datum.Printer
import SmallLisp.Datum.Reader
import SmallLisp.Primitive
import SmallLisp.Value
import SmallLisp.Error
import SmallLisp.Store.Basic
import SmallLisp.Store.Scope
import SmallLisp.Store.Chain
import SmallLisp.Store.Tree
import SmallLisp.Eval.Basic
import SmallLisp.Eval.Arithmetic
import SmallLisp.Eval.Strict
import SmallLisp.Eval.Special
import SmallLisp.Eval.Apply
import SmallLisp.Eval.Evaluator
import SmallLisp.Session
import SmallLisp.Running
import SmallLisp.CommandLine
import SmallLisp.Main
import SmallLisp.Proofs.Grammar
import SmallLisp.Proofs.Reading
import SmallLisp.Proofs.Lexing
import SmallLisp.Proofs.Denotation
import SmallLisp.Proofs.RoundTrip
import SmallLisp.Proofs.Reach
import SmallLisp.Proofs.World
import SmallLisp.Proofs.Within
import SmallLisp.Proofs.Holding
import SmallLisp.Proofs.Agreement
import SmallLisp.Proofs.Guard
import SmallLisp.Proofs.Confinement
import SmallLisp.Proofs.Locality
import SmallLisp.Proofs.Sessions
import SmallLisp.Proofs.Symbols
import SmallLisp.Proofs.Presence
import SmallLisp.Proofs.Writers
import SmallLisp.Proofs.Bounds
import SmallLisp.Proofs.Forest
import SmallLisp.Proofs.ListTest
import SmallLisp.Proofs.Signatures
import SmallLisp.Proofs.Indexing
import SmallLisp.Proofs.Renaming
import SmallLisp.Proofs.Mirrors
import SmallLisp.Proofs.Lockstep
import SmallLisp.Proofs.Parallel
import SmallLisp.Proofs.Unmentioned
import SmallLisp.Proofs.Apart
import SmallLisp.Proofs.Renumbering
import SmallLisp.Proofs.Commuting
import SmallLisp.Proofs.SideBySide
import SmallLisp.Proofs.Tiling
import SmallLisp.Proofs.UnboundNames
import SmallLisp.Proofs.Answering
import SmallLisp.Proofs.Consecutive
import SmallLisp.Proofs.OneByOne
import SmallLisp.Proofs.Ending
import SmallLisp.Proofs.Progress
import SmallLisp.Proofs.Operands
import SmallLisp.Proofs.OneLine
import SmallLisp.Proofs.FileAndLines
import SmallLisp.Proofs.Refusal
import SmallLisp.Proofs.Respacing
import SmallLisp.Proofs.Resolution
import SmallLisp.Proofs.Deciding
import SmallLisp.Proofs.Wrapping
import SmallLisp.Proofs.Quotients
import SmallLisp.Proofs.Definitions
import SmallLisp.Proofs.ReadingOn
import SmallLisp.Proofs.Walking
import SmallLisp.Proofs.FreshTrees
import SmallLisp.Proofs.SpareFrames
import SmallLisp.Proofs.CallFrames
import SmallLisp.Proofs.Failing
import SmallLisp.Proofs.LexicalScoping
