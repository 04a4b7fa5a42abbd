import Abacus.Number.Text
import Abacus.Tree.Node
import Abacus.Tree.Outline
import Abacus.Tree.Dismantle
import Abacus.Eval.Journal
import Abacus.Eval.Run
import Abacus.Code.Generate
import Abacus.Inspect.Tree
import Abacus.Cache.Item
import Abacus.Proofs.Layout.Stream
import Abacus.Proofs.Layout.Limit
import Abacus.Proofs.Code.Text
import Abacus.Proofs.Layout.Lines
import Abacus.Proofs.Code.Lexeme
import Abacus.Proofs.Number.Nearest
import Abacus.Proofs.Number.Numeral
import Abacus.Proofs.Code.Grammar
import Abacus.Proofs.Code.Spelling
import Abacus.Proofs.Tree.Names
import Abacus.Proofs.Code.Reading
import Abacus.Proofs.Code.Meaning
import Abacus.Proofs.Code.Unambiguous
import Abacus.Proofs.Number.ReadBack
import Abacus.Proofs.Tree.Outline
import Abacus.Proofs.Tree.Head
import Abacus.Proofs.Tree.Faithful
import Abacus.Proofs.Eval.Dialogue
import Abacus.Proofs.Layout.OneWrite
import Abacus.Proofs.Eval.Frame
import Abacus.Proofs.Eval.NaN
import Abacus.Proofs.Cache.RoundTrip
import Abacus.Proofs.Layout.Parts
import Abacus.Proofs.Code.Tour
import Abacus.Proofs.Code.Branches
import Abacus.Proofs.Eval.Replay
import Abacus.Proofs.Layout.Fuse
import Abacus.Proofs.Code.Indentation
import Abacus.Proofs.Code.Delimiters
import Abacus.Proofs.Number.TiesToEven
import Abacus.Proofs.Code.Literal
import Abacus.Proofs.Eval.Order
import Abacus.Proofs.Eval.Failure
import Abacus.Proofs.Eval.Regroup
import Abacus.Proofs.Eval.Deeds
import Abacus.Proofs.Eval.Commute
import Abacus.Proofs.Text.Quoted
import Abacus.Proofs.Inspect.Legible
import Abacus.Proofs.Eval.Bindings
import Abacus.Proofs.Eval.Comparison
import Abacus.Proofs.Layout.Resume
import Abacus.Proofs.Tree.Walk
import Abacus.Proofs.Tree.Dismantle
import Abacus.Proofs.Number.Shortest
