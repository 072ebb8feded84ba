import NumericTrees.Binary.Arithmetic
import NumericTrees.Binary.Basic
import NumericTrees.Binary.Conversion
import NumericTrees.Binary.Format
import NumericTrees.Binary.Rounding
import NumericTrees.Change
import NumericTrees.Decimal.Positional
import NumericTrees.Decimal.Shortest
import NumericTrees.Failure
import NumericTrees.Kind
import NumericTrees.Limits
import NumericTrees.Node.Basic
import NumericTrees.Node.Depth
import NumericTrees.Node.Hosted
import NumericTrees.Node.Passes
import NumericTrees.Number.Arithmetic
import NumericTrees.Number.Basic
import NumericTrees.Number.Coercion
import NumericTrees.Number.Text
import NumericTrees.Operation
import NumericTrees.Proofs.Agreement
import NumericTrees.Proofs.Assembly
import NumericTrees.Proofs.Bindings
import NumericTrees.Proofs.ClosedForm
import NumericTrees.Proofs.CoercionOrder
import NumericTrees.Proofs.Contents
import NumericTrees.Proofs.DecimalText
import NumericTrees.Proofs.DepthLimit
import NumericTrees.Proofs.Editing
import NumericTrees.Proofs.Escaping
import NumericTrees.Proofs.ExactCoercion
import NumericTrees.Proofs.ExactValue
import NumericTrees.Proofs.FewestDigits
import NumericTrees.Proofs.FiniteQuotients
import NumericTrees.Proofs.FirstFailure
import NumericTrees.Proofs.FloatTexts
import NumericTrees.Proofs.Grafting
import NumericTrees.Proofs.Height
import NumericTrees.Proofs.IntegerQuotients
import NumericTrees.Proofs.Interchange
import NumericTrees.Proofs.LiteralEquality
import NumericTrees.Proofs.NaNs
import NumericTrees.Proofs.NearestCode
import NumericTrees.Proofs.NearestMagnitude
import NumericTrees.Proofs.Nesting
import NumericTrees.Proofs.NumberSpelling
import NumericTrees.Proofs.Numerals
import NumericTrees.Proofs.NumericInputs
import NumericTrees.Proofs.OwnVariables
import NumericTrees.Proofs.Positions
import NumericTrees.Proofs.PrintedValues
import NumericTrees.Proofs.Quantity
import NumericTrees.Proofs.ReadBack
import NumericTrees.Proofs.Recoding
import NumericTrees.Proofs.Recording
import NumericTrees.Proofs.Registration
import NumericTrees.Proofs.RoundedQuotient
import NumericTrees.Proofs.Sharing
import NumericTrees.Proofs.ShortestValue
import NumericTrees.Proofs.Spelling
import NumericTrees.Proofs.Traversal
import NumericTrees.Proofs.TypeBytes
import NumericTrees.Proofs.Walk
import NumericTrees.Proofs.Widening
import NumericTrees.Proofs.WorkingKind
import NumericTrees.Registry
import NumericTrees.Search
import NumericTrees.Slots
import NumericTrees.Terminal
import NumericTrees.Text.GraphemeExtend
import NumericTrees.Text.Quoted
import NumericTrees.Text.Unprintable
import NumericTrees.Text.Utf8
import NumericTrees.Trace
import NumericTrees.Tree.Basic
import NumericTrees.Tree.Edit
import NumericTrees.Tree.Evaluation
import NumericTrees.Tree.Node
import NumericTrees.Tree.Typing
import NumericTrees.Tuple
import NumericTrees.Value
import NumericTrees.ValueType
import NumericTrees.Variable
import NumericTrees.Wire.Codec
import NumericTrees.Wire.Reader
import NumericTrees.Wire.Varint
