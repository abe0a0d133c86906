import FuzzyInference.Combinator
import FuzzyInference.Config.Basic
import FuzzyInference.Config.Build
import FuzzyInference.Config.Decode
import FuzzyInference.Config.Encode
import FuzzyInference.Decimal.Basic
import FuzzyInference.Decimal.Shortest
import FuzzyInference.Decimal.Style
import FuzzyInference.Defuzzify
import FuzzyInference.Error
import FuzzyInference.Grid
import FuzzyInference.Json.Basic
import FuzzyInference.Json.Reader
import FuzzyInference.Json.Writer
import FuzzyInference.Membership.Basic
import FuzzyInference.Membership.Expression
import FuzzyInference.Membership.Family
import FuzzyInference.Membership.Fault
import FuzzyInference.Membership.Label
import FuzzyInference.Membership.Parameters
import FuzzyInference.Membership.Shape
import FuzzyInference.Membership.Validate
import FuzzyInference.OrderedMap
import FuzzyInference.Rating
import FuzzyInference.Rule.Basic
import FuzzyInference.Rule.Inference
import FuzzyInference.Rule.Table
import FuzzyInference.Scalar.Ascending
import FuzzyInference.Scalar.Basic
import FuzzyInference.Scalar.Machine
import FuzzyInference.Scalar.Unpacked
import FuzzyInference.Session.Answer
import FuzzyInference.Session.Basic
import FuzzyInference.Session.Command
import FuzzyInference.Session.Domains
import FuzzyInference.Session.Rules
import FuzzyInference.Session.Run
import FuzzyInference.Session.Sets
import FuzzyInference.Store.Basic
import FuzzyInference.Store.Comparison
import FuzzyInference.Store.Derivation
import FuzzyInference.Store.Registry
import FuzzyInference.Store.Sampling
import FuzzyInference.Text.Alphabetic
import FuzzyInference.Text.Blank
import FuzzyInference.Text.CodeRanges
import FuzzyInference.Text.Combining
import FuzzyInference.Text.Identifier
import FuzzyInference.Text.Numeric
import FuzzyInference.Text.Quoted
import FuzzyInference.Text.Unprintable
import FuzzyInference.Text.Words
import FuzzyInference.Truth
import FuzzyInference.Proofs.Store.Change
import FuzzyInference.Proofs.Store.Action
import FuzzyInference.Proofs.Store.Operation
import FuzzyInference.Proofs.Store.Insertion
import FuzzyInference.Proofs.Store.SamplePoints
import FuzzyInference.Proofs.Store.Sampling
import FuzzyInference.Proofs.Store.Registry
import FuzzyInference.Proofs.Rule.Firing
import FuzzyInference.Proofs.Rule.Target
import FuzzyInference.Proofs.Exact.Scalar
import FuzzyInference.Proofs.Exact.Norm
import FuzzyInference.Proofs.Exact.Rounding
import FuzzyInference.Proofs.Combinator.Reduction
import FuzzyInference.Proofs.Combinator.Norms
import FuzzyInference.Proofs.Defuzzify
import FuzzyInference.Proofs.Defuzzify.Bisector
import FuzzyInference.Proofs.Defuzzify.Maxima
import FuzzyInference.Proofs.Grid
import FuzzyInference.Proofs.Grid.Samples
import FuzzyInference.Proofs.Grid.Stride
import FuzzyInference.Proofs.Store.Coherence
import FuzzyInference.Proofs.Rule.Range
import FuzzyInference.Proofs.Config.Function
import FuzzyInference.Proofs.Config.Reading
import FuzzyInference.Proofs.Config.RoundTrip
import FuzzyInference.Proofs.Store.Comparison
import FuzzyInference.Proofs.OrderedMap
import FuzzyInference.Proofs.Double.Order
import FuzzyInference.Proofs.Double.Sum
import FuzzyInference.Proofs.Membership.Accepted
import FuzzyInference.Proofs.Config.Build
import FuzzyInference.Proofs.Store.Acceptance
import FuzzyInference.Proofs.Config.Description
import FuzzyInference.Proofs.Rule.Equality
import FuzzyInference.Proofs.Double.Folds
import FuzzyInference.Proofs.Store.Trace
import FuzzyInference.Proofs.Rule.Construction
import FuzzyInference.Proofs.Membership.Composition
import FuzzyInference.Proofs.Membership.Bounded
import FuzzyInference.Proofs.Store.Normalization
import FuzzyInference.Proofs.Store.Registration
import FuzzyInference.Proofs.Rule.Meaning
import FuzzyInference.Proofs.Text.Layout
import FuzzyInference.Proofs.Rule.Table
import FuzzyInference.Proofs.Double.Relative
import FuzzyInference.Proofs.Double.Library
import FuzzyInference.Proofs.Membership.Logistic
import FuzzyInference.Proofs.Membership.Monotone
import FuzzyInference.Proofs.Combinator.ExclusiveOr
import FuzzyInference.Proofs.Store.Expression
import FuzzyInference.Proofs.Double.Power
import FuzzyInference.Proofs.Store.Hedges
import FuzzyInference.Proofs.Rule.Failure
import FuzzyInference.Proofs.Rating
import FuzzyInference.Proofs.Rating.Weights
import FuzzyInference.Proofs.Membership.Row
import FuzzyInference.Proofs.Membership.Ramp
import FuzzyInference.Proofs.Membership.Step
import FuzzyInference.Proofs.Membership.Interpolation
