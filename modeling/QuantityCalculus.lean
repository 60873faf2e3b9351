import QuantityCalculus.Catalogue
import QuantityCalculus.Dimension.UncheckedText
import QuantityCalculus.Registry.Request
import QuantityCalculus.Session
import QuantityCalculus.Proofs.Dimension.Exponents
import QuantityCalculus.Proofs.Quantity.Expression
import QuantityCalculus.Proofs.Quantity.UnitChange
import QuantityCalculus.Proofs.Quantity.Fraction
import QuantityCalculus.Proofs.UnitExpr.LongestMatch
import QuantityCalculus.Proofs.UnitExpr.Meaning
import QuantityCalculus.Proofs.Registry.Run
import QuantityCalculus.Proofs.Registry.Aliases
import QuantityCalculus.Proofs.Sorting.Merge
import QuantityCalculus.Proofs.UnitExpr.Product
import QuantityCalculus.Proofs.Sorting.Runs
import QuantityCalculus.Proofs.Dimension.Text
import QuantityCalculus.Proofs.UnitExpr.RoundTrip
import QuantityCalculus.Proofs.Registry.ReadBack
import QuantityCalculus.Proofs.Dimension.Entries
import QuantityCalculus.Proofs.Dimension.Laws
import QuantityCalculus.Proofs.Quantity.Calculation
import QuantityCalculus.Proofs.Quantity.Simulation
import QuantityCalculus.Proofs.Quantity.ExactPayloads
import QuantityCalculus.Proofs.Registry.Views
import QuantityCalculus.Proofs.Registry.InPlace
import QuantityCalculus.Proofs.Registry.Names
import QuantityCalculus.Proofs.Registry.Refusal
import QuantityCalculus.Proofs.Registry.Unmentioned
import QuantityCalculus.Proofs.Registry.Taken
import QuantityCalculus.Proofs.Quantity.Mismatch
import QuantityCalculus.Proofs.Session.Program
import QuantityCalculus.Proofs.Session.Blocks
import QuantityCalculus.Proofs.Dimension.Unchecked
import QuantityCalculus.Proofs.Dimension.Normalized
import QuantityCalculus.Proofs.UnitExpr.Joined
import QuantityCalculus.Proofs.UnitExpr.Canonical
import QuantityCalculus.Proofs.Dimension.Triples
import QuantityCalculus.Proofs.Dimension.Composed
import QuantityCalculus.Proofs.Dimension.Reordered
import QuantityCalculus.Proofs.Quantity.Interchange
import QuantityCalculus.Proofs.Session.Writes
import QuantityCalculus.Proofs.Session.Modes
import QuantityCalculus.Proofs.Session.Installed
import QuantityCalculus.Proofs.Session.Configuration
import QuantityCalculus.Proofs.Quantity.Laws
import QuantityCalculus.Proofs.Quantity.Precedence
import QuantityCalculus.Proofs.Registry.Symbols
import QuantityCalculus.Proofs.UnitExpr.Faults
import QuantityCalculus.Proofs.Registry.Overwriting
import QuantityCalculus.Proofs.Dimension.Scaling
import QuantityCalculus.Proofs.Registry.Membership
import QuantityCalculus.Proofs.Quantity.Conversion
import QuantityCalculus.Proofs.Sorting.Order
import QuantityCalculus.Proofs.UnitExpr.Births
import QuantityCalculus.Proofs.Sorting.Ascending
import QuantityCalculus.Proofs.Dimension.Renderings
import QuantityCalculus.Proofs.Number.Unpacked
import QuantityCalculus.Proofs.Dimension.WholePowers
import QuantityCalculus.Proofs.Dimension.Acceptance
import QuantityCalculus.Proofs.Number.DoubleRange
import QuantityCalculus.Proofs.Dimension.Sums
import QuantityCalculus.Proofs.Registry.Factors
