import UnitCalculator.Main
import UnitCalculator.Proofs.Decimal.Significant
import UnitCalculator.Proofs.Decimal.Value
import UnitCalculator.Proofs.Dimension.Text
import UnitCalculator.Proofs.Expression.Balance
import UnitCalculator.Proofs.Expression.Dimension
import UnitCalculator.Proofs.Expression.Exponent
import UnitCalculator.Proofs.Expression.Layout
import UnitCalculator.Proofs.Expression.Placement
import UnitCalculator.Proofs.Expression.PowerBase
import UnitCalculator.Proofs.Expression.Retyping
import UnitCalculator.Proofs.Expression.Substitutivity
import UnitCalculator.Proofs.Expression.TokenOrder
import UnitCalculator.Proofs.Quantity.Amount
import UnitCalculator.Proofs.Quantity.BaseUnits
import UnitCalculator.Proofs.Quantity.Fraction
import UnitCalculator.Proofs.Quantity.Literal
import UnitCalculator.Proofs.Quantity.Power
import UnitCalculator.Proofs.Quantity.Repeated
import UnitCalculator.Proofs.Reference.FormulaText
import UnitCalculator.Proofs.Reference.MolarMass
import UnitCalculator.Proofs.Reference.Multiplicity
import UnitCalculator.Proofs.Reference.Nesting
import UnitCalculator.Proofs.Worksheet.Files
import UnitCalculator.Proofs.Worksheet.Recall
import UnitCalculator.Proofs.Worksheet.Reporting
import UnitCalculator.Proofs.Worksheet.Scheduling
import UnitCalculator.Quantity.BaseUnits
import UnitCalculator.Quantity.Fingerprint
import UnitCalculator.Service
