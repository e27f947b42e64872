import Tangency.Document.Number
import Tangency.Dual.OverDoubles
import Tangency.Proofs.Grammar
import Tangency.Proofs.GrammarUnique
import Tangency.Proofs.ProgramMeaning
import Tangency.Proofs.CursorSteps
import Tangency.Proofs.GrammarReading
import Tangency.Proofs.Expectation
import Tangency.Proofs.Refusal
import Tangency.Proofs.ReaderOutcomes
import Tangency.Proofs.FirstImpossibleToken
import Tangency.Proofs.NumberForms
import Tangency.Proofs.LongestMatch
import Tangency.Proofs.ScannedPieces
import Tangency.Proofs.Regrouping
import Tangency.Proofs.PrintedPhrases
import Tangency.Proofs.ExactValues
import Tangency.Proofs.LiteralText
import Tangency.Proofs.RoundTrip
import Tangency.Proofs.CurveHistory
import Tangency.Proofs.CalculationStages
import Tangency.Proofs.FormulaGrammar
import Tangency.Proofs.Denotation
import Tangency.Proofs.Folding
import Tangency.Proofs.RealMeaning
import Tangency.Proofs.DerivativeRules
import Tangency.Proofs.RegularTrees
import Tangency.Proofs.HigherDerivatives
import Tangency.Proofs.DualMeaning
import Tangency.Proofs.ForwardMode
import Tangency.Proofs.DualValues
import Tangency.Proofs.FoldedValues
import Tangency.Proofs.ReaderBudgets
import Tangency.Proofs.AnyTokens
import Tangency.Proofs.RereadText
import Tangency.Proofs.FoldedParts
import Tangency.Proofs.CleanTrees
import Tangency.Proofs.ExpressibleDerivatives
import Tangency.Proofs.DerivativeExtent
import Tangency.Proofs.UnpackedDoubles
import Tangency.Proofs.ConstantDerivative
import Tangency.Proofs.WrittenAgain
import Tangency.Proofs.StackHeights
import Tangency.Proofs.PairedReading
import Tangency.Proofs.LengthLimit
import Tangency.Proofs.Spacing
import Tangency.Proofs.MissingOperands
import Tangency.Proofs.EvenGrid
import Tangency.Proofs.SampledCurves
import Tangency.Proofs.NearestDoubles
import Tangency.Proofs.FloatRounding
import Tangency.Proofs.DoubleArithmetic
import Tangency.Proofs.FiniteGrid
import Tangency.Proofs.FailurePlaces
import Tangency.Proofs.CountedPoints
import Tangency.Proofs.DoubleOrder
import Tangency.Proofs.ShapeLabels
import Tangency.Proofs.FixedPlaces
import Tangency.Proofs.FormulaReading
import Tangency.Proofs.RichMeaning
import Tangency.Proofs.WholePowers
import Tangency.Proofs.DualFunctions
import Tangency.Proofs.DualOperations
