import Specimen.Proofs.ConversionRuns
import Specimen.Proofs.Alongside
import Specimen.Proofs.Conformance
import Specimen.Proofs.FileIsolation
import Specimen.Proofs.TemplateReading
import Specimen.Proofs.TemplateSpelling
import Specimen.Sampling
import Specimen.Schema.Listing
import Specimen.Settings.Reader
import Specimen.Proofs.ReferenceChains
import Specimen.Proofs.BuiltinTypes
import Specimen.Proofs.Interpretation
import Specimen.Proofs.Collecting
import Specimen.Proofs.TypeReferences
import Specimen.Proofs.Origins
import Specimen.Proofs.Alone
import Specimen.Proofs.Tracked
import Specimen.Proofs.Together
import Specimen.Proofs.Building
import Specimen.Proofs.Reordering
import Specimen.Proofs.DeclarationOrder
import Specimen.Proofs.DepthLimit
import Specimen.Proofs.DocumentReader
import Specimen.Proofs.RoundTrip
import Specimen.Proofs.TagCount
import Specimen.Proofs.InlinedContent
import Specimen.Proofs.MergedBounds
import Specimen.Proofs.ScaledBound
import Specimen.Proofs.WrittenMultiples
import Specimen.Proofs.FacetChains
import Specimen.Proofs.IntegerLiteral
import Specimen.Proofs.DecimalLiteral
import Specimen.Proofs.NumberRange
import Specimen.Proofs.NumberFacets
import Specimen.Proofs.UnruledValues
import Specimen.Proofs.RestrictedValues
import Specimen.Proofs.DrawnNumbers
import Specimen.Proofs.DigitLimit
import Specimen.Proofs.CalendarDays
import Specimen.Proofs.CalendarText
import Specimen.Proofs.LayoutRange
import Specimen.Proofs.CalendarValues
import Specimen.Proofs.ClockValues
import Specimen.Proofs.YearTexts
import Specimen.Proofs.Splicing
import Specimen.Proofs.ArgumentLists
import Specimen.Proofs.OctetTexts
import Specimen.Proofs.LengthFacets
import Specimen.Proofs.CharacterSets
import Specimen.Proofs.PatternLanguage
import Specimen.Proofs.PatternReading
import Specimen.Proofs.NormalForms
import Specimen.Proofs.SampledTexts
import Specimen.Proofs.PatternValues
import Specimen.Proofs.BaseChains
import Specimen.Proofs.LayeredRules
import Specimen.Proofs.FaultPlaces
import Specimen.Proofs.QuotedLists
import Specimen.Proofs.DocumentAssembly
import Specimen.Proofs.ClosedModels
import Specimen.Proofs.ReadInRange
import Specimen.Proofs.NotedReferences
import Specimen.Proofs.RootElement
import Specimen.Proofs.PatternSearch
import Specimen.Proofs.TrailingParenthesis
import Specimen.Proofs.ClassEnds
import Specimen.Proofs.EnclosedText
import Specimen.Proofs.AnchoredPatterns
import Specimen.Proofs.RememberedTypes
import Specimen.Proofs.RulesInEffect
import Specimen.Proofs.InternedTypes
import Specimen.Proofs.CheckDigits
