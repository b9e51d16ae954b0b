import XmlSelect.Main
import XmlSelect.Proofs.AnyDepth
import XmlSelect.Proofs.AxisOrder
import XmlSelect.Proofs.AxisPartition
import XmlSelect.Proofs.BlockedCalls
import XmlSelect.Proofs.BuiltDocuments
import XmlSelect.Proofs.ByteOrderMarks
import XmlSelect.Proofs.CacheRefinement
import XmlSelect.Proofs.CompiledNames
import XmlSelect.Proofs.ConstantOperands
import XmlSelect.Proofs.ContentRoundTrip
import XmlSelect.Proofs.DeclaredEncoding
import XmlSelect.Proofs.DeepestExpression
import XmlSelect.Proofs.DepthLimit
import XmlSelect.Proofs.DistinctPaths
import XmlSelect.Proofs.EntityExpansion
import XmlSelect.Proofs.EntityFiles
import XmlSelect.Proofs.EntitySubstitution
import XmlSelect.Proofs.ExpansionNesting
import XmlSelect.Proofs.ExpansionVolume
import XmlSelect.Proofs.ExternalEntities
import XmlSelect.Proofs.FaultCauses
import XmlSelect.Proofs.FileIndependence
import XmlSelect.Proofs.ForeignCharacters
import XmlSelect.Proofs.GrammarCompleteness
import XmlSelect.Proofs.Indentation
import XmlSelect.Proofs.InlineExpansion
import XmlSelect.Proofs.LineEndContent
import XmlSelect.Proofs.LineEndDoctype
import XmlSelect.Proofs.LineEndDocument
import XmlSelect.Proofs.LineEndReferences
import XmlSelect.Proofs.LineEnds
import XmlSelect.Proofs.MixedContent
import XmlSelect.Proofs.NodeSetOrder
import XmlSelect.Proofs.PathSelection
import XmlSelect.Proofs.PlainRecursion
import XmlSelect.Proofs.PlainSelectors
import XmlSelect.Proofs.PrologRoundTrip
import XmlSelect.Proofs.ReadingLimits
import XmlSelect.Proofs.Respacing
import XmlSelect.Proofs.SelectorMeaning
import XmlSelect.Proofs.SlotReuse
import XmlSelect.Proofs.SuffixTest
import XmlSelect.Proofs.TurnedComparison
import XmlSelect.Proofs.UnmetComparisons
import XmlSelect.Proofs.ViablePrefixes
import XmlSelect.Proofs.WrittenEntities
import XmlSelect.Proofs.WrittenSelector
