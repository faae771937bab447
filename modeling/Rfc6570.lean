import Rfc6570.Edition
import Rfc6570.RawText
import Rfc6570.Template
import Rfc6570.PercentEncoding
import Rfc6570.Text.Blank
import Rfc6570.Text.Utf8
import Rfc6570.Binary64.Shortest
import Rfc6570.Binary64.Reading
import Rfc6570.Value
import Rfc6570.Expansion
import Rfc6570.Json.Reader
import Rfc6570.Binding
import Rfc6570.Store.Notation
import Rfc6570.Locations
import Rfc6570.CommandLine
import Rfc6570.Main
import Rfc6570.Proofs.Outcome
import Rfc6570.Proofs.Splitting
import Rfc6570.Proofs.VarspecGrammar
import Rfc6570.Proofs.TemplatePieces
import Rfc6570.Proofs.ExpansionAlphabet
import Rfc6570.Proofs.ExpressionGrammar
import Rfc6570.Proofs.Specialization
import Rfc6570.Proofs.SpecializationFaults
import Rfc6570.Proofs.SpecializationLaws
import Rfc6570.Proofs.ExpressionPasses
import Rfc6570.Proofs.SpecializationPasses
import Rfc6570.Proofs.Numerals
import Rfc6570.Proofs.TemplateRendering
import Rfc6570.Proofs.Conformance
import Rfc6570.Proofs.AssocWrites
import Rfc6570.Proofs.MergeHistory
import Rfc6570.Proofs.JsonData
import Rfc6570.Proofs.StoreCalls
import Rfc6570.Proofs.NamedPairs
import Rfc6570.Proofs.FreshMerges
import Rfc6570.Proofs.StoreEnvironments
import Rfc6570.Proofs.TemporaryStores
import Rfc6570.Proofs.RequestMeaning
import Rfc6570.Proofs.ExplodedMaps
import Rfc6570.Proofs.EmptyComposites
import Rfc6570.Proofs.Concatenation
import Rfc6570.Proofs.RemainingVariables
import Rfc6570.Proofs.ResidualOpening
import Rfc6570.Proofs.ExpansionFaults
import Rfc6570.Proofs.VarspecReading
import Rfc6570.Proofs.BindingSpellings
import Rfc6570.Proofs.LocationChain
import Rfc6570.Proofs.BindingRendering
import Rfc6570.Proofs.KeyOrder
import Rfc6570.Proofs.StoreNotation
import Rfc6570.Proofs.EncodedBytes
import Rfc6570.Proofs.JsonStrings
import Rfc6570.Proofs.PrintedLists
import Rfc6570.Proofs.ReferenceReading
import Rfc6570.Proofs.ResolvedPaths
import Rfc6570.Proofs.ReferenceWriting
import Rfc6570.Proofs.RelativeLocations
