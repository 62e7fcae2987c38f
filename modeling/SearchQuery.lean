import SearchQuery.Main
import SearchQuery.Proofs.Negation
import SearchQuery.Proofs.NestingScope
import SearchQuery.Proofs.QueryLint
import SearchQuery.Proofs.NormalForm
import SearchQuery.Proofs.CatalogLookup
import SearchQuery.Proofs.MappingFields
import SearchQuery.Proofs.DistinctNames
import SearchQuery.Proofs.TrailText
import SearchQuery.Proofs.NodeTrails
import SearchQuery.Proofs.PlainNames
import SearchQuery.Proofs.MappingCoherence
import SearchQuery.Proofs.CoherentLint
import SearchQuery.Proofs.CatalogRoundTrip
import SearchQuery.Proofs.FormRoundTrip
import SearchQuery.Proofs.CommandOutcomes
import SearchQuery.Proofs.ImportedCatalog
import SearchQuery.Proofs.ConditionOrder
import SearchQuery.Proofs.QueryReading
import SearchQuery.Proofs.Survival
import SearchQuery.Proofs.OperatorReads
import SearchQuery.Proofs.OperatorIdentities
import SearchQuery.Proofs.TimeframeCondition
import SearchQuery.Proofs.SetMembers
import SearchQuery.Proofs.NamedFields
import SearchQuery.Proofs.CatalogView
import SearchQuery.Proofs.WalkVisits
import SearchQuery.Proofs.TrailReading
import SearchQuery.Proofs.Breadcrumbs
import SearchQuery.Proofs.WrappedQueries
import SearchQuery.Proofs.CatalogFindings
import SearchQuery.Proofs.MemberOrder
import SearchQuery.Proofs.MergedIndices
import SearchQuery.Proofs.DerivedFields
import SearchQuery.Proofs.LenientForms
import SearchQuery.Proofs.ConfigSteps
import SearchQuery.Proofs.ExactCounts
