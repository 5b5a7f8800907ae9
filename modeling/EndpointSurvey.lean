import EndpointSurvey.Main
import EndpointSurvey.Number.Integer
import EndpointSurvey.Proofs.Binding.Holders
import EndpointSurvey.Proofs.Binding.Specification
import EndpointSurvey.Proofs.Cache.Bookkeeping
import EndpointSurvey.Proofs.Cache.Inclusion
import EndpointSurvey.Proofs.Cache.Interleaving
import EndpointSurvey.Proofs.Cache.Reuse
import EndpointSurvey.Proofs.Catalog.GenericArguments
import EndpointSurvey.Proofs.Catalog.Lineage
import EndpointSurvey.Proofs.Catalog.Meaning
import EndpointSurvey.Proofs.Catalog.Merging
import EndpointSurvey.Proofs.Catalog.Nullability
import EndpointSurvey.Proofs.Catalog.SettableProperties
import EndpointSurvey.Proofs.CommandLine.Breakdowns
import EndpointSurvey.Proofs.Declaration.Controllers
import EndpointSurvey.Proofs.Declaration.Joined
import EndpointSurvey.Proofs.Document.Layout
import EndpointSurvey.Proofs.Document.Literals
import EndpointSurvey.Proofs.Document.Seen
import EndpointSurvey.Proofs.Document.TrailingComments
import EndpointSurvey.Proofs.Document.Warnings
import EndpointSurvey.Proofs.Environment.Joints
import EndpointSurvey.Proofs.Environment.Outcome
import EndpointSurvey.Proofs.Failing
import EndpointSurvey.Proofs.Project.Counts
import EndpointSurvey.Proofs.Project.Faults
import EndpointSurvey.Proofs.Project.GivenCache
import EndpointSurvey.Proofs.Project.Places
import EndpointSurvey.Proofs.Rendered.AttributeCode
import EndpointSurvey.Proofs.Rendered.AttributeLists
import EndpointSurvey.Proofs.Rendered.ParameterLists
import EndpointSurvey.Proofs.Rendered.PropertyEntries
import EndpointSurvey.Proofs.Rendered.Recovery
import EndpointSurvey.Proofs.Rendered.Routes
import EndpointSurvey.Proofs.Rendered.TypeSpelling
import EndpointSurvey.Proofs.Rendered.TypeTrees
import EndpointSurvey.Proofs.Request.Address
import EndpointSurvey.Proofs.Request.Building
import EndpointSurvey.Proofs.Request.Effort
import EndpointSurvey.Proofs.Request.Failing
import EndpointSurvey.Proofs.Request.Flattening
import EndpointSurvey.Proofs.Request.Headers
import EndpointSurvey.Proofs.Request.Outline
import EndpointSurvey.Proofs.Request.Tokens
import EndpointSurvey.Proofs.Route.Composition
import EndpointSurvey.Proofs.Route.NormalForm
import EndpointSurvey.Proofs.Route.Placeholders
import EndpointSurvey.Proofs.Sample.NameWords
import EndpointSurvey.Proofs.Settings.Reading
import EndpointSurvey.Proofs.Source.Cuts
import EndpointSurvey.Proofs.Source.Quotation
import EndpointSurvey.Proofs.Source.RawLiteral
import EndpointSurvey.Proofs.Url.Decoding
