import ApiContract.Assembly
import ApiContract.Capability
import ApiContract.Command.Arguments
import ApiContract.Command.Run
import ApiContract.Config.Basic
import ApiContract.Config.File
import ApiContract.Config.Format
import ApiContract.Config.Override
import ApiContract.Datum.Basic
import ApiContract.Datum.OfJson
import ApiContract.Datum.Record
import ApiContract.Decimal.Nearest
import ApiContract.Decimal.Scale
import ApiContract.Decimal.Shortest
import ApiContract.Document.Basic
import ApiContract.Document.Decode
import ApiContract.Document.Encode
import ApiContract.Endpoint.Basic
import ApiContract.Endpoint.Parameters
import ApiContract.Example.Fixtures
import ApiContract.Example.Projection
import ApiContract.Failure
import ApiContract.Fault
import ApiContract.Generation
import ApiContract.Handler.Analysis
import ApiContract.Handler.Basic
import ApiContract.Handler.Construction
import ApiContract.Handler.Evaluation
import ApiContract.Handler.Literal
import ApiContract.Handler.Parameters
import ApiContract.Handler.Peel
import ApiContract.Handler.Scan
import ApiContract.Json.Basic
import ApiContract.Json.Encoding
import ApiContract.Json.Printer
import ApiContract.Json.Reader
import ApiContract.Main
import ApiContract.Module.Locate
import ApiContract.Module.Path
import ApiContract.Module.Scope
import ApiContract.Name
import ApiContract.Project.FilePath
import ApiContract.Project.FileTree
import ApiContract.Project.Scan
import ApiContract.Proofs.AlikeContexts
import ApiContract.Proofs.Assembled
import ApiContract.Proofs.BoundChains
import ApiContract.Proofs.BoundedSamples
import ApiContract.Proofs.CapabilityNames
import ApiContract.Proofs.CarriedRoutes
import ApiContract.Proofs.Chains
import ApiContract.Proofs.ClosedDocument
import ApiContract.Proofs.CommandRuns
import ApiContract.Proofs.DeclaredNames
import ApiContract.Proofs.DeferredCode
import ApiContract.Proofs.DefinitionRuns
import ApiContract.Proofs.Definitions
import ApiContract.Proofs.DelegatedRouter
import ApiContract.Proofs.DocumentReadBack
import ApiContract.Proofs.Documentation
import ApiContract.Proofs.Envelopes
import ApiContract.Proofs.EvaluatedValues
import ApiContract.Proofs.ExampleTypes
import ApiContract.Proofs.ExchangedFiles
import ApiContract.Proofs.ExchangedFunctions
import ApiContract.Proofs.ExchangedRoutines
import ApiContract.Proofs.ExtractedRouter
import ApiContract.Proofs.Extraction
import ApiContract.Proofs.FieldAttributes
import ApiContract.Proofs.FieldSamples
import ApiContract.Proofs.FilePaths
import ApiContract.Proofs.FlatImports
import ApiContract.Proofs.Grouping
import ApiContract.Proofs.GuardedOperations
import ApiContract.Proofs.IgnoredRoutes
import ApiContract.Proofs.ImportedTypes
import ApiContract.Proofs.Imports
import ApiContract.Proofs.IndexedFunctions
import ApiContract.Proofs.InlinedRouters
import ApiContract.Proofs.IntegerLiterals
import ApiContract.Proofs.JsonLiterals
import ApiContract.Proofs.LastAssignment
import ApiContract.Proofs.LastRoute
import ApiContract.Proofs.Lexing
import ApiContract.Proofs.LiteralNotations
import ApiContract.Proofs.MethodBlocks
import ApiContract.Proofs.MissingSources
import ApiContract.Proofs.ModuleFiles
import ApiContract.Proofs.ModuleLookup
import ApiContract.Proofs.Names
import ApiContract.Proofs.NegatedIntegers
import ApiContract.Proofs.NestedRouters
import ApiContract.Proofs.NestedSamples
import ApiContract.Proofs.NestedUris
import ApiContract.Proofs.NormalUris
import ApiContract.Proofs.OrdinaryTypes
import ApiContract.Proofs.OverriddenOperations
import ApiContract.Proofs.PaginatedShapes
import ApiContract.Proofs.Progress
import ApiContract.Proofs.ProjectedFields
import ApiContract.Proofs.ReachedNames
import ApiContract.Proofs.ReachedRouters
import ApiContract.Proofs.Records
import ApiContract.Proofs.Reexports
import ApiContract.Proofs.RelativePaths
import ApiContract.Proofs.RepeatedAnalyses
import ApiContract.Proofs.Replacement
import ApiContract.Proofs.Report
import ApiContract.Proofs.RequestParameters
import ApiContract.Proofs.RespelledFunctions
import ApiContract.Proofs.RespelledValues
import ApiContract.Proofs.Respelling
import ApiContract.Proofs.ReturnLayers
import ApiContract.Proofs.ReturnSites
import ApiContract.Proofs.RouteOrder
import ApiContract.Proofs.RouterLayers
import ApiContract.Proofs.RuleEntries
import ApiContract.Proofs.RuleLayouts
import ApiContract.Proofs.ScannedFiles
import ApiContract.Proofs.Scopes
import ApiContract.Proofs.SettledDefinitions
import ApiContract.Proofs.ShapeInvariants
import ApiContract.Proofs.SharedDefinitions
import ApiContract.Proofs.Stripping
import ApiContract.Proofs.StructNames
import ApiContract.Proofs.TransformerModels
import ApiContract.Proofs.TransparentForms
import ApiContract.Proofs.UnusedOverrides
import ApiContract.Proofs.WrittenConfigurations
import ApiContract.Proofs.WrittenDocuments
import ApiContract.Proofs.WrittenFiles
import ApiContract.Proofs.WrittenSchemas
import ApiContract.Route.Argument
import ApiContract.Route.Basic
import ApiContract.Route.Chain
import ApiContract.Route.Manifest
import ApiContract.Route.ManifestFile
import ApiContract.Route.Routers
import ApiContract.Route.Uri
import ApiContract.Route.Verb
import ApiContract.Rules
import ApiContract.Schema.Basic
import ApiContract.Schema.Synthesis
import ApiContract.Shape
import ApiContract.Source.Doc
import ApiContract.Source.File
import ApiContract.Source.Grammar.Expression
import ApiContract.Source.Grammar.Goal
import ApiContract.Source.Grammar.Item
import ApiContract.Source.Grammar.Pattern
import ApiContract.Source.Grammar.Type
import ApiContract.Source.Lexer
import ApiContract.Source.Meta
import ApiContract.Source.Reading
import ApiContract.Source.Token
import ApiContract.Source.Traversal
import ApiContract.Source.Tree
import ApiContract.Status
import ApiContract.Struct.Basic
import ApiContract.Struct.Index
import ApiContract.Struct.Primitive
import ApiContract.Table
import ApiContract.Text.Blank
import ApiContract.Text.Identifier
import ApiContract.Text.Lowercase
import ApiContract.Text.Pieces
import ApiContract.Text.Shown
import ApiContract.Text.Uppercase
import ApiContract.Yaml.Character
import ApiContract.Yaml.Cursor
import ApiContract.Yaml.Lexeme
import ApiContract.Yaml.Plain
import ApiContract.Yaml.Printer
import ApiContract.Yaml.Reader
import ApiContract.Yaml.Scalar
import ApiContract.Yaml.Token
