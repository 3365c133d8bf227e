import CheckedConfig.Arguments
import CheckedConfig.Coercion.Directive
import CheckedConfig.Coercion.Reading
import CheckedConfig.CommandLine
import CheckedConfig.Failure
import CheckedConfig.Fields
import CheckedConfig.Files
import CheckedConfig.Format.Json
import CheckedConfig.Format.Json5
import CheckedConfig.Format.Sha256
import CheckedConfig.Format.Toml
import CheckedConfig.Format.Yaml
import CheckedConfig.Format.Yaml.Cursor
import CheckedConfig.Format.Yaml.Token
import CheckedConfig.Format.Yaml.Tree
import CheckedConfig.Main
import CheckedConfig.Notice
import CheckedConfig.Number.Decimal
import CheckedConfig.Number.Double
import CheckedConfig.Options
import CheckedConfig.Options.Layers
import CheckedConfig.Path
import CheckedConfig.Pattern.Reader
import CheckedConfig.Pattern.Regex
import CheckedConfig.Schema.Document
import CheckedConfig.Schema.Keyword
import CheckedConfig.Schema.Kind
import CheckedConfig.Schema.Node
import CheckedConfig.Schema.Normal
import CheckedConfig.Schema.Search
import CheckedConfig.Source.Checksum
import CheckedConfig.Source.Descriptor
import CheckedConfig.Source.Pathname
import CheckedConfig.Source.Plugin
import CheckedConfig.Store
import CheckedConfig.Store.Access
import CheckedConfig.Store.Load
import CheckedConfig.Substitution
import CheckedConfig.Text.Category
import CheckedConfig.Text.Character
import CheckedConfig.Validation.Collection
import CheckedConfig.Validation.Interceptor
import CheckedConfig.Validation.Location
import CheckedConfig.Validation.Violation
import CheckedConfig.Validation.Walk
import CheckedConfig.Value
import CheckedConfig.Proofs.Walk.Completed
import CheckedConfig.Proofs.Walk.Outcome
import CheckedConfig.Proofs.Walk.Conformance
import CheckedConfig.Proofs.Walk.Idempotence
import CheckedConfig.Proofs.Walk.Reported
import CheckedConfig.Proofs.Walk.Strictness
import CheckedConfig.Proofs.Walk.Descent
import CheckedConfig.Proofs.Search
import CheckedConfig.Proofs.Walk.Watched
import CheckedConfig.Proofs.Walk.Spine
import CheckedConfig.Proofs.Walk.Erasure
import CheckedConfig.Proofs.Path
import CheckedConfig.Proofs.Recording
import CheckedConfig.Proofs.Walk.Places
import CheckedConfig.Proofs.Walk.Rewritten
import CheckedConfig.Proofs.Access
import CheckedConfig.Proofs.Load
import CheckedConfig.Proofs.Session
import CheckedConfig.Proofs.Normalization
import CheckedConfig.Proofs.Coercion
import CheckedConfig.Proofs.Documents
import CheckedConfig.Proofs.Addresses
import CheckedConfig.Proofs.Walk.Kept
import CheckedConfig.Proofs.Walk.Addressed
import CheckedConfig.Proofs.Retry
import CheckedConfig.Proofs.Sameness
import CheckedConfig.Proofs.Walk.Branches
import CheckedConfig.Proofs.Walk.Twins
import CheckedConfig.Proofs.Walk.Reordered
import CheckedConfig.Proofs.Walk.Blamed
import CheckedConfig.Proofs.Walk.Calls
import CheckedConfig.Proofs.Walk.Substituted
import CheckedConfig.Proofs.Walk.Unnoticed
import CheckedConfig.Proofs.Routes
import CheckedConfig.Proofs.Walk.Retained
import CheckedConfig.Proofs.Nesting
import CheckedConfig.Proofs.Words
import CheckedConfig.Proofs.Arguments
import CheckedConfig.Proofs.Spellings
import CheckedConfig.Proofs.Slots
import CheckedConfig.Proofs.Substitution
import CheckedConfig.Proofs.Walk.Mended
import CheckedConfig.Proofs.Rounding
import CheckedConfig.Proofs.Inference
import CheckedConfig.Proofs.Sources
import CheckedConfig.Proofs.Walk.Listed
import CheckedConfig.Proofs.Integers
import CheckedConfig.Proofs.Walk.Compared
import CheckedConfig.Proofs.Walk.Located
import CheckedConfig.Proofs.Repeats
