import Concord.Catalog.Basic
import Concord.Catalog.Reader
import Concord.Command.Basic
import Concord.Command.Run
import Concord.Command.Words
import Concord.Derivation.Derived
import Concord.Derivation.Family
import Concord.Derivation.Resolution
import Concord.Derivation.Table
import Concord.Disk.Basic
import Concord.Disk.Tree
import Concord.Fix.Config
import Concord.Format.Option
import Concord.Format.Options
import Concord.Glob.Expansion
import Concord.Glob.Pattern
import Concord.Inspection.Rendering
import Concord.Inspection.Report
import Concord.Inspection.Target
import Concord.Json.Basic
import Concord.Json.Decode
import Concord.Json.Reader
import Concord.Json.Skip
import Concord.Json.Writer
import Concord.Lint.Access
import Concord.Lint.Config
import Concord.Lint.Document
import Concord.Lint.Override
import Concord.Lookup.Document
import Concord.Lookup.Failure
import Concord.Lookup.Nearby
import Concord.Main
import Concord.Map.Ordered
import Concord.Map.Sorted
import Concord.Number.Binary64
import Concord.Number.Layout
import Concord.Number.Shortest
import Concord.Path.Basic
import Concord.Path.Relative
import Concord.Pipeline.Engine
import Concord.Pipeline.Run
import Concord.Plan.Basic
import Concord.Plan.Order
import Concord.Plan.Request
import Concord.Rule.Entry
import Concord.Rule.Severity
import Concord.Settings.Basic
import Concord.Settings.Document
import Concord.Settings.Effective
import Concord.Toml.Document
import Concord.Toml.Scalar
import Concord.Toml.Value
import Concord.Yaml.Cursor
import Concord.Yaml.Node
import Concord.Yaml.Scalar
import Concord.Yaml.Token
import Concord.Yaml.Value
import Concord.Proofs.Map.Collect
import Concord.Proofs.Map.Entries
import Concord.Proofs.Map.Ordered
import Concord.Proofs.Map.Sorted
import Concord.Proofs.Map.Layers
import Concord.Proofs.Rule.Layering
import Concord.Proofs.Lint.Merge
import Concord.Proofs.Lint.Cascade
import Concord.Proofs.Lint.Override
import Concord.Proofs.Derivation.Resolution
import Concord.Proofs.Plan.Formatting
import Concord.Proofs.Pipeline.Passes
import Concord.Proofs.Path.Ancestors
import Concord.Proofs.Lookup.Files
import Concord.Proofs.Lookup.LintSearch
import Concord.Proofs.Fix.Pass
import Concord.Proofs.Derivation.Payload
import Concord.Proofs.Format.WellFormed
import Concord.Proofs.Derivation.WellFormed
import Concord.Proofs.Json.Decode
import Concord.Proofs.Lint.Document
import Concord.Proofs.Lint.Canonical
import Concord.Proofs.Derivation.Table
import Concord.Proofs.Command.Words
import Concord.Proofs.Command.Stages
import Concord.Proofs.Command.Chosen
import Concord.Proofs.Command.Agreement
import Concord.Proofs.Command.Failure
import Concord.Proofs.Lookup.WorkingDirectory
import Concord.Proofs.Lookup.FormatSearch
import Concord.Proofs.Path.Components
import Concord.Proofs.Lint.Location
import Concord.Proofs.Settings.Document
import Concord.Proofs.Settings.InEffect
import Concord.Proofs.Path.Place
import Concord.Proofs.Disk.Walk
import Concord.Proofs.Lookup.Rules
import Concord.Proofs.Lookup.Detours
import Concord.Proofs.Lookup.RelativeStart
import Concord.Proofs.Format.Layers
import Concord.Proofs.Derivation.LineLimit
import Concord.Proofs.Path.Order
import Concord.Proofs.Inspection.Printed
import Concord.Proofs.Inspection.Targets
import Concord.Proofs.Inspection.Reports
import Concord.Proofs.Lookup.Spelling
import Concord.Proofs.Inspection.Spelling
import Concord.Proofs.Path.Text
import Concord.Proofs.Path.Relative
import Concord.Proofs.Inspection.Names
