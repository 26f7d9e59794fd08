import AccountSync.Adapter
import AccountSync.Change.Difference
import AccountSync.Children.Positions
import AccountSync.Children.Sorted
import AccountSync.Deployment.Endpoint
import AccountSync.Diagnostic
import AccountSync.Element.Catalog
import AccountSync.Element.Dump
import AccountSync.Element.Wire
import AccountSync.Filter.Standard
import AccountSync.Http.Rest
import AccountSync.Http.Script
import AccountSync.Http.Target
import AccountSync.Json.Reader
import AccountSync.Json.Writer
import AccountSync.Lookup.Basic
import AccountSync.Pattern.Reader
import AccountSync.Proofs.Adapter
import AccountSync.Proofs.Change.Difference
import AccountSync.Proofs.Change.Located
import AccountSync.Proofs.Children.Lists
import AccountSync.Proofs.Children.OrderInstances
import AccountSync.Proofs.Children.OrderRequests
import AccountSync.Proofs.Children.Routing
import AccountSync.Proofs.Children.Sorted
import AccountSync.Proofs.Deployment.Atomicity
import AccountSync.Proofs.Deployment.Filling
import AccountSync.Proofs.Deployment.RemovalsLast
import AccountSync.Proofs.Deployment.Reorders
import AccountSync.Proofs.Deployment.Schedule
import AccountSync.Proofs.Element.Catalog
import AccountSync.Proofs.ElementId.Built
import AccountSync.Proofs.Filter.Handlers
import AccountSync.Proofs.Filter.Isolation
import AccountSync.Proofs.Lookup.Brands
import AccountSync.Proofs.Lookup.Identifiers
import AccountSync.Proofs.Lookup.Locales
import AccountSync.Proofs.Lookup.Placeholders
import AccountSync.Proofs.Lookup.Resolution
import AccountSync.Proofs.Lookup.Tables
import AccountSync.Proofs.Lookup.Unlisted
import AccountSync.Proofs.Schema.Canonical
import AccountSync.Proofs.Schema.Conformance
import AccountSync.Proofs.Schema.Descent
import AccountSync.Proofs.Schema.Leniency
import AccountSync.Proofs.Schema.Pruning
import AccountSync.Proofs.Schema.Wrapped
import AccountSync.Proofs.Template.Extraction
import AccountSync.Proofs.Template.Restored
import AccountSync.Proofs.Template.Swaps
import AccountSync.Proofs.Users.Reversal
import AccountSync.Proofs.Validation.ExternalSource
import AccountSync.Proofs.Validation.Guards
import AccountSync.Proofs.Value.Cells
import AccountSync.Proofs.Value.Expressions
import AccountSync.Proofs.Value.Flatten
import AccountSync.Proofs.Value.Wire
import AccountSync.Schema.Walk
import AccountSync.Settings.Decode
import AccountSync.Settings.Encode
import AccountSync.Template.Extract
import AccountSync.Template.Mapping
import AccountSync.Users.Basic
import AccountSync.Value.Cell
import AccountSync.Value.Dump
import AccountSync.Value.Flatten
import AccountSync.Value.Wire
import AccountSync.Yaml.Reader
import AccountSync.Proofs.Element.Parents
import AccountSync.Proofs.ElementId.Nesting
import AccountSync.Proofs.Schema.Wire
import AccountSync.Proofs.Element.Wire
import AccountSync.Proofs.Schema.Termination
