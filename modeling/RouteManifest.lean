import RouteManifest.Main
import RouteManifest.Proofs.Table
import RouteManifest.Proofs.Registry
import RouteManifest.Proofs.Resolution.Runs
import RouteManifest.Proofs.Schema.References
import RouteManifest.Proofs.Resolution.Combining
import RouteManifest.Proofs.Resolution.Closed
import RouteManifest.Proofs.Binding.Request
import RouteManifest.Proofs.Generation
import RouteManifest.Proofs.OpenApi
import RouteManifest.Proofs.Resolution.Evaluation
import RouteManifest.Proofs.Location
import RouteManifest.Proofs.Catalog
import RouteManifest.Proofs.Shape
import RouteManifest.Proofs.Resolution.Reordered
import RouteManifest.Proofs.OrderIndependence
import RouteManifest.Proofs.Json.Compact
import RouteManifest.Proofs.Meaning.Basic
import RouteManifest.Proofs.Meaning.Building
import RouteManifest.Proofs.Meaning.Compiled
import RouteManifest.Proofs.Meaning.Fine
import RouteManifest.Proofs.Meaning.Keyed
import RouteManifest.Proofs.Meaning.Preservation
import RouteManifest.Proofs.Schema.Equivalence
import RouteManifest.Proofs.Attempts
import RouteManifest.Proofs.Resolution.Corruption
import RouteManifest.Proofs.Resolution.Failure
import RouteManifest.Proofs.Resolution.Moments
import RouteManifest.Proofs.Resolution.Sharing
import RouteManifest.Proofs.Resolution.InPlace
import RouteManifest.Proofs.Resolution.Stability
import RouteManifest.Proofs.Resolution.Discovery
import RouteManifest.Proofs.Resolution.Repeated
import RouteManifest.Proofs.Binding.Leaves
import RouteManifest.Proofs.Binding.Steps
import RouteManifest.Proofs.Binding.Chains
import RouteManifest.Proofs.Binding.Outputs
import RouteManifest.Proofs.PathParameters
import RouteManifest.Proofs.Address
import RouteManifest.Proofs.Operations
import RouteManifest.Proofs.Meaning.Aliases
import RouteManifest.Proofs.Meaning.Shapes
import RouteManifest.Proofs.Meaning.Merging
import RouteManifest.Proofs.Meaning.Discriminators
import RouteManifest.Proofs.Resolution.Beside
import RouteManifest.Proofs.Meaning.Names
import RouteManifest.Proofs.Binding.Aliases
import RouteManifest.Proofs.Targets
import RouteManifest.Proofs.ControllerNames
import RouteManifest.Proofs.RequiredProperties
import RouteManifest.Proofs.Meaning.Registered
import RouteManifest.Proofs.Meaning.TaggedEnums
import RouteManifest.Proofs.Interface.NameRules
import RouteManifest.Proofs.Source.Reading
import RouteManifest.Proofs.Interface.Entries
import RouteManifest.Proofs.Source.Places
import RouteManifest.Proofs.Interface.RawIdentifiers
import RouteManifest.Proofs.Meaning.Structs
import RouteManifest.Proofs.Schema.Places
import RouteManifest.Proofs.Json.Reading
import RouteManifest.Proofs.Schema.Reading
import RouteManifest.Proofs.Files.Tree
import RouteManifest.Proofs.Files.Computation
import RouteManifest.Proofs.CommandLine.Run
