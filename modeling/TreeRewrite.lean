import TreeRewrite.Main
import TreeRewrite.Pattern.Summary
import TreeRewrite.Storage.FileSystem
import TreeRewrite.Proofs.Pattern.Hooks
import TreeRewrite.Proofs.Traversal.Events
import TreeRewrite.Proofs.Traversal.Observed
import TreeRewrite.Proofs.Traversal.Recorder
import TreeRewrite.Proofs.Traversal.Eager
import TreeRewrite.Proofs.Traversal.Counters
import TreeRewrite.Proofs.Traversal.Changes
import TreeRewrite.Proofs.Traversal.Sites
import TreeRewrite.Proofs.Traversal.Tour
import TreeRewrite.Proofs.Pattern.Paths
import TreeRewrite.Proofs.Traversal.Owners
import TreeRewrite.Proofs.Traversal.Gates
import TreeRewrite.Proofs.Traversal.Veils
import TreeRewrite.Proofs.Traversal.Lookups
import TreeRewrite.Proofs.Traversal.Forests
import TreeRewrite.Proofs.Traversal.Failures
import TreeRewrite.Proofs.Tree.Grafts
import TreeRewrite.Proofs.Traversal.Frames
import TreeRewrite.Proofs.Json.Canonical
import TreeRewrite.Proofs.Json.Arranged
import TreeRewrite.Proofs.Json.Tokens
import TreeRewrite.Proofs.Json.Printed
import TreeRewrite.Proofs.Json.Conveyed
import TreeRewrite.Proofs.Json.Refused
import TreeRewrite.Proofs.Json.Parsed
import TreeRewrite.Proofs.Tree.Records
import TreeRewrite.Proofs.Tree.RecordText
import TreeRewrite.Proofs.Tree.Documents
import TreeRewrite.Proofs.Tree.Refusals
import TreeRewrite.Proofs.Tree.Shapes
import TreeRewrite.Proofs.Tree.Readings
import TreeRewrite.Proofs.Tree.Outermost
import TreeRewrite.Proofs.Traversal.Targets
import TreeRewrite.Proofs.Recipe.Migration
import TreeRewrite.Proofs.Recipe.Services
import TreeRewrite.Proofs.Recipe.Catalog
import TreeRewrite.Proofs.Recipe.Repetition
import TreeRewrite.Proofs.Recipe.MockNames
import TreeRewrite.Proofs.Recipe.Declarations
import TreeRewrite.Proofs.Results
import TreeRewrite.Proofs.Tree.Bundles
import TreeRewrite.Proofs.Tree.BundleNames
import TreeRewrite.Proofs.Pipeline.Feeds
import TreeRewrite.Proofs.Pipeline.Unwrapping
import TreeRewrite.Proofs.Pattern.Clauses
import TreeRewrite.Proofs.Pattern.Keys
import TreeRewrite.Proofs.Pattern.Faults
import TreeRewrite.Proofs.Pattern.Resolution
import TreeRewrite.Proofs.Pattern.Spellings
import TreeRewrite.Proofs.Recipe.KindTables
import TreeRewrite.Proofs.Recipe.KnownKinds
import TreeRewrite.Proofs.Recipe.Runs
import TreeRewrite.Proofs.Recipe.Attributes
import TreeRewrite.Proofs.Storage.Paths
import TreeRewrite.Proofs.Storage.Locations
import TreeRewrite.Proofs.Storage.Directories
import TreeRewrite.Proofs.Storage.Stores
import TreeRewrite.Proofs.Storage.Neighbours
import TreeRewrite.Proofs.Run.OutputNames
import TreeRewrite.Proofs.Run.Deliveries
import TreeRewrite.Proofs.Run.Agreement
import TreeRewrite.Proofs.Run.Responses
import TreeRewrite.Proofs.Settings
import TreeRewrite.Proofs.Kind.Registration
