import DeclTree.Annotation
import DeclTree.Blueprint
import DeclTree.Error
import DeclTree.Facet
import DeclTree.Field
import DeclTree.Handle
import DeclTree.Identity
import DeclTree.Intent.Comparison
import DeclTree.Intent.Expectation
import DeclTree.Intent.Locality
import DeclTree.Intent.Mismatch
import DeclTree.Matching
import DeclTree.Node.Basic
import DeclTree.Node.Body
import DeclTree.Node.Copy
import DeclTree.Node.Create
import DeclTree.Node.Edit
import DeclTree.Node.Header
import DeclTree.Node.InPlace
import DeclTree.Node.Kind
import DeclTree.Node.Measure
import DeclTree.Node.Ownership
import DeclTree.Node.Parameters
import DeclTree.Node.Walk
import DeclTree.Number.Binary64
import DeclTree.Number.Shortest
import DeclTree.Payload
import DeclTree.Proofs.Acts.Basic
import DeclTree.Proofs.Acts.Building
import DeclTree.Proofs.Acts.Changes
import DeclTree.Proofs.Acts.Handling
import DeclTree.Proofs.Acts.InPlace
import DeclTree.Proofs.Acts.Reading
import DeclTree.Proofs.Acts.Refusals
import DeclTree.Proofs.Acts.Sites
import DeclTree.Proofs.Acts.Steps
import DeclTree.Proofs.Address
import DeclTree.Proofs.Bench
import DeclTree.Proofs.Body
import DeclTree.Proofs.Copy
import DeclTree.Proofs.Copy.Outcome
import DeclTree.Proofs.Delimited
import DeclTree.Proofs.HandleSource
import DeclTree.Proofs.Intent.Copy
import DeclTree.Proofs.Intent.Equivalence
import DeclTree.Proofs.Intent.Fields
import DeclTree.Proofs.Intent.Isomorphism
import DeclTree.Proofs.Intent.Laws
import DeclTree.Proofs.Intent.Layout
import DeclTree.Proofs.Intent.Lazy
import DeclTree.Proofs.Intent.Options
import DeclTree.Proofs.Intent.Pairing
import DeclTree.Proofs.Intent.Parametric
import DeclTree.Proofs.Intent.Payload
import DeclTree.Proofs.Intent.Places
import DeclTree.Proofs.Intent.Reading
import DeclTree.Proofs.Intent.Refinement
import DeclTree.Proofs.Intent.Replacement
import DeclTree.Proofs.Intent.Symmetry
import DeclTree.Proofs.Intent.TypeText
import DeclTree.Proofs.Intent.Verdicts
import DeclTree.Proofs.Matching
import DeclTree.Proofs.Matching.OneToOne
import DeclTree.Proofs.Number.Shortest
import DeclTree.Proofs.Number.Text
import DeclTree.Proofs.Ordinals.Detached
import DeclTree.Proofs.Ordinals.Numbered
import DeclTree.Proofs.Ordinals.Run
import DeclTree.Proofs.Ordinals.Unplaced
import DeclTree.Proofs.Ownership.Bench
import DeclTree.Proofs.Ownership.Building
import DeclTree.Proofs.Ownership.Exchange
import DeclTree.Proofs.Ownership.InPlace
import DeclTree.Proofs.Ownership.Insertion
import DeclTree.Proofs.Ownership.Ledger
import DeclTree.Proofs.Ownership.Move
import DeclTree.Proofs.Ownership.Run
import DeclTree.Proofs.Resolution.Binding
import DeclTree.Proofs.Resolution.Run
import DeclTree.Proofs.Resolution.Trace
import DeclTree.Proofs.Running
import DeclTree.Proofs.Shape
import DeclTree.Proofs.Symbol
import DeclTree.Proofs.Value
import DeclTree.Proofs.Value.Equality
import DeclTree.Proofs.Value.Text
import DeclTree.Proofs.Walk
import DeclTree.Report
import DeclTree.Resolver
import DeclTree.Symbol
import DeclTree.Table
import DeclTree.Value
import DeclTree.Workbench.Answer
import DeclTree.Workbench.Basic
import DeclTree.Workbench.Comparing
import DeclTree.Workbench.Lists
import DeclTree.Workbench.Nodes
import DeclTree.Workbench.Path
import DeclTree.Workbench.Resolving
import DeclTree.Workbench.Run
import DeclTree.Workbench.Slots
import DeclTree.Workbench.Stores
import DeclTree.Workbench.Summary
import DeclTree.World
