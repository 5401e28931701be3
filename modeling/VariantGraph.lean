import VariantGraph.Main
import VariantGraph.ModuleType.Document
import VariantGraph.Stage.Document
import VariantGraph.Proofs.Graph.Access
import VariantGraph.Proofs.Graph.Consistent
import VariantGraph.Proofs.Graph.Reachable
import VariantGraph.Proofs.Digraph.Cycles
import VariantGraph.Proofs.Graph.Waves
import VariantGraph.Proofs.Stage.Faces
import VariantGraph.Proofs.Defaults
import VariantGraph.Proofs.Defaults.Propagation
import VariantGraph.Proofs.Graph.Missing
import VariantGraph.Proofs.Namespace.Registry
import VariantGraph.Proofs.Package.Record
import VariantGraph.Proofs.Property.Populate
import VariantGraph.Proofs.Property.Select
import VariantGraph.Proofs.Stage.Agreement
import VariantGraph.Proofs.Stage.Ancestry
import VariantGraph.Proofs.Stage.Search
import VariantGraph.Proofs.Stage.Expansion
import VariantGraph.Proofs.Workspace.Concrete
import VariantGraph.Proofs.Workspace.Edges
import VariantGraph.Proofs.Workspace.Expansion
import VariantGraph.Proofs.Workspace.Identity
import VariantGraph.Proofs.Workspace.Missing
import VariantGraph.Proofs.Stage.Confluence
import VariantGraph.Proofs.Stage.Traversal
import VariantGraph.Proofs.Workspace.Conformity
import VariantGraph.Proofs.Workspace.Reordering
import VariantGraph.Proofs.Property.Closure
import VariantGraph.Proofs.Stage.Contributions
import VariantGraph.Proofs.Workspace.Correspondence
import VariantGraph.Proofs.Lookup.Workspace
import VariantGraph.Proofs.Graph.Levelling
import VariantGraph.Proofs.Digraph.Components
import VariantGraph.Proofs.Workspace.Acyclic
import VariantGraph.Proofs.Property.Conflict
import VariantGraph.Proofs.Property.Grammar
import VariantGraph.Proofs.Stage.NamedBranches
import VariantGraph.Proofs.Namespace.Resolution
import VariantGraph.Proofs.Text
import VariantGraph.Proofs.PackagePath
import VariantGraph.Proofs.Namespace.Visibility
import VariantGraph.Proofs.Workspace.Referable
import VariantGraph.Proofs.Workspace.Independence
import VariantGraph.Proofs.Delegation
import VariantGraph.Proofs.Property.Path
import VariantGraph.Proofs.Resolved
import VariantGraph.Proofs.Workspace.Labels
