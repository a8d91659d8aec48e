import ContainerLint.Check.Checker
import ContainerLint.ClassTable.Library
import ContainerLint.Declaration.Document
import ContainerLint.Settings.Load
import ContainerLint.Settings.Schema
import ContainerLint.Proofs.Graph.Reachability
import ContainerLint.Proofs.Graph.Turns
import ContainerLint.Proofs.Hierarchy.DeclaredSteps
import ContainerLint.Proofs.Declaration.Edits
import ContainerLint.Proofs.Relation.SubtypeOrder
import ContainerLint.Proofs.Declaration.Lawful
import ContainerLint.Proofs.Ty.SpellingOrder
import ContainerLint.Proofs.Hierarchy.IndexAgreement
import ContainerLint.Proofs.Hierarchy.IndexMembership
import ContainerLint.Proofs.Analysis.IndexedAnalysis
import ContainerLint.Proofs.Declaration.Frame
import ContainerLint.Proofs.Hierarchy.Ancestry
import ContainerLint.Proofs.Relation.DecisionSymmetry
import ContainerLint.Proofs.Analysis.FirstConclusive
import ContainerLint.Proofs.Analysis.RawReceivers
import ContainerLint.Proofs.Signature.Grammar
import ContainerLint.Proofs.Signature.Reader
import ContainerLint.Proofs.Signature.RoundTrip
import ContainerLint.Proofs.Declaration.Renaming
import ContainerLint.Proofs.Declaration.Consistency
import ContainerLint.Proofs.Declaration.BatchOrder
import ContainerLint.Proofs.Analysis.CatalogExtension
import ContainerLint.Proofs.Analysis.UniversalArguments
import ContainerLint.Proofs.Agreement.FreshClasses
import ContainerLint.Proofs.Agreement.InterfaceOrder
import ContainerLint.Proofs.Hierarchy.ClosureShape
import ContainerLint.Proofs.Hierarchy.MergedViews
import ContainerLint.Proofs.Declaration.Footprint
import ContainerLint.Proofs.Declaration.BatchSplit
import ContainerLint.Proofs.Relation.PolicyOrder
import ContainerLint.Proofs.Hierarchy.OpenNames
import ContainerLint.Proofs.Analysis.PlainScan
import ContainerLint.Proofs.Analysis.BoundedReceivers
import ContainerLint.Proofs.Hierarchy.SupertypePaths
import ContainerLint.Proofs.Text.ByteOrder
import ContainerLint.Proofs.Toml.DistinctKeys
import ContainerLint.Proofs.Settings.UnknownKeys
