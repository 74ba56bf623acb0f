import HaxeBindings.Main
import HaxeBindings.Proofs.TypeExpr.RoundTrip
import HaxeBindings.Proofs.Catalog.Reference
import HaxeBindings.Proofs.Member.Grouping
import HaxeBindings.Proofs.Member.EnumerationOrder
import HaxeBindings.Proofs.Generation.Isolation
import HaxeBindings.Proofs.ArityIndex.Definitions
import HaxeBindings.Proofs.Mapping.SameArities
import HaxeBindings.Proofs.Generation.Independence
import HaxeBindings.Proofs.Text.Characters
import HaxeBindings.Proofs.Mapping.Shape
import HaxeBindings.Proofs.Mapping.Referral
import HaxeBindings.Proofs.Member.Keys
import HaxeBindings.Proofs.ArityIndex.Nesting
import HaxeBindings.Proofs.Files.Path
import HaxeBindings.Proofs.Files.Tree
import HaxeBindings.Proofs.Generation.OutputPath
import HaxeBindings.Proofs.Generation.Records
import HaxeBindings.Proofs.Generation.Writing
import HaxeBindings.Proofs.Catalog.Insertion
import HaxeBindings.Proofs.Catalog.Loading
import HaxeBindings.Proofs.Generation.Exposure
import HaxeBindings.Proofs.Mapping.Totality
import HaxeBindings.Proofs.Member.Mentioned
import HaxeBindings.Proofs.Generation.Parameters
import HaxeBindings.Proofs.Generation.Placement
import HaxeBindings.Proofs.Generation.Repetition
import HaxeBindings.Proofs.Generation.Interruption
import HaxeBindings.Proofs.Mapping.DefinedArity
import HaxeBindings.Proofs.Member.Identifiers
import HaxeBindings.Proofs.TypeExpr.Unbounded
import HaxeBindings.Proofs.Mapping.Composition
import HaxeBindings.Proofs.Mapping.TargetGrammar
import HaxeBindings.Proofs.Generation.PackageNames
import HaxeBindings.Proofs.TypeExpr.Upgraded
import HaxeBindings.Proofs.TypeExpr.Repair
import HaxeBindings.Proofs.Mapping.Instantiation
import HaxeBindings.Proofs.TypeExpr.Leaves
import HaxeBindings.Proofs.Member.Needs
import HaxeBindings.Proofs.Generation.Addition
import HaxeBindings.Proofs.Catalog.Acceptance
import HaxeBindings.Proofs.Catalog.Screening
import HaxeBindings.Proofs.Catalog.Limited
import HaxeBindings.Proofs.Member.ParameterNames
import HaxeBindings.Proofs.Schema.Matching
import HaxeBindings.Proofs.Catalog.Positions
import HaxeBindings.Proofs.Generation.Retention
import HaxeBindings.Proofs.Schema.Separators
import HaxeBindings.Proofs.Catalog.Selected
import HaxeBindings.Proofs.Generation.Separation
import HaxeBindings.Proofs.Generation.Layout
import HaxeBindings.Proofs.Generation.NativeName
