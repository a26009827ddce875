import RecordSchema.Catalog.Chain
import RecordSchema.Host.Declaration
import RecordSchema.Main
import RecordSchema.Proofs.Schema.Index
import RecordSchema.Proofs.Schema.History
import RecordSchema.Proofs.Schema.Annotation
import RecordSchema.Proofs.Schema.Traversal
import RecordSchema.Proofs.Reflection.Outcome
import RecordSchema.Proofs.Reflection.Effect
import RecordSchema.Proofs.Reflection.Ancestry
import RecordSchema.Proofs.Reflection.Body
import RecordSchema.Proofs.Reflection.Derivation
import RecordSchema.Proofs.Reflection.Termination
import RecordSchema.Proofs.Reflection.Annotation
import RecordSchema.Proofs.Reflection.Independence
import RecordSchema.Proofs.Reflection.Links
import RecordSchema.Proofs.Reflection.Reach
import RecordSchema.Proofs.Reflection.Flattening
import RecordSchema.Proofs.Reflection.Cycle
import RecordSchema.Proofs.Reflection.Fault
import RecordSchema.Proofs.Catalog.Validation
import RecordSchema.Proofs.Catalog.Content
import RecordSchema.Proofs.Catalog.WellFormed
import RecordSchema.Proofs.Catalog.Roundtrip
import RecordSchema.Proofs.Generation.Outcome
import RecordSchema.Proofs.Generation.Coverage
import RecordSchema.Proofs.Generation.Stages
import RecordSchema.Proofs.Generation.Structs
import RecordSchema.Proofs.Generation.Paths
import RecordSchema.Proofs.Generation.Documentation
import RecordSchema.Proofs.Generation.Exclusion
import RecordSchema.Proofs.Generation.Locality
import RecordSchema.Proofs.Generation.Addressing
import RecordSchema.Proofs.Generation.Description
import RecordSchema.Proofs.Reflection.Expansion
import RecordSchema.Proofs.Docs.Registry
import RecordSchema.Proofs.Generation.Overlay
import RecordSchema.Proofs.Text.SnakeCase
import RecordSchema.Proofs.Reflection.Detection
import RecordSchema.Proofs.Reflection.Chain
import RecordSchema.Proofs.Generation.AttributePath
import RecordSchema.Proofs.Catalog.AttributeOrder
import RecordSchema.Proofs.Catalog.Respelling
