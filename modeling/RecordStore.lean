import RecordStore.Backend.Memory
import RecordStore.Backend.Recorder
import RecordStore.Json.Extended
import RecordStore.LogSettings
import RecordStore.Proofs.Query.Reading
import RecordStore.Store.Description
import RecordStore.Store.Request
import RecordStore.Proofs.Query.Grammar
import RecordStore.Proofs.Selection.Restriction
import RecordStore.Proofs.Selection.Pushdown
import RecordStore.Proofs.Patch.Frame
import RecordStore.Proofs.Store.Key
import RecordStore.Proofs.Store.KeyMap
import RecordStore.Proofs.Store.Ledger
import RecordStore.Proofs.Store.Simulation
import RecordStore.Proofs.Patch.Sparse
import RecordStore.Proofs.Patch.Overlay
import RecordStore.Proofs.Number.Rounding
import RecordStore.Proofs.Value.Comparison
import RecordStore.Proofs.Store.Addressing
import RecordStore.Proofs.Patch.Settled
import RecordStore.Proofs.Store.Writes
import RecordStore.Proofs.Store.Persistence
import RecordStore.Proofs.Sort.Order
import RecordStore.Proofs.Sort.Insertion
import RecordStore.Proofs.Store.Search
import RecordStore.Proofs.Query.Negation
import RecordStore.Proofs.Store.Retention
import RecordStore.Proofs.Patch.Stripped
import RecordStore.Proofs.Store.Resaving
import RecordStore.Proofs.Store.Renaming
import RecordStore.Proofs.Query.Evaluation
import RecordStore.Proofs.Query.Placement
import RecordStore.Proofs.Config.Aliases
import RecordStore.Proofs.Value.Sameness
import RecordStore.Proofs.Query.Ranges
import RecordStore.Proofs.Query.Softening
import RecordStore.Proofs.Query.Absence
import RecordStore.Proofs.Query.EqualRecords
import RecordStore.Proofs.Query.Growth
import RecordStore.Proofs.Query.Order
import RecordStore.Proofs.Query.Leaves
import RecordStore.Proofs.Query.Offenders
import RecordStore.Proofs.Query.Rendering
import RecordStore.Proofs.Patch.Idempotence
import RecordStore.Proofs.Patch.Changes
import RecordStore.Proofs.Patch.Permuted
import RecordStore.Proofs.Selection.Projected
import RecordStore.Proofs.Selection.Union
import RecordStore.Proofs.Selection.Flattened
import RecordStore.Proofs.Selection.Listed
import RecordStore.Proofs.Selection.Widening
import RecordStore.Proofs.Store.AuditTrail
import RecordStore.Proofs.Config.Overrides
import RecordStore.Proofs.Value.Places
