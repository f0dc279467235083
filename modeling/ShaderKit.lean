import ShaderKit.Engine
import ShaderKit.Log.Timestamp
import ShaderKit.Workspace
import ShaderKit.Proofs.Dependencies
import ShaderKit.Proofs.Guarantee
import ShaderKit.Proofs.Loading
import ShaderKit.Proofs.AtomicReload
import ShaderKit.Proofs.Besides
import ShaderKit.Proofs.Forgetting
import ShaderKit.Proofs.HotReload
import ShaderKit.Proofs.Programs
import ShaderKit.Proofs.Alike
import ShaderKit.Proofs.Registering
import ShaderKit.Proofs.Buckets
import ShaderKit.Proofs.Identity
import ShaderKit.Proofs.Invariants
import ShaderKit.Proofs.Keys
import ShaderKit.Proofs.Pairing
import ShaderKit.Proofs.Unwinding
import ShaderKit.Proofs.Faithful
import ShaderKit.Proofs.Interference
import ShaderKit.Proofs.FileChange
import ShaderKit.Proofs.Watching
import ShaderKit.Proofs.Discarding
import ShaderKit.Proofs.Accounting
import ShaderKit.Proofs.Nesting
import ShaderKit.Proofs.Inclusion
import ShaderKit.Proofs.Cycles
import ShaderKit.Proofs.Recovery
import ShaderKit.Proofs.Comments
import ShaderKit.Proofs.EntryPoints
import ShaderKit.Proofs.Uncommented
import ShaderKit.Proofs.ActiveText
import ShaderKit.Proofs.Isolation
import ShaderKit.Proofs.Copies
import ShaderKit.Proofs.LineNumbers
import ShaderKit.Proofs.Rejoining
import ShaderKit.Proofs.Lifecycle
import ShaderKit.Proofs.Locality
import ShaderKit.Proofs.AnyOrder
import ShaderKit.Proofs.Reporting
import ShaderKit.Proofs.Closure
import ShaderKit.Proofs.Spelling
import ShaderKit.Proofs.Parting
import ShaderKit.Proofs.WrittenForms
import ShaderKit.Proofs.Relation
import ShaderKit.Proofs.Singleton
