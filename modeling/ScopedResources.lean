import ScopedResources.Main
import ScopedResources.Proofs.Acquisitions
import ScopedResources.Proofs.AllOrNothing
import ScopedResources.Proofs.Blocking
import ScopedResources.Proofs.Commuting
import ScopedResources.Proofs.Configuration
import ScopedResources.Proofs.Crossing
import ScopedResources.Proofs.Descriptors
import ScopedResources.Proofs.Duplicating
import ScopedResources.Proofs.Exactness
import ScopedResources.Proofs.FileLock
import ScopedResources.Proofs.Handles
import ScopedResources.Proofs.Isolation
import ScopedResources.Proofs.Lifetime
import ScopedResources.Proofs.Loading
import ScopedResources.Proofs.Names
import ScopedResources.Proofs.Payloads
import ScopedResources.Proofs.Piping
import ScopedResources.Proofs.PowerOfTwo
import ScopedResources.Proofs.Reports
import ScopedResources.Proofs.Reset
import ScopedResources.Proofs.Reuse
import ScopedResources.Proofs.Risks
import ScopedResources.Proofs.Survivors
import ScopedResources.Proofs.Transaction
import ScopedResources.Script.Play
