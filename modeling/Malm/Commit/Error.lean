/-
Malm.Commit.Error — `CommitError`.

A reason that the source formats from values (a digest, a path, a
namespace) keeps its fixed text here; errors that carry values as fields
carry them.
-/
import Malm.Store.Records

namespace Malm.Commit

open Store

/-- `CommitError`: the fail-closed errors of commit, recovery and prune. -/
inductive CommitError where
  | readOnlyStore
  | busy
  | invalidStore (reason : String)
  | missingPlan (planId : PreparedId)
  | planInUse (planId : PreparedId)
  | invalidPlan (reason : String)
  | approvalPlanMismatch
  | approvalFindingsMismatch
  | staleNamespaceHead (namespaceName : NamespaceName) (expected actual : Option Digest)
  | targetOwnershipConflict (requestingNamespace owningNamespace : NamespaceName)
      (requestingAuthority owningAuthority : DeploymentName) (requestedPath ownedPath : Text)
      (overlap : OwnershipOverlapKind)
  | unownedTargetMutation (namespaceName : NamespaceName) (authority : DeploymentName)
      (relativePath : Text)
  | missingArtifact (digest : Digest)
  | corruptArtifact (expected actual : Digest)
  | unknownTargetAuthority (authority : DeploymentName)
  | unsafeTarget (reason : String)
  | staleTarget (reason : String)
  | rollbackFailed (reason : String)
  | recoveryRequired
  | invalidJournal (reason : String)
  | ioFailure (operation : String)
deriving DecidableEq, Repr

end Malm.Commit
