/-
Malm.Engine.Error — the errors of the engine's preparations
(`EngineError`, `PreparedStoreIssue`), as far as the modelled functions
raise them.
-/
import Malm.Commit.Canonical

namespace Malm.Engine

open Store Commit

/-- `EngineError`; `record` and `state` are store errors that `invalid_record` renders. -/
inductive EngineError where
  | invalidRecord (detail : String)
  | record (error : PreparedRecordError)
  | state (error : StateRecordError)
  | unknownArtifact (artifactId : ArtifactId)
  | missingArtifact (digest : Digest)
  | unknownTargetAuthority (authority : DeploymentName)
  | unsafeTarget (authority : DeploymentName) (relativePath : Text) (detail : String)
  | targetIo (operation : String) (authority : DeploymentName) (relativePath : Text)
  | unrestorableLocalModification (authority : DeploymentName) (relativePath : Text)
  | unrestorableMissingTarget (authority : DeploymentName) (relativePath : Text)
  | missingManagedAncestor (authority : DeploymentName) (relativePath missing : Text)
  | canonical (issue : CanonicalObjectIssue)
  | storedEntry (detail : String)
  | commit (error : CommitError)
deriving DecidableEq, Repr

def asCommitError {α : Type} (result : Except CommitError α) : Except EngineError α :=
  result.mapError .commit

def asRecordError {α : Type} (result : Except PreparedRecordError α) : Except EngineError α :=
  result.mapError .record

def asStateError {α : Type} (result : Except StateRecordError α) : Except EngineError α :=
  result.mapError .state

end Malm.Engine
