/-
Malm.Engine.Operation — the requested target operations
(`PrepareOperationV1` and `PrepareTargetStateV1` of `deployment_api.rs`).

The constructors of the source check the path and the mode; `PrepareOperation.checked` is
that check on an operation.
-/
import Malm.Engine.Error
import Malm.Target.System

namespace Malm.Engine

open Store Commit Target Checks

/-! ## 1. Asserted states -/

inductive PrepareTargetState where
  | file (digest : Digest) (byteLen : Nat) (mode : BitVec 32)
  | directory (mode : BitVec 32)
  | symlink (object : Digest)
  | tree (tree : Digest) (archiveProvenance : Option ArchiveProvenance)
deriving DecidableEq, Repr

def validateFileOperationMode (mode : BitVec 32) : Except PreparedRecordError Unit := do
  reject (mode &&& ~~~0o777#32 ≠ 0)
    (.invalidField "operation mode" "must contain only permission bits")
  reject (mode &&& 0o400#32 = 0)
    (.invalidField "file operation mode"
      "must remain owner-readable for verification and recovery")

def validateDirectoryOperationMode (mode : BitVec 32) : Except PreparedRecordError Unit := do
  reject (mode &&& ~~~0o777#32 ≠ 0)
    (.invalidField "operation mode" "must contain only permission bits")
  reject (mode &&& 0o500#32 ≠ 0o500#32)
    (.invalidField "directory operation mode"
      "must remain owner-readable and owner-searchable for recovery")

def targetStateRecord : PrepareTargetState → Except EngineError StateTargetState
  | .file digest byteLen mode => do
    asStateError (validateStateFile ⟨digest, byteLen, mode⟩)
    return .file (some ⟨digest, byteLen, mode⟩)
  | .directory mode => do
    asStateError (validateStateDirectory ⟨mode⟩)
    return .directory (some ⟨mode⟩)
  | .symlink object => .ok (.symlink (some ⟨object⟩))
  | .tree tree archiveProvenance => do
    whenSome archiveProvenance fun provenance =>
      asRecordError (validateLabel "archive decoder" provenance.decoder)
    return .tree (some ⟨tree, archiveProvenance⟩)

def targetStateView : StateTargetState → Except EngineError PrepareTargetState
  | .file (some file) => do
    asRecordError (validateFileOperationMode file.mode)
    return .file file.digest file.byteLen file.mode
  | .directory (some directory) => do
    asRecordError (validateDirectoryOperationMode directory.mode)
    return .directory directory.mode
  | .symlink (some symlink) => .ok (.symlink symlink.object)
  | .tree (some tree) => .ok (.tree tree.tree tree.archiveProvenance)
  | _ => .error (.invalidRecord "an exact assertion cannot project absent desired state")

/-! ## 2. Operations -/

inductive PrepareOperation where
  | ensureDirectory (authority : DeploymentName) (relativePath : Text) (mode : BitVec 32)
      (replaceExisting : Bool)
  | placeFile (authority : DeploymentName) (relativePath : Text) (artifactId : ArtifactId)
      (mode : BitVec 32) (replaceExisting : Bool)
  | placeSymlink (authority : DeploymentName) (relativePath : Text) (object : Digest)
      (replaceExisting : Bool)
  | placeTree (authority : DeploymentName) (relativePath : Text) (tree : Digest)
      (archiveProvenance : Option ArchiveProvenance) (replaceExisting : Bool)
  | removeLeaf (authority : DeploymentName) (relativePath : Text)
  | assertAbsent (authority : DeploymentName) (relativePath : Text)
  | assertExact (authority : DeploymentName) (relativePath : Text) (state : PrepareTargetState)
deriving DecidableEq, Repr

namespace PrepareOperation

def key : PrepareOperation → TargetKey
  | ensureDirectory authority relativePath _ _ => (authority, relativePath)
  | placeFile authority relativePath _ _ _ => (authority, relativePath)
  | placeSymlink authority relativePath _ _ => (authority, relativePath)
  | placeTree authority relativePath _ _ _ => (authority, relativePath)
  | removeLeaf authority relativePath => (authority, relativePath)
  | assertAbsent authority relativePath => (authority, relativePath)
  | assertExact authority relativePath _ => (authority, relativePath)

def replacesExisting : PrepareOperation → Bool
  | ensureDirectory _ _ _ replaces => replaces
  | placeFile _ _ _ _ replaces => replaces
  | placeSymlink _ _ _ replaces => replaces
  | placeTree _ _ _ _ replaces => replaces
  | _ => false

def declaresAbsence : PrepareOperation → Bool
  | removeLeaf _ _ => true
  | assertAbsent _ _ => true
  | _ => false

def isRemoval : PrepareOperation → Bool
  | removeLeaf _ _ => true
  | _ => false

def validateMode : PrepareOperation → Except PreparedRecordError Unit
  | ensureDirectory _ _ mode _ => validateDirectoryOperationMode mode
  | placeFile _ _ _ mode _ => validateFileOperationMode mode
  | _ => .ok ()

def checked (operation : PrepareOperation) : Except EngineError PrepareOperation := do
  asRecordError operation.validateMode
  asRecordError (validateRelativePath operation.key.2)
  return operation

end PrepareOperation

end Malm.Engine
