import UpdateFramework.Common.Config
import UpdateFramework.Common.Sha256
import UpdateFramework.Common.Version
import UpdateFramework.Server.Conversation

/-!
# Server — the published manifest

`version_manager.c`: `vm_reload` reads the manifest file, measures and hashes the package, and
publishes the manifest under a lock; `vm_get_snapshot` copies the published one.
-/

namespace UpdateFramework.Server

open Libc Process

/-- `version_manifest_t`, whole. -/
structure VersionManifest extends Manifest where
  minSupported : Bytes
  releaseNotes : Bytes
  deriving DecidableEq

/-- `version_manager_t`: the paths. -/
structure VersionManager where
  manifestPath : Bytes
  packageDir : Bytes

/-- `hex64_ok` -/
def hex64Ok (s : Bytes) : Bool := s.length = sha256HexLen && (hexToBytes s 32).isSome

inductive VmOp where
  /-- The files of a reload. -/
  | reads (o : ConfigOp)
  | logMsg (level : LogLevel) (text : Bytes)
  /-- `vm->manifest = next`, under the lock. -/
  | publish (next : VersionManifest)
  /-- `*out = vm->manifest`, under the lock. -/
  | snapshot
  /-- Anything else a session calls. -/
  | session (o : ServerOp)
  deriving DecidableEq

@[reducible] def VmOp.Res : VmOp → Type
  | .reads o => ConfigOp.Res o
  | .snapshot => VersionManifest
  | .session o => ServerOp.Res o
  | .logMsg _ _ | .publish _ => Unit

@[reducible] def vmInterface : Interface := ⟨VmOp, VmOp.Res⟩

abbrev VmProg (α : Type) := Prog vmInterface α

/-- A program that works on files, in a reload. -/
def reading {α : Type} (p : Prog configInterface α) : VmProg α :=
  Prog.interp (fun o => Prog.perform (E := vmInterface) (.reads o)) p

/-- The same, for one that knows no `ferror`. -/
def readingFile {α : Type} (p : Prog (stdio Bytes) α) : VmProg α :=
  Prog.interp (fun o => Prog.perform (E := vmInterface) (.reads (.file o))) p

abbrev publish (next : VersionManifest) : VmProg Unit := .call (VmOp.publish next) .ret
abbrev vmLog (level : LogLevel) (text : Bytes) : VmProg Unit := .call (VmOp.logMsg level text) .ret

/-- A reload that fails with this message. -/
def reloadFailed (text : Bytes) : VmProg Bool := do
  vmLog .error text
  .ret false

/-- `vm_reload`: whether it returns `0`.  `bound` limits the lines and the blocks read. -/
def vmReload (bound : ℕ) (vm : VersionManager) : VmProg Bool := do
  match ← reading (cfgLoad bound vm.manifestPath) with
  | none => reloadFailed (ascii "MANIFEST_RELOAD failed path=" ++ vm.manifestPath)
  | some cfg =>
    let latestVersion := cfgCopyStr cfg (ascii "LATEST_VERSION") [] maxVersionStr
    let packageFile := cfgCopyStr cfg (ascii "PACKAGE_FILE") [] maxPathLen
    let minSupported := cfgCopyStr cfg (ascii "MIN_SUPPORTED") (ascii "0.0.0") maxVersionStr
    let releaseNotes := cfgCopyStr cfg (ascii "RELEASE_NOTES") [] maxValueLen
    if ¬ verIsValid latestVersion ∨ ¬ verIsValid minSupported ∨ packageFile = [] then
      reloadFailed (ascii "MANIFEST_RELOAD invalid version/package fields")
    else
      let missing := ascii "MANIFEST_RELOAD package missing file=" ++ packageFile
      match pkgResolvePath vm.packageDir packageFile (maxPathLen * 2) with
      | none => reloadFailed missing
      | some packagePath =>
        match ← readingFile (stat packagePath) with
        | none => reloadFailed missing
        | some packageSize =>
          match ← readingFile (sha256FileHex bound packagePath) with
          | none => reloadFailed (ascii "MANIFEST_RELOAD checksum failed file=" ++ packageFile)
          | some computed =>
            let configured := cfgGet cfg (ascii "CHECKSUM_SHA256") []
            if configured ≠ [] ∧ (¬ hex64Ok configured ∨ ¬ strcaseeq configured computed) then
              reloadFailed (ascii "MANIFEST_RELOAD checksum mismatch file=" ++ packageFile ++
                ascii " configured=" ++ configured ++ ascii " computed=" ++ computed)
            else
              let next : VersionManifest :=
                { latestVersion, packageFile, packageSize, minSupported, releaseNotes
                  checksumSha256 := snprintf sha256HexBuf computed }
              publish next
              vmLog .info (ascii "MANIFEST_RELOAD ok latest=" ++ latestVersion ++
                ascii " package=" ++ packageFile ++ ascii " size=" ++ decimal packageSize)
              .ret true

/-- The paths `vm_init` stores. -/
def vmPaths (manifestPath packageDir : Bytes) : VersionManager :=
  ⟨snprintf maxPathLen manifestPath, snprintf maxPathLen packageDir⟩

/-- `vm_init` -/
def vmInit (bound : ℕ) (manifestPath packageDir : Bytes) : VmProg Bool :=
  vmReload bound (vmPaths manifestPath packageDir)

/-- How a session's operations are carried out; `vm_get_snapshot` does not fail. -/
def onServer : (o : ServerOp) → VmProg (ServerOp.Res o)
  | .vmGetSnapshot => .call .snapshot fun m => .ret (some m.toManifest)
  | o => .call (.session o) .ret

/-- A session, beside reloads. -/
def session (cfg : ServerConfig) (clientInfo : Bytes) : VmProg Bool :=
  Prog.interp onServer (handleClientSession cfg clientInfo)

end UpdateFramework.Server
