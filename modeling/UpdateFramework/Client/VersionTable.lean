import UpdateFramework.Client.Context
import UpdateFramework.Common.Auth
import UpdateFramework.Common.Version
import UpdateFramework.Libc.Stdio

/-!
# Client — the version table

The table of `downloader.c` that holds every client's installed version: its rows, and the two
functions that read and rewrite it under its lock.  A line is what `fgets` stores in 256 bytes,
as a C string.
-/

namespace UpdateFramework

open Libc Process

/-! ### Rows -/

/-- The two halves of a row, before they are trimmed: around the first `=`, or around the first
blanks. -/
def splitRow (tmp : Bytes) : Option (Bytes × Bytes) :=
  if 61 ∈ tmp then some (tmp.takeWhile (· ≠ 61), (tmp.dropWhile (· ≠ 61)).tail)
  else
    match tmp.dropWhile fun b => !isspace b with
    | [] => none
    | _ :: p => some (tmp.takeWhile fun b => !isspace b, p.dropWhile isspace)

/-- `parse_version_row`: the id and the version of a row. -/
def parseVersionRow (line : Bytes) : Option (Bytes × Bytes) :=
  let tmp := trimText (snprintf 256 line)
  if tmp = [] ∨ tmp.head? = some 35 then none
  else
    match splitRow tmp with
    | none => none
    | some (left, right) =>
      let id := trimText left
      let version := trimText right
      if id.length ≥ maxIdLen ∨ version.length ≥ maxVersionStr then none
      else if trimText id ≠ [] ∧ verIsValid (trimText version) then
        some (trimText id, trimText version)
      else none

/-- `version_row_ignorable` -/
def versionRowIgnorable (line : Bytes) : Bool :=
  let tmp := trimText (snprintf 256 line)
  tmp = [] ∨ tmp.head? = some 35

/-- `remember_version_id`: the ids seen so far, with `id`. -/
def rememberVersionId (seen : List Bytes) (id : Bytes) : Option (List Bytes) :=
  if id = [] then none
  else if id ∈ seen then none
  else if seen.length ≥ 512 then none
  else some (seen ++ [snprintf maxIdLen id])

/-- A line of the table: ignored, or a row. -/
inductive TableLine where
  | note
  | row (id version : Bytes)
  deriving DecidableEq

/-- What both functions make of a line before they use it, with the ids seen after it; `none`
where they return `-1`. -/
def acceptLine (seen : List Bytes) (line : Bytes) (eof : Bool) :
    Option (TableLine × List Bytes) :=
  if 10 ∉ line ∧ eof = false then none
  else if versionRowIgnorable line then some (.note, seen)
  else do
    let (id, version) ← parseVersionRow line
    let seen ← rememberVersionId seen id
    some (.row id version, seen)

/-! ### Reading -/

/-- A round of the loop of `getCurrentVersion`: the ids seen and the version found so far, or the
result. -/
def versionRound (cfg : ClientConfig) (fp : Handle) (st : List Bytes × Option Bytes) :
    Prog (stdio Path) ((List Bytes × Option Bytes) ⊕ Option Bytes) := do
  match ← fgetsText fp 256 with
  | none => .ret (.inr (some (st.2.getD (ascii "0.0.0"))))
  | some (line, eof) =>
    match acceptLine st.1 line eof with
    | none => .ret (.inr none)
    | some (.note, seen) => .ret (.inl (seen, st.2))
    | some (.row id version, seen) =>
      .ret (.inl (seen, if id = cfg.clientId then some (snprintf maxVersionStr version) else st.2))

/-- `getCurrentVersion`: the version, or `none` for `-1`.  `bound` limits the number of lines. -/
def getCurrentVersion (bound : ℕ) (cfg : ClientConfig) : Prog (stdio Path) (Option Bytes) :=
  if cfg.currentVersion ≠ [] then
    let out := snprintf maxVersionStr cfg.currentVersion
    .ret (if verIsValid out then some out else none)
  else do
    match ← lockFile .tableLock with
    | none => .ret (some (ascii "0.0.0"))
    | some lockFd =>
      match ← fopen .table .r with
      | none =>
        unlockFile lockFd
        .ret (some (ascii "0.0.0"))
      | some fp =>
        let r ← Prog.iterate bound (versionRound cfg fp) ([], none)
        let _ ← fclose fp
        unlockFile lockFd
        .ret r

/-! ### Writing -/

/-- The row of the client itself. -/
def ownRow (cfg : ClientConfig) (version : Bytes) : Bytes :=
  snprintf 256 (cfg.clientId ++ ascii "=" ++ version ++ ascii "\n")

/-- `fputs` for each line, up to the first that fails. -/
def putLines (fp : Handle) : List Bytes → Prog (stdio Path) Bool
  | [] => .ret true
  | line :: lines => do
    if ← fputs line fp then putLines fp lines else .ret false

/-- The lines read, the ids seen in them, and whether the client's row was among them. -/
structure TableRead where
  lines : List Bytes
  seen : List Bytes
  updated : Bool

/-- A round of the reading loop of `write_version_file`; `none` where it returns `-1`. -/
def tableRound (cfg : ClientConfig) (version : Bytes) (fp : Handle) (t : TableRead) :
    Prog (stdio Path) (TableRead ⊕ Option TableRead) := do
  if t.lines.length ≥ 512 then .ret (.inr (some t))
  else
    match ← fgetsText fp 256 with
    | none => .ret (.inr (some t))
    | some (line, eof) =>
      match acceptLine t.seen line eof with
      | none => .ret (.inr none)
      | some (.note, seen) => .ret (.inl ⟨t.lines ++ [line], seen, t.updated⟩)
      | some (.row id _, seen) =>
        if id = cfg.clientId then .ret (.inl ⟨t.lines ++ [ownRow cfg version], seen, true⟩)
        else .ret (.inl ⟨t.lines ++ [line], seen, t.updated⟩)

/-- The reading half of `write_version_file`: at most 512 lines, with the client's row replaced. -/
def readTable (cfg : ClientConfig) (version : Bytes) : Prog (stdio Path) (Option TableRead) := do
  match ← fopen .table .r with
  | none => .ret (some ⟨[], [], false⟩)
  | some fp =>
    let t ← Prog.iterate 513 (tableRound cfg version fp) ⟨[], [], false⟩
    let _ ← fclose fp
    .ret t

/-- The writing half of `write_version_file`: the temporary file, and its rename. -/
def replaceTable (lines : List Bytes) : Prog (stdio Path) Bool := do
  match ← fopen .tableTmp .w with
  | none => .ret false
  | some fp =>
    let rc ← putLines fp lines
    let rc ← if rc then do (if ← fflush fp then fsync fp else .ret false) else .ret false
    let closed ← fclose fp
    let rc ← if rc && closed then rename .tableTmp .table else .ret false
    if rc then .ret true
    else
      let _ ← unlink .tableTmp
      .ret false

/-- `write_version_file`: whether it returns `0`. -/
def writeVersionFile (cfg : ClientConfig) (version : Bytes) : Prog (stdio Path) Bool :=
  if cfg.clientVersionFile = [] ∨ cfg.clientId = [] then .ret false
  else do
    match ← lockFile .tableLock with
    | none => .ret false
    | some lockFd =>
      let rc ← do
        match ← readTable cfg version with
        | none => .ret false
        | some t =>
          if t.updated then replaceTable t.lines
          else if t.lines.length ≥ 512 then .ret false
          else replaceTable (t.lines ++ [ownRow cfg version])
      unlockFile lockFd
      .ret rc

end UpdateFramework
