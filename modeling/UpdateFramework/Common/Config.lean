import UpdateFramework.Common.Constants
import UpdateFramework.Libc.Lines
import UpdateFramework.Libc.Stdio

/-!
# Common — configuration files

`config.c`: `KEY=VALUE` lines.  A line is what `fgets` stores in 1024 bytes, as a C string.  What is
printed to `stderr` is left out.
-/

namespace UpdateFramework

open Libc Process

/-- `cfg_t`: the entries in use. -/
abbrev Cfg := List (Bytes × Bytes)

/-- `trim_ascii` -/
def trimAscii (s : Bytes) : Bytes := strip s

/-- `cfg_set`; `none` where it returns `-1`. -/
def cfgSet (cfg : Cfg) (key value : Bytes) : Option Cfg :=
  if key ∈ cfg.map Prod.fst then none
  else if cfg.length ≥ configMaxEntries then none
  else some (cfg ++ [(snprintf maxKeyLen key, snprintf maxValueLen value)])

/-- A line in the loop of `cfg_load`; `none` where it returns `-1`. -/
def cfgLine (cfg : Cfg) (line : Bytes) : Option Cfg :=
  let s := trimAscii (cutLine (cstr line))
  if s = [] ∨ s.head? = some 35 then some cfg
  else if 61 ∉ s then none
  else
    let key := trimAscii (s.takeWhile (· ≠ 61))
    let value := trimAscii (s.dropWhile (· ≠ 61)).tail
    if key = [] ∨ key.length ≥ maxKeyLen ∨ value.length ≥ maxValueLen then none
    else cfgSet cfg key value

/-- `cfg_get` -/
def cfgGet (cfg : Cfg) (key fallback : Bytes) : Bytes :=
  ((cfg.find? fun entry => entry.1 = key).map Prod.snd).getD fallback

/-- `cfg_copy_str`, into `dstLen` bytes. -/
def cfgCopyStr (cfg : Cfg) (key fallback : Bytes) (dstLen : ℕ) : Bytes :=
  snprintf dstLen (cfgGet cfg key fallback)

/-! ### Loading -/

/-- What `cfg_load` calls, besides printing. -/
inductive ConfigOp where
  | file (o : FileOp Bytes)
  | ferror (fp : Handle)
  deriving DecidableEq

@[reducible] def ConfigOp.Res : ConfigOp → Type
  | .file o => FileOp.Res o
  | .ferror _ => Bool

@[reducible] def configInterface : Interface := ⟨ConfigOp, ConfigOp.Res⟩

abbrev onFile (o : FileOp Bytes) : Prog configInterface (FileOp.Res o) :=
  .call (ConfigOp.file o) .ret
abbrev ferror (fp : Handle) : Prog configInterface Bool := .call (ConfigOp.ferror fp) .ret

/-- A round of the loop of `cfg_load`. -/
def cfgRound (fp : Handle) (cfg : Cfg) : Prog configInterface (Cfg ⊕ Option Cfg) := do
  match ← onFile (.fgets fp 1024) with
  | none => .ret (.inr (some cfg))
  | some (line, _) =>
    match cfgLine cfg line with
    | none => .ret (.inr none)
    | some cfg => .ret (.inl cfg)

/-- `cfg_load`: the entries, unless it returns `-1`.  `bound` limits the number of lines. -/
def cfgLoad (bound : ℕ) (path : Bytes) : Prog configInterface (Option Cfg) := do
  match ← onFile (.fopen path .r) with
  | none => .ret none
  | some fp =>
    match ← Prog.iterate bound (cfgRound fp) [] with
    | none =>
      let _ ← onFile (.fclose fp)
      .ret none
    | some cfg =>
      let failed ← ferror fp
      let _ ← onFile (.fclose fp)
      .ret (if failed then none else some cfg)

end UpdateFramework
