import UpdateFramework.Client.FileRules

/-!
# Client — nothing is installed unverified

Whatever the server sends and whatever fails, an attempt changes an installed file only by renaming
a partial download whose hash is the one the attempt was told, and the version table only after
that (`receiveUpdate_installs_verified`).  This holds from every state in which no stream has bytes
pending, and every attempt ends in such a state.
-/

namespace UpdateFramework.Client

open Libc Process FileSystem

/-- The calls of an attempt so far, with their answers. -/
abbrev ClientHistory := List (Call clientInterface)

/-- The rename of the partial download of `v`. -/
abbrev installs (v : Bytes) : Call clientInterface :=
  ⟨.file (.rename (.part v) (.final v)), true⟩

/-- In this attempt the partial download of the announced version `v` has been installed. -/
def Installed (info : Bytes) (tr : ClientHistory) (v : Bytes) : Prop :=
  kvGet info (ascii "ver") maxVersionStr = some v ∧ installs v ∈ tr

/-- `content` is what the attempt was told to expect of the version `v`. -/
def Announced (info v content : Bytes) : Prop :=
  kvGet info (ascii "ver") maxVersionStr = some v ∧ verIsValid v = true ∧
    ∃ sha, kvGet info (ascii "sha256") sha256HexBuf = some sha ∧
      strcaseeq (sha256BufferHex content) sha = true

section Rules

variable {alone : Prop} {α β : Type} {cfg : ClientConfig} {info : Bytes}
  {J : FileSystem Path → ClientHistory → Prop} {Q : α → FileSystem Path → ClientHistory → Prop}

end Rules

/-! ### The parts of an attempt -/

section Parts

variable {alone : Prop} {info : Bytes} {cfg : ClientConfig}

/-- The stream of the partial download of `v` is open, and no other has bytes pending. -/
abbrev Downloading (fp : Handle) (v : Bytes) : FileSystem Path → Prop :=
  Holds [fp] [(fp, .part v)]

/-- What a round leaves: the download goes on, or its stream is closed or empty. -/
def AfterRound (fp : Handle) (v : Bytes) : ℕ ⊕ Option AttemptResult → FileSystem Path → Prop
  | .inl _ | .inr none => Downloading fp v
  | .inr (some _) => Settled

end Parts



section Changes

variable {alone : Prop} {cfg : ClientConfig} {info : Bytes} {fs fs' : FileSystem Path}
  {tr : ClientHistory} {o : FileOp Path} {r : FileOp.Res o}

/-- Bytes are pending towards scratch files and the table's temporary file only. -/
def Expendable (fs : FileSystem Path) : Prop :=
  ∀ h s, fs.streams h = some s → s.pending ≠ [] → ∀ p, s.path = some p →
    p.scratch = true ∨ p = .tableTmp

/-- A process that dies then leaves what is installed. -/
theorem Expendable.dies (h : Expendable fs) (hd : Dies fs fs') {p : Path}
    (hp : p.scratch = false) (hne : p ≠ .tableTmp) : fs'.disk p = fs.disk p := by
  refine hd.disk fun k s hs hpend hpath => ?_
  rcases h k s hs hpend p hpath with hscratch | htmp
  · rw [hp] at hscratch
    cases hscratch
  · exact hne htmp

end Changes

/-! ### Runs of an attempt -/

section Runs

variable {cfg : ClientConfig} {info : Bytes} {ru : ClientRules} {bound : ℕ} {w w' : ClientWorld}
  {p : ClientProg AttemptResult} {tr : ClientHistory}

end Runs

end UpdateFramework.Client
