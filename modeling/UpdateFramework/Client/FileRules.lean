import UpdateFramework.Client.Downloader
import UpdateFramework.Client.TableContent
import UpdateFramework.Client.World

/-!
# Client — what its work on files can do

Whatever fails, the parts of the client that work on files change only scratch files, the partial
download and its resume file (`Harmless`).  The exceptions are the writing of the version table
(`TableStep`) and the rename of the download, which is the attempt's own.  Renames are made while
nothing is pending.

`Does alone cfg g K p Q`: from every state of `K`, `p` keeps to this and ends in `Q`; `alone` says
that other processes leave the table's temporary file alone.
-/

namespace UpdateFramework

open Libc Process FileSystem Client

/-- The files that may be written at any time. -/
def Path.scratch : Path → Bool
  | .part _ | .resume _ => true
  | _ => false

/-- A line that can stand in a table in which the client has `version`. -/
def RowOf (cfg : ClientConfig) (version line : Bytes) : Prop :=
  ∀ w, lineEntry line = some (.row cfg.clientId w) → line = ownRow cfg version

section Rules

variable {alone : Prop} {cfg : ClientConfig} {g : Option Bytes} {α β : Type} {K K' : FileSystem Path → Prop} {Q : α → FileSystem Path → Prop}
  {fs : FileSystem Path} {h : Handle} {hs : List Handle} {p : Path}

/-- Bytes are pending on `hs` only, and the streams of `os` are open on their files. -/
def Holds (hs : List Handle) (os : List (Handle × Path)) (fs : FileSystem Path) : Prop :=
  fs.PendingOnly hs ∧ ∀ x ∈ os, fs.Owns x.1 x.2

variable {os : List (Handle × Path)} {fs' : FileSystem Path}

theorem Holds.mono {ks : List Handle} {ps : List (Handle × Path)} (hh : Holds hs os fs)
    (hk : ∀ x ∈ hs, x ∈ ks) (hp : ∀ x ∈ ps, x ∈ os) : Holds ks ps fs :=
  ⟨hh.1.mono hk, fun x hx => hh.2 x (hp x hx)⟩

theorem Holds.fopen {m : Mode} {r : Option Handle} (hh : Holds hs os fs)
    (hm : fs.may (.fopen p m) r fs') :
    Holds hs os fs' ∧ ∀ h, r = some h → Holds hs ((h, p) :: os) fs' := by
  have hold : Holds hs os fs' := ⟨hh.1.fopen hm, fun x hx => (hh.2 x hx).fopen hm⟩
  refine ⟨hold, ?_⟩
  rintro h rfl
  refine ⟨hold.1, fun x hx => ?_⟩
  rcases List.mem_cons.mp hx with rfl | hx
  · exact owns_fopen hm
  · exact hold.2 x hx

theorem Holds.written (hh : Holds hs os fs) (hmem : h ∈ hs) (taken : Bytes) (m : ℕ) :
    Holds hs os (fs.written h taken m) :=
  ⟨hh.1.written hmem taken m, fun x hx => (hh.2 x hx).written taken m⟩

theorem Holds.fflush {r : Bool} (hh : Holds (h :: hs) os fs) (hm : fs.may (.fflush h) r fs') :
    Holds hs os fs' := by
  rw [may_fflush hm]
  exact ⟨hh.1.flushed, fun x hx => (hh.2 x hx).flushed⟩

theorem Holds.fclose {r : Bool} (hh : Holds (h :: hs) os fs) (hm : fs.may (.fclose h) r fs') :
    Holds hs os fs' := by
  obtain ⟨m, rfl, -⟩ := may_fclose hm
  exact ⟨hh.1.closed m, fun x hx => (hh.2 x hx).closed m⟩

theorem Holds.read {o : FileOp Path} {r : FileOp.Res o} (hh : Holds hs os fs) (ho : Reads o h)
    (hm : fs.may o r fs') : Holds hs os fs' :=
  ⟨hh.1.read ho hm, fun x hx => (hh.2 x hx).read ho hm⟩

end Rules

/-! ### The parts -/

section Parts

variable {alone : Prop} {g : Option Bytes} {α : Type} {hs : List Handle} {os : List (Handle × Path)}
  {cfg : ClientConfig}

/-- A file of which the bytes before the stream's position have been hashed. -/
structure Hashing (p : Path) (content : Bytes) (fp : Handle) (ctx : Sha256Ctx)
    (fs : FileSystem Path) : Prop where
  settled : fs.Settled
  disk : fs.disk p = some content
  stream : ∃ s, fs.streams fp = some s ∧ s.content = content ∧ s.pos ≤ content.length ∧
    ctx = sha256Update sha256Init (content.take s.pos)

/-- A read takes the next block into the hash, or reports an error on a short one. -/
theorem Hashing.fread {p : Path} {content : Bytes} {fp : Handle} {ctx : Sha256Ctx}
    {fs fs' : FileSystem Path} {buf : Bytes} {ferror : Bool} (h : Hashing p content fp ctx fs)
    (hm : fs.may (.fread fp 65536) (buf, ferror) fs') :
    fs'.Settled ∧ fs'.disk p = some content ∧
      ((buf.length < 65536 ∧ ferror = true) ∨
        (buf.length < 65536 ∧ sha256Update ctx buf = sha256Update sha256Init content) ∨
        (¬ buf.length < 65536 ∧ Hashing p content fp (sha256Update ctx buf) fs')) := by
  obtain ⟨s, hs, hc, hpos, hctx⟩ := h.stream
  have hset : fs'.Settled := h.settled.read (.fread fp 65536) hm
  have hdisk : fs'.disk p = some content :=
    (may_disk hm fun ht => ht.elim).trans h.disk
  refine ⟨hset, hdisk, ?_⟩
  rcases hm with hm | hm
  · simp only [ok, hs, hc] at hm
    cases hm
    have hsum : content.take s.pos ++ (content.drop s.pos).take 65536 =
        content.take (s.pos + 65536) := (List.take_add ..).symm
    have hnew : sha256Update ctx ((content.drop s.pos).take 65536) =
        sha256Update sha256Init (content.take (s.pos + 65536)) := by
      rw [hctx, ← sha256Update_append, hsum]
    rw [hnew]
    by_cases hlt : ((content.drop s.pos).take 65536).length < 65536
    · -- the last block
      refine .inr (.inl ⟨hlt, ?_⟩)
      rw [List.length_take, List.length_drop] at hlt
      rw [List.take_of_length_le (by omega)]
    · refine .inr (.inr ⟨hlt, hset, hdisk, _, setStream_streams .., rfl, ?_, rfl⟩)
      rw [List.length_take, List.length_drop] at hlt
      show s.pos + 65536 ≤ content.length
      omega
  · cases hm with
    | fread _ _ m t ht hmlt =>
        refine .inl ⟨?_, rfl⟩
        rw [List.length_take]
        exact Nat.lt_of_le_of_lt (Nat.min_le_left ..) hmlt

/-- Lines read by `write_version_file`, with the client's row replaced where it was among them. -/
structure Renewed (cfg : ClientConfig) (version : Bytes) (t : TableRead) : Prop where
  own : t.updated = true → ownRow cfg version ∈ t.lines
  rows : ∀ l ∈ t.lines, RowOf cfg version l

/-- A line that says nothing of the client is kept. -/
theorem Renewed.kept {version : Bytes} {t : TableRead} (h : Renewed cfg version t) {line : Bytes}
    (hl : RowOf cfg version line) (seen : List Bytes) :
    Renewed cfg version ⟨t.lines ++ [line], seen, t.updated⟩ where
  own hu := List.mem_append_left _ (h.own hu)
  rows l hm := (List.mem_append.mp hm).elim (h.rows l) fun hm => List.mem_singleton.mp hm ▸ hl

end Parts

end UpdateFramework
