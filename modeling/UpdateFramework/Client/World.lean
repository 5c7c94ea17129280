import UpdateFramework.Client.Operations
import UpdateFramework.Libc.Faults

/-!
# Client — its surroundings

What the operations of the client may answer, and what they leave behind (`clientEnv`), under rules
that say which of them may fail, whether the user may stop or pause, and what other processes may do
to the files the clients share: the version table, its temporary file and its lock.
-/

namespace UpdateFramework

open Libc Process

/-- The files the clients share. -/
def Path.shared : Path → Bool
  | .table | .tableTmp | .tableLock => true
  | _ => false

/-- Only files the clients share differ. -/
structure OnlyShared (fs fs' : FileSystem Path) : Prop where
  streams : fs'.streams = fs.streams
  fresh : fs'.fresh = fs.fresh
  disk : ∀ p : Path, p.shared = false → fs'.disk p = fs.disk p

theorem OnlyShared.refl (fs : FileSystem Path) : OnlyShared fs fs := ⟨rfl, rfl, fun _ _ => rfl⟩

theorem OnlyShared.trans {a b c : FileSystem Path} (h : OnlyShared a b) (k : OnlyShared b c) :
    OnlyShared a c :=
  ⟨k.streams.trans h.streams, k.fresh.trans h.fresh, fun p hp => (k.disk p hp).trans (h.disk p hp)⟩

structure ClientWorld where
  fs : FileSystem Path
  wire : Wire
  paused : Bool
  resumeRetryActive : Bool
  /-- How often the user has been asked to resume, in this pause. -/
  asked : ℕ

/-- The rules the surroundings keep to. -/
structure ClientRules where
  file : FileSystem Path → (o : FileOp Path) → FileOp.Res o → FileSystem Path → Prop
  file_may : ∀ {fs o r fs'}, file fs o r fs' → fs.may o r fs'
  /-- What other processes do to the files between two operations. -/
  others : FileSystem Path → FileSystem Path → Prop
  others_refl : ∀ fs, others fs fs
  others_trans : ∀ {a b c}, others a b → others b c → others a c
  others_shared : ∀ {fs fs'}, others fs fs' → OnlyShared fs fs'
  /-- The connection may fail, and so may allocation. -/
  lossy : Prop
  stops : Prop
  pauses : Prop
  /-- The user may let this question to resume go by. -/
  waits : ℕ → Prop
  spins : Prop

namespace ClientRules

/-- The outcomes of an operation. -/
def may (ru : ClientRules) (w : ClientWorld) :
    (o : ClientOp) → ClientOp.Res o → ClientWorld → Prop
  | .file o, r, w' => ∃ fs, ru.file w.fs o r fs ∧ w' = { w with fs := fs }
  | .protoSend f, r, w' => ∃ wire, w.wire.Sends ru.lossy f r wire ∧ w' = { w with wire := wire }
  | .protoRecv cap dataCap, r, w' =>
      ∃ wire, w.wire.Receives ru.lossy cap dataCap r wire ∧ w' = { w with wire := wire }
  | .netConnectTcp, some _, w' => w' = { w with wire := {} }
  | .netConnectTcp, none, w' => ru.lossy ∧ w' = w
  | .tlsConnectConnection _, r, w' => (r = false → ru.lossy) ∧ w' = w
  | .stopRequested, r, w' => (r = true → ru.stops) ∧ w' = w
  | .activeFdWasSignalClosed _, r, w' => (r = true → ru.stops) ∧ w' = w
  | .consumePauseRequest, r, w' => (r = true → ru.pauses) ∧ w' = { w with asked := 0 }
  | .consumeResumeRequest, r, w' =>
      (r = false → ru.waits w.asked) ∧ w' = { w with asked := w.asked + 1 }
  | .setPaused, _, w' => w' = { w with paused := true }
  | .resumeRetryActive, r, w' => r = w.resumeRetryActive ∧ w' = w
  | .setResumeRetryActive active, _, w' => w' = { w with resumeRetryActive := active }
  | .malloc _, r, w' => (r = false → ru.lossy) ∧ w' = w
  | .connClose _, _, w' | .sslFree, _, w' | .setActiveFd _, _, w' | .free, _, w' | .usleep _, _, w' =>
      w' = w

/-- Only operations on files change the files. -/
theorem may_fs {ru : ClientRules} {w w' : ClientWorld} {o : ClientOp} {r : ClientOp.Res o}
    (hm : ru.may w o r w') (ho : ∀ o', o ≠ .file o') : w'.fs = w.fs := by
  cases o with
  | file o' => exact absurd rfl (ho o')
  | protoSend f =>
      obtain ⟨_, -, rfl⟩ := hm
      rfl
  | protoRecv cap dataCap =>
      obtain ⟨_, -, rfl⟩ := hm
      rfl
  | netConnectTcp =>
      cases r with
      | none =>
          obtain ⟨-, rfl⟩ := hm
          rfl
      | some fd =>
          cases hm
          rfl
  | tlsConnectConnection _ | stopRequested | activeFdWasSignalClosed _ | consumePauseRequest
  | consumeResumeRequest | resumeRetryActive | malloc _ =>
      obtain ⟨-, rfl⟩ := hm
      rfl
  | setPaused | setResumeRetryActive _ | connClose _ | sslFree | setActiveFd _ | free | usleep _ =>
      cases hm
      rfl

/-- The files change under other processes, and frames arrive. -/
def drift (ru : ClientRules) (w w' : ClientWorld) : Prop :=
  ∃ fs wire, ru.others w.fs fs ∧ w.wire.Arrives wire ∧ w' = { w with fs := fs, wire := wire }

end ClientRules

/-- The surroundings of the client. -/
def clientEnv (ru : ClientRules) : Env clientInterface ClientWorld where
  may := ru.may
  drift := ru.drift
  spins := ru.spins
  drift_refl w := ⟨w.fs, w.wire, ru.others_refl _, .refl _, rfl⟩
  drift_trans := by
    rintro a _ _ ⟨fs, wire, hfs, hwire, rfl⟩ ⟨fs', wire', hfs', hwire', rfl⟩
    exact ⟨fs', wire', ru.others_trans hfs hfs', hwire.trans hwire', rfl⟩

/-- The surroundings of the parts of the client that work on files. -/
def fileEnv (ru : ClientRules) : Env (stdio Path) (FileSystem Path) where
  may := ru.file
  drift := ru.others
  spins := ru.spins
  drift_refl := ru.others_refl
  drift_trans := ru.others_trans

/-- Everything may fail, and other processes do as they like with the shared files. -/
def hostileRules : ClientRules where
  file := FileSystem.may
  file_may h := h
  others := OnlyShared
  others_refl := .refl
  others_trans := .trans
  others_shared h := h
  lossy := True
  stops := True
  pauses := True
  waits _ := True
  spins := True

/-- What an operation answers where nothing fails, nobody stops or pauses, and the connection ends
after the frames that have arrived. -/
def ClientWorld.answer (w : ClientWorld) : (o : ClientOp) → ClientOp.Res o × ClientWorld
  | .file o => ((w.fs.ok o).1, { w with fs := (w.fs.ok o).2 })
  | .protoSend f =>
    if sendable f = true then (true, { w with wire := w.wire.sent f }) else (false, w)
  | .protoRecv cap dataCap => match w.wire.inbox with
    | f :: _ =>
      if f.Fits cap dataCap then (.ok f, { w with wire := w.wire.received f }) else (.tooLarge, w)
    | [] => (.eof, w)
  | .netConnectTcp => (some 0, { w with wire := {} })
  | .consumePauseRequest => (false, { w with asked := 0 })
  | .consumeResumeRequest => (true, { w with asked := w.asked + 1 })
  | .setPaused => ((), { w with paused := true })
  | .resumeRetryActive => (w.resumeRetryActive, w)
  | .setResumeRetryActive active => ((), { w with resumeRetryActive := active })
  | .stopRequested | .activeFdWasSignalClosed _ => (false, w)
  | .tlsConnectConnection _ | .malloc _ => (true, w)
  | .connClose _ | .sslFree | .setActiveFd _ | .free | .usleep _ => ((), w)

/-- Any rules allow these answers on a lossy connection, if they let operations on files succeed. -/
theorem may_answer {ru : ClientRules} (hfile : ∀ fs o, ru.file fs o (fs.ok o).1 (fs.ok o).2)
    (hlossy : ru.lossy) (w : ClientWorld) (o : ClientOp) : ru.may w o (w.answer o).1 (w.answer o).2 := by
  cases o with
  | file o => exact ⟨_, hfile _ _, rfl⟩
  | protoSend f =>
      by_cases hf : sendable f = true
      · rw [ClientWorld.answer, if_pos hf]
        exact ⟨_, .sent hf, rfl⟩
      · rw [ClientWorld.answer, if_neg hf]
        exact ⟨_, .failed (.inl hlossy), rfl⟩
  | protoRecv cap dataCap =>
      cases hin : w.wire.inbox with
      | nil =>
          simp only [ClientWorld.answer, hin]
          exact ⟨_, .failed hlossy _ nofun, rfl⟩
      | cons f fs =>
          simp only [ClientWorld.answer, hin]
          by_cases hf : f.Fits cap dataCap
          · rw [if_pos hf]
            exact ⟨_, .ok f fs hin hf, rfl⟩
          · rw [if_neg hf]
            exact ⟨_, .tooLarge f fs hin hf, rfl⟩
  | netConnectTcp | setPaused | setResumeRetryActive _ | connClose _ | sslFree | setActiveFd _ | free
  | usleep _ => rfl
  | resumeRetryActive => exact ⟨rfl, rfl⟩
  | tlsConnectConnection _ | malloc _ | consumeResumeRequest => exact ⟨nofun, rfl⟩
  | stopRequested | activeFdWasSignalClosed _ | consumePauseRequest =>
      exact ⟨nofun, rfl⟩

end UpdateFramework
