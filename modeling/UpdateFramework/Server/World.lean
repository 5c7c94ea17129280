import UpdateFramework.Common.Wire
import UpdateFramework.Server.Context

/-!
# Server — the surroundings of a session

What the calls of a session may answer, and what they leave behind (`servingEnv`): anything may fail,
frames arrive while it is between two calls, and a snapshot is a manifest that was published.
-/

namespace UpdateFramework

open Libc Process

/-- What a session works with: its streams, and its end of the connection. -/
structure SessionWorld where
  files : FileSystem Bytes
  wire : Wire

/-- The outcomes of a call of a session: anything may fail, and `vm_get_snapshot` has no manifest
that was not `published`. -/
def servingMay (published : Manifest → Prop) (w : SessionWorld) :
    (o : ServerOp) → ServerOp.Res o → SessionWorld → Prop
  | .file o, r, w' => ∃ fs, w.files.may o r fs ∧ w' = { w with files := fs }
  | .protoSend f, r, w' => ∃ wire, w.wire.Sends True f r wire ∧ w' = { w with wire := wire }
  | .protoRecv cap dataCap, r, w' =>
      ∃ wire, w.wire.Receives True cap dataCap r wire ∧ w' = { w with wire := wire }
  | .vmGetSnapshot, r, w' => (∀ m, r = some m → published m) ∧ w' = w
  | _, _, w' => w' = w

/-- Only a snapshot depends on what was published. -/
theorem servingMay_of_snapshot {published published' : Manifest → Prop} {w w' : SessionWorld}
    {o : ServerOp} {r : ServerOp.Res o} (hm : servingMay published w o r w')
    (h : ∀ m, (⟨o, r⟩ : Call serverInterface) = ⟨.vmGetSnapshot, some m⟩ → published m →
      published' m) :
    servingMay published' w o r w' := by
  cases o with
  | vmGetSnapshot =>
      refine ⟨fun m hr => ?_, hm.2⟩
      subst hr
      exact h m rfl (hm.1 m rfl)
  | _ => exact hm

/-- The surroundings of a session; frames arrive while it is between two calls. -/
def servingEnv (published : Manifest → Prop) : Env serverInterface SessionWorld where
  may := servingMay published
  drift w w' := ∃ wire, w.wire.Arrives wire ∧ w' = { w with wire := wire }
  drift_refl w := ⟨w.wire, .refl _, rfl⟩
  drift_trans := by
    rintro a _ _ ⟨wire, hwire, rfl⟩ ⟨wire', hwire', rfl⟩
    exact ⟨wire', hwire.trans hwire', rfl⟩

/-- What a call of a session answers where nothing fails, nobody pauses, the peer is `clientId`, and `m`
is the server's latest manifest. -/
def SessionWorld.answer (clientId : Bytes) (m : Manifest) (w : SessionWorld) :
    (o : ServerOp) → ServerOp.Res o × SessionWorld
  | .file o => ((w.files.ok o).1, { w with files := (w.files.ok o).2 })
  | .protoSend f =>
    if sendable f = true then (true, { w with wire := w.wire.sent f }) else (false, w)
  | .protoRecv cap dataCap => match w.wire.inbox with
    | f :: _ =>
      if f.Fits cap dataCap then (.ok f, { w with wire := w.wire.received f }) else (.tooLarge, w)
    | [] => (.eof, w)
  | .select _ => (.timedOut, w)
  | .tlsPeerCommonName _ => (some clientId, w)
  | .reserveActiveClientId _ => (.reserved, w)
  | .vmGetSnapshot => (some m, w)
  | .authClientRegistered _ _ | .malloc _ => (true, w)
  | .releaseActiveClientId _ | .statsAdd _ _ | .statsSub _ _ | .statsActiveClientUpdate _ _ | .free
  | .usleep _ | .logMsg _ _ => ((), w)

/-- These answers are allowed where `m` is published. -/
theorem servingMay_answer {published : Manifest → Prop} {m : Manifest} (hm : published m)
    (clientId : Bytes) (w : SessionWorld) (o : ServerOp) :
    servingMay published w o (w.answer clientId m o).1 (w.answer clientId m o).2 := by
  cases o with
  | file o => exact ⟨_, .inl rfl, rfl⟩
  | protoSend f =>
      by_cases hf : sendable f = true
      · rw [SessionWorld.answer, if_pos hf]
        exact ⟨_, .sent hf, rfl⟩
      · rw [SessionWorld.answer, if_neg hf]
        exact ⟨_, .failed (.inl trivial), rfl⟩
  | protoRecv cap dataCap =>
      cases hin : w.wire.inbox with
      | nil =>
          simp only [SessionWorld.answer, hin]
          exact ⟨_, .failed trivial _ nofun, rfl⟩
      | cons f fs =>
          simp only [SessionWorld.answer, hin]
          by_cases hf : f.Fits cap dataCap
          · rw [if_pos hf]
            exact ⟨_, .ok f fs hin hf, rfl⟩
          · rw [if_neg hf]
            exact ⟨_, .tooLarge f fs hin hf, rfl⟩
  | vmGetSnapshot =>
      refine ⟨?_, rfl⟩
      rintro _ ⟨⟩
      exact hm
  | _ => rfl

end UpdateFramework
