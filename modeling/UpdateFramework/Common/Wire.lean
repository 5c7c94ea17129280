import UpdateFramework.Common.Framing

/-!
# Common — one end of a connection

A session sees its connection through `proto_send` and `proto_recv`.  A `Wire` is what it has to do
with: the frames that have arrived and are not read yet, those it has read, and those it has sent.
Frames arrive while the session is between two calls.

`Sends` and `Receives` are the outcomes of the two calls.  On a lossy connection either may fail at
any time; otherwise a send that keeps the length rule succeeds, and a receive waits for a frame.  The
frames a receive reports are those `protoRecv_ok` allows, whatever bytes arrive.
-/

namespace UpdateFramework

open Libc

structure Wire where
  /-- The frames that have arrived, the oldest first. -/
  inbox : List Frame := []
  /-- The frames read. -/
  ins : List Frame := []
  /-- The frames sent. -/
  outs : List Frame := []

/-- `proto_send_text`: the frame that carries `text`. -/
def textFrame (type : MsgType) (text : Bytes) : Frame := ⟨type, 0, cstr text⟩

/-- `proto_send_error`: the frame that carries an error. -/
def errorFrame (code message : Bytes) : Frame :=
  textFrame .error
    (snprintf (maxControlPayload + 1) (ascii "code=" ++ code ++ ascii ";msg=" ++ message))

/-- `proto_send(conn, type, 0, NULL, 0)` -/
def emptyFrame (type : MsgType) : Frame := ⟨type, 0, []⟩

namespace Wire

/-- The oldest frame is read. -/
def received (w : Wire) (f : Frame) : Wire := { w with inbox := w.inbox.tail, ins := w.ins ++ [f] }

def sent (w : Wire) (f : Frame) : Wire := { w with outs := w.outs ++ [f] }

/-- Frames arrive. -/
def Arrives (w w' : Wire) : Prop := ∃ fs, w' = { w with inbox := w.inbox ++ fs }

theorem Arrives.refl (w : Wire) : Arrives w w := ⟨[], by simp⟩

theorem Arrives.trans {a b c : Wire} (h : Arrives a b) (k : Arrives b c) : Arrives a c := by
  obtain ⟨fs, rfl⟩ := h
  obtain ⟨gs, rfl⟩ := k
  exact ⟨fs ++ gs, by simp⟩

/-- The outcomes of `proto_send`. -/
inductive Sends (lossy : Prop) (w : Wire) (f : Frame) : Bool → Wire → Prop where
  | sent (h : sendable f = true) : Sends lossy w f true (w.sent f)
  | failed (h : lossy ∨ sendable f = false) : Sends lossy w f false w

/-- The outcomes of `proto_recv`. -/
inductive Receives (lossy : Prop) (payloadCap dataPayloadCap : ℕ) (w : Wire) :
    RecvResult → Wire → Prop where
  | ok (f : Frame) (fs : List Frame) (h : w.inbox = f :: fs) (hf : f.Fits payloadCap dataPayloadCap) :
      Receives lossy payloadCap dataPayloadCap w (.ok f) (w.received f)
  | tooLarge (f : Frame) (fs : List Frame) (h : w.inbox = f :: fs)
      (hf : ¬ f.Fits payloadCap dataPayloadCap) :
      Receives lossy payloadCap dataPayloadCap w .tooLarge w
  | failed (h : lossy) (r : RecvResult) (hr : ∀ f, r ≠ .ok f) :
      Receives lossy payloadCap dataPayloadCap w r w

end Wire

end UpdateFramework
