import UpdateFramework.Client.Downloader
import UpdateFramework.Common.Receive
import UpdateFramework.Server.PackageService

/-!
# System — the buffers frames are received into

The callers of `proto_recv`, with the buffers they pass: a `payload` of `MAX_CONTROL_PAYLOAD + 1`
bytes in the three functions that receive control frames, and the `chunk + 1` bytes of the download
loop.  Whatever arrives, each stores within its buffer, does what the model without buffers says,
and leaves a NUL after the payload of a frame (`receive_in_bounds`).
-/

namespace UpdateFramework

open Libc

/-- `payload[len] = '\0'` after a `proto_recv` without room for data: the type, unless it failed. -/
def recvTextInto (c : Conn) (payloadCap : ℕ) (es : List (Event UInt8)) :
    Storing (Option (Option MsgType) × List (Event UInt8)) := do
  let (rc, rest) ← protoRecvInto c payloadCap 0 es
  match rc with
  | none => pure (none, rest)
  | some (.ok type _ len) =>
    storeAt len 0
    pure (some (some type), rest)
  | some _ => pure (some none, rest)

/-- `recv_control` of `downloader.c`. -/
def Client.recvControlInto (c : Conn) (cap : ℕ) (es : List (Event UInt8)) :
    Storing (Option (Option MsgType) × List (Event UInt8)) :=
  recvTextInto c cap es

/-- `recv_control` of `worker.c`. -/
def Server.recvControlInto (c : Conn) (payloadLen : ℕ) (es : List (Event UInt8)) :
    Storing (Option (Option MsgType) × List (Event UInt8)) :=
  recvTextInto c payloadLen es

/-- `recv_control_if_ready` where `select` finds the connection ready; otherwise it receives
nothing. -/
def Server.recvControlIfReadyInto (c : Conn) (payloadLen : ℕ) (es : List (Event UInt8)) :
    Storing (Option (Option MsgType) × List (Event UInt8)) :=
  recvTextInto c payloadLen es

/-- The `proto_recv` of the download loop, and `buf[len] = '\0'` where `buf` is read as text. -/
def Client.downloadRecvInto (c : Conn) (chunk : ℕ) (es : List (Event UInt8)) :
    Storing (Option RecvStatus × List (Event UInt8)) := do
  let (rc, rest) ← protoRecvInto c (chunk + 1) chunk es
  match rc with
  | some (.ok .transferDone _ len) => storeAt len 0
  | some (.ok .error _ len) => storeAt len 0
  | _ => pure ()
  pure (rc, rest)

/-- The buffer and the schedule when the download loop comes to its `proto_recv`, with `chunk`
settled: `malloc(chunk + 1)`, and any number of rounds. -/
inductive Client.Receiving (c : Conn) (chunk : ℕ) : Bytes → List (Event UInt8) → Prop where
  | start (buf : Bytes) (es : List (Event UInt8)) (h : buf.length = chunk + 1) :
      Receiving c chunk buf es
  | round {buf buf' : Bytes} {es rest : List (Event UInt8)} {rc : Option RecvStatus}
      (h : Receiving c chunk buf es)
      (hr : Client.downloadRecvInto c chunk es buf = some ((rc, rest), buf')) :
      Receiving c chunk buf' rest

/-- The type of a frame that was got. -/
def RecvResult.typeGot : RecvResult → Option MsgType
  | .ok f => some f.type
  | _ => none

theorem recvTextInto_fills (c : Conn) {payload : Bytes}
    (h : payload.length = maxControlPayload + 1) (es : List (Event UInt8)) :
    ∃ payload', Fills (recvTextInto c (maxControlPayload + 1) es) payload
      ((protoRecv c (maxControlPayload + 1) 0 es).1.map RecvResult.typeGot,
        (protoRecv c (maxControlPayload + 1) 0 es).2)
      (protoRecv c (maxControlPayload + 1) 0 es).1 payload' := by
  obtain ⟨payload', hfills⟩ := protoRecvInto_fills c (Nat.le_of_eq h.symm)
    (Nat.lt_succ_self _) (Nat.succ_pos _) es
  refine ⟨payload', ?_, hfills.length, hfills.terminated, hfills.reads⟩
  have hrun := hfills.run
  unfold recvTextInto
  simp only [bind, StateT.bind, hrun, Option.bind_some]
  cases hrc : (protoRecv c (maxControlPayload + 1) 0 es).1 with
  | none => rfl
  | some rc =>
      cases rc with
      | ok f =>
          have hstore := storeAt_terminated (hfills.terminated f hrc)
          simp only [Option.map_some, RecvResult.status, StateT.bind, hstore]
          rfl
      | eof => rfl
      | bad => rfl
      | tooLarge => rfl

/-- The clamp leaves room for control frames. -/
theorem minChunkSize_le_clampChunk (advertised : ℕ) :
    minChunkSize ≤ Client.clampChunk advertised := by
  have hmax : minChunkSize ≤ maxChunkSize := by decide
  unfold Client.clampChunk
  dsimp only
  generalize (if advertised % 2 ^ 32 < 2 ^ 31 then ((advertised % 2 ^ 32 : ℕ) : ℤ)
    else ((advertised % 2 ^ 32 : ℕ) : ℤ) - 2 ^ 32) = chunk
  split
  · exact Nat.le_refl _
  · rename_i hlow
    split
    · exact hmax
    · exact Int.le_toNat (by omega) |>.mpr (not_lt.mp hlow)

theorem downloadRecvInto_fills (c : Conn) {chunk : ℕ} (hchunk : minChunkSize ≤ chunk) {buf : Bytes}
    (h : buf.length = chunk + 1) (es : List (Event UInt8)) :
    ∃ buf', Fills (Client.downloadRecvInto c chunk es) buf
      ((protoRecv c (chunk + 1) chunk es).1.map RecvResult.status,
        (protoRecv c (chunk + 1) chunk es).2) (protoRecv c (chunk + 1) chunk es).1 buf' := by
  have hcontrol : maxControlPayload < chunk + 1 :=
    Nat.lt_succ_of_le (Nat.le_trans (by decide) hchunk)
  obtain ⟨buf', hfills⟩ :=
    protoRecvInto_fills c (Nat.le_of_eq h.symm) hcontrol (Nat.lt_succ_self _) es
  refine ⟨buf', ?_, hfills.length, hfills.terminated, hfills.reads⟩
  have hrun := hfills.run
  unfold Client.downloadRecvInto
  simp only [bind, StateT.bind, hrun, Option.bind_some]
  cases hrc : (protoRecv c (chunk + 1) chunk es).1 with
  | none => rfl
  | some rc =>
      cases rc with
      | ok f =>
          have hstore := storeAt_terminated (hfills.terminated f hrc)
          simp only [Option.map_some, RecvResult.status]
          cases f.type with
          | transferDone | error =>
              simp only [StateT.bind, hstore]
              rfl
          | _ => rfl
      | eof => rfl
      | bad => rfl
      | tooLarge => rfl

theorem Client.Receiving.length {c : Conn} {chunk : ℕ} (hchunk : minChunkSize ≤ chunk) {buf : Bytes}
    {es : List (Event UInt8)} (h : Client.Receiving c chunk buf es) : buf.length = chunk + 1 := by
  induction h with
  | start buf es h => exact h
  | round h hr ih =>
      obtain ⟨buf', hfills⟩ := downloadRecvInto_fills c hchunk ih _
      have hbuf := congrArg Prod.snd (Option.some.inj (hr.symm.trans hfills.run))
      dsimp only at hbuf
      rw [hbuf, hfills.length, ih]

/-- **No frame overruns its buffer.**  Whatever bytes arrive, the three functions that receive
control frames store within their `payload`, and so does every round of the download loop within its
`buf`, for every advertised chunk.  Each returns what `proto_recv` says of the bytes, and a payload
it got is ended by a NUL within the buffer. -/
theorem receive_in_bounds (c : Conn) :
    (∀ payload : Bytes, payload.length = maxControlPayload + 1 → ∀ es,
      ∃ payload', ∀ recv ∈ [Client.recvControlInto, Server.recvControlInto,
          Server.recvControlIfReadyInto],
        Fills (recv c (maxControlPayload + 1) es) payload
          ((protoRecv c (maxControlPayload + 1) 0 es).1.map RecvResult.typeGot,
            (protoRecv c (maxControlPayload + 1) 0 es).2)
          (protoRecv c (maxControlPayload + 1) 0 es).1 payload') ∧
    ∀ advertised buf es, Client.Receiving c (Client.clampChunk advertised) buf es →
      ∃ buf', Fills (Client.downloadRecvInto c (Client.clampChunk advertised) es) buf
        ((protoRecv c (Client.clampChunk advertised + 1) (Client.clampChunk advertised) es).1.map
            RecvResult.status,
          (protoRecv c (Client.clampChunk advertised + 1) (Client.clampChunk advertised) es).2)
        (protoRecv c (Client.clampChunk advertised + 1) (Client.clampChunk advertised) es).1 buf' := by
  refine ⟨fun payload h es => ?_, fun advertised buf es h => ?_⟩
  · obtain ⟨payload', hfills⟩ := recvTextInto_fills c h es
    refine ⟨payload', fun recv hrecv => ?_⟩
    simp only [List.mem_cons, List.not_mem_nil, or_false] at hrecv
    rcases hrecv with rfl | rfl | rfl
    · exact hfills
    · exact hfills
    · exact hfills
  · have hchunk := minChunkSize_le_clampChunk advertised
    exact downloadRecvInto_fills c hchunk (h.length hchunk) es

/-- A PAUSE, received into a `payload` without a NUL. -/
theorem receive_in_bounds_pause :
    ∃ r payload', Server.recvControlIfReadyInto ⟨none⟩ (maxControlPayload + 1)
        [.move 0x55 (encode ⟨.pause, 0, ascii "offset=7"⟩).tail]
        (List.replicate (maxControlPayload + 1) 255) = some (r, payload') ∧
      cstr payload' = ascii "offset=7" := by
  have hfits : Frame.Fits ⟨.pause, 0, ascii "offset=7"⟩ (maxControlPayload + 1) 0 :=
    ⟨by unfold Frame.Sized; decide, by decide, by decide⟩
  have hquiet : Quiet (Conn.Retried ⟨none⟩)
      (ticks [.move 0x55 (encode ⟨.pause, 0, ascii "offset=7"⟩).tail]) :=
    quiet_append.mpr ⟨quiet_map _ _, fun s hs => absurd hs List.not_mem_nil⟩
  have hbytes : movedBytes (ticks [.move 0x55 (encode ⟨.pause, 0, ascii "offset=7"⟩).tail]) =
      encode ⟨.pause, 0, ascii "offset=7"⟩ ++ [] := by
    decide +kernel
  obtain ⟨rest, hrecv, -⟩ := protoRecv_encode ⟨none⟩ hfits hquiet hbytes
  obtain ⟨payload', hfills⟩ := (receive_in_bounds ⟨none⟩).1
    (List.replicate (maxControlPayload + 1) 255) List.length_replicate
    [.move 0x55 (encode ⟨.pause, 0, ascii "offset=7"⟩).tail]
  have hfill := hfills Server.recvControlIfReadyInto (by simp)
  have hreads := hfill.reads ⟨.pause, 0, ascii "offset=7"⟩ (by rw [hrecv])
  exact ⟨_, payload', hfill.run, hreads⟩

end UpdateFramework
