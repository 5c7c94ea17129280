import UpdateFramework.Common.Framing
import UpdateFramework.Libc.Buffer

/-!
# Common — a frame, stored in a buffer

`conn_read_all` and `proto_recv` with the buffer their bytes go to.  Where the buffer has
`payload_cap` bytes they store within it, and do what `connReadAll` and `protoRecv` say
(`connReadAllInto_run`, `protoRecvInto_run`): the payload is stored from the start of the buffer,
and a NUL after it where there is room.  `Fills` is what a caller relies on.
-/

namespace UpdateFramework

open Libc

/-- `conn_read_all(c, buf + p, len)`: the status, and the schedule that is left. -/
def connReadAllInto (c : Conn) (p len : ℕ) (es : List (Event UInt8)) :
    Storing (Status × List (Event UInt8)) :=
  if len = 0 then pure (.done, es)
  else
    let chunk := if len > 0x3fffffff then 0x3fffffff else len
    match es with
    | [] => pure (.waiting, [])
    | .stall s :: es => if c.retries s then connReadAllInto c p len es else pure (.failed, es)
    | .move d ds :: es =>
      let n := min chunk (ds.length + 1)
      storeAll p ((d :: ds).take n) >>= fun _ =>
        connReadAllInto c (p + n) (len - n) (leftover ((d :: ds).drop n) es)
  termination_by weight es
  decreasing_by
  · simp [weight]
  · refine Nat.lt_of_le_of_lt (weight_leftover _ _) ?_
    simp only [weight, List.length_drop, List.length_cons]
    split <;> omega

/-- `proto_recv_status_t`, with what is stored through the other pointers on `PROTO_RECV_OK`. -/
inductive RecvStatus where
  | ok (type : MsgType) (flags : UInt8) (len : ℕ)
  | eof
  | bad
  | tooLarge
  deriving DecidableEq

/-- What a receive reports of a frame beside its payload. -/
def RecvResult.status : RecvResult → RecvStatus
  | .ok f => .ok f.type f.flags f.payload.length
  | .eof => .eof
  | .bad => .bad
  | .tooLarge => .tooLarge

/-- `proto_recv`, with `payload` the buffer: the status, if the call ends, and the schedule that is
left. -/
def protoRecvInto (c : Conn) (payloadCap dataPayloadCap : ℕ) (es : List (Event UInt8)) :
    Storing (Option RecvStatus × List (Event UInt8)) :=
  let h := connReadAll c frameHeaderSize es
  match h.status with
  | .waiting => pure (none, h.rest)
  | .failed => pure (some .eof, h.rest)
  | .done =>
    if !headerOk h.moved then pure (some .bad, h.rest)
    else
      let mt := MsgType.ofByte (h.moved.getD 5 0)
      let len := getU32Be (h.moved.drop 8)
      if len > allowedLen mt dataPayloadCap || len > payloadCap then pure (some .tooLarge, h.rest)
      else do
        let (status, rest) ← connReadAllInto c 0 len h.rest
        match status with
        | .waiting => pure (none, rest)
        | .failed => pure (some .eof, rest)
        | .done =>
          if payloadCap > len then storeAt len 0
          pure (some (.ok mt (h.moved.getD 6 0) len), rest)

/-- The loop stores what moves, one read after another. -/
theorem connReadAllInto_run (c : Conn) {p len : ℕ} {es : List (Event UInt8)} {buf : Bytes}
    (h : p + len ≤ buf.length) :
    connReadAllInto c p len es buf = some (((connReadAll c len es).status,
      (connReadAll c len es).rest), overwrite buf p (connReadAll c len es).moved) := by
  unfold connReadAll
  fun_induction transferAll c len es generalizing p buf with
  | case1 es =>
      rw [connReadAllInto, if_pos rfl, overwrite_nil]
      rfl
  | case2 len h0 =>
      rw [connReadAllInto, if_neg h0, overwrite_nil]
      rfl
  | case3 len h0 s es hs ih =>
      rw [connReadAllInto, if_neg h0, ← ih h]
      simp only [hs, if_true]
  | case4 len h0 s es hs =>
      rw [connReadAllInto, if_neg h0, overwrite_nil]
      simp only [hs]
      rfl
  | case5 len h0 chunk d ds es n =>
      rename_i t ih
      have hn : ((d :: ds).take n).length = n := by
        rw [List.length_take, List.length_cons]
        exact Nat.min_eq_left (Nat.min_le_right _ _)
      have hchunk : n ≤ len := by
        refine Nat.le_trans (Nat.min_le_left _ _) ?_
        show (if len > 0x3fffffff then 0x3fffffff else len) ≤ len
        split <;> omega
      have hfirst : p + ((d :: ds).take n).length ≤ buf.length := by omega
      have hrest : p + n + (len - n) ≤ (overwrite buf p ((d :: ds).take n)).length := by
        rw [length_overwrite hfirst]
        omega
      have happend := overwrite_append hfirst t.moved
      rw [hn] at happend
      rw [connReadAllInto, if_neg h0, ← happend]
      change ((storeAll p ((d :: ds).take n) buf).bind fun a =>
        connReadAllInto c (p + n) (len - n) (leftover ((d :: ds).drop n) es) a.2) = _
      rw [storeAll_run hfirst]
      exact ih hrest

/-- `proto_recv` does what the framing says, within `payload_cap` bytes. -/
theorem protoRecvInto_run (c : Conn) {payloadCap : ℕ} (dataPayloadCap : ℕ)
    (es : List (Event UInt8)) {buf : Bytes} (h : payloadCap ≤ buf.length) :
    ∃ buf', protoRecvInto c payloadCap dataPayloadCap es buf =
        some (((protoRecv c payloadCap dataPayloadCap es).1.map RecvResult.status,
          (protoRecv c payloadCap dataPayloadCap es).2), buf') ∧
      buf'.length = buf.length ∧
      ∀ f, (protoRecv c payloadCap dataPayloadCap es).1 = some (.ok f) →
        buf' = overwrite buf 0
          (f.payload ++ if payloadCap > f.payload.length then [0] else []) := by
  unfold protoRecvInto protoRecv
  dsimp only
  obtain ⟨t, ht⟩ : ∃ t, connReadAll c frameHeaderSize es = t := ⟨_, rfl⟩
  rw [ht]
  cases hst : t.status with
  | waiting => exact ⟨buf, rfl, rfl, fun f hf => by cases hf⟩
  | failed => exact ⟨buf, rfl, rfl, fun f hf => by cases hf⟩
  | done =>
      dsimp only
      split
      · exact ⟨buf, rfl, rfl, fun f hf => by cases hf⟩
      split
      · exact ⟨buf, rfl, rfl, fun f hf => by cases hf⟩
      rename_i hsize
      obtain ⟨len, hlen⟩ : ∃ len, getU32Be (t.moved.drop 8) = len := ⟨_, rfl⟩
      rw [hlen] at hsize ⊢
      have hcap : len ≤ payloadCap := by
        simp only [Bool.or_eq_true, decide_eq_true_eq, not_or, Nat.not_lt] at hsize
        exact hsize.2
      have hroom : 0 + len ≤ buf.length := by
        rw [Nat.zero_add]
        exact Nat.le_trans hcap h
      have hmeets := transferAll_meets c len t.rest
      obtain ⟨u, hu⟩ : ∃ u, connReadAll c len t.rest = u := ⟨_, rfl⟩
      have hread : connReadAllInto c 0 len t.rest buf =
          some ((u.status, u.rest), overwrite buf 0 u.moved) :=
        hu ▸ connReadAllInto_run c hroom
      have hu' : transferAll c len t.rest = u := hu
      rw [hu'] at hmeets
      have hmoved : 0 + u.moved.length ≤ buf.length := by
        have hle := hmeets.length_moved_le
        omega
      rw [hu]
      simp only [bind, StateT.bind, hread, Option.bind_some]
      cases hust : u.status with
      | waiting => exact ⟨_, rfl, length_overwrite hmoved, fun f hf => by cases hf⟩
      | failed => exact ⟨_, rfl, length_overwrite hmoved, fun f hf => by cases hf⟩
      | done =>
          obtain ⟨-, -, -, -, hl⟩ := hmeets.of_done hust
          subst hl
          have hlength := length_overwrite hmoved
          dsimp only
          split
          · rename_i hnul
            have hstore : 0 + u.moved.length < (overwrite buf 0 u.moved).length := by
              rw [hlength]
              omega
            have happend := overwrite_append hmoved [0]
            rw [Nat.zero_add] at hstore happend
            refine ⟨overwrite buf 0 (u.moved ++ [0]), ?_, ?_, ?_⟩
            · rw [← happend]
              simp only [StateT.bind, storeAt_run hstore]
              rfl
            · refine length_overwrite ?_
              rw [List.length_append, List.length_singleton]
              omega
            · intro f hf
              cases hf
              rw [if_pos hnul]
          · rename_i hfull
            refine ⟨_, rfl, hlength, fun f hf => ?_⟩
            cases hf
            rw [if_neg hfull, List.append_nil]

/-- The call stores within the buffer, and returns `a`.  If it got a frame, the buffer begins with
its payload and a NUL, and that is all `kv_get` reads. -/
structure Fills {α : Type} (call : Storing α) (buf : Bytes) (a : α) (rc : Option RecvResult)
    (buf' : Bytes) : Prop where
  run : call buf = some (a, buf')
  length : buf'.length = buf.length
  terminated : ∀ f, rc = some (.ok f) → f.payload ++ [0] <+: buf'
  reads : ∀ f, rc = some (.ok f) → cstr buf' = cstr f.payload

/-- A buffer with room for a NUL after every frame that is let in. -/
theorem protoRecvInto_fills (c : Conn) {payloadCap dataPayloadCap : ℕ} {buf : Bytes}
    (hcap : payloadCap ≤ buf.length) (hcontrol : maxControlPayload < payloadCap)
    (hdata : dataPayloadCap < payloadCap) (es : List (Event UInt8)) :
    ∃ buf', Fills (protoRecvInto c payloadCap dataPayloadCap es) buf
      ((protoRecv c payloadCap dataPayloadCap es).1.map RecvResult.status,
        (protoRecv c payloadCap dataPayloadCap es).2) (protoRecv c payloadCap dataPayloadCap es).1
      buf' := by
  obtain ⟨buf', hrun, hlength, hok⟩ := protoRecvInto_run c dataPayloadCap es hcap
  have hnul : ∀ f, (protoRecv c payloadCap dataPayloadCap es).1 = some (.ok f) →
      f.payload ++ [0] <+: buf' := by
    intro f hf
    have hfits := (protoRecv_ok c (Prod.ext hf rfl)).1
    have hroom : payloadCap > f.payload.length := by
      refine Nat.lt_of_le_of_lt hfits.allowed ?_
      unfold allowedLen
      split
      · exact hdata
      · exact hcontrol
    rw [hok f hf, if_pos hroom]
    exact overwrite_start
  exact ⟨buf', hrun, hlength, hnul, fun f hf => cstr_of_terminated (hnul f hf)⟩

end UpdateFramework
