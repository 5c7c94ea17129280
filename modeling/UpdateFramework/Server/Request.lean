import UpdateFramework.Common.Payload
import UpdateFramework.Server.Advertised

/-!
# Server — what becomes of a download request

After `DOWNLOAD_REQ` a session either streams from the offset it has read or answers `BAD_REQUEST`
(`session_after_request`).  The offset is what `strtoull` makes of the field, which is more than
decimal numbers, and less than all of them; and it is that of the bytes before the first NUL
(`request_classified_iff`).
-/

namespace UpdateFramework.Server

open Libc Process

variable {cfg : ServerConfig} {manifest : Manifest} {payload : Bytes} {tr : ServerHistory}

/-! ### After the request -/

/-- `handle_client_session` from an accepted request on, up to `done:`. -/
def transfer (cfg : ServerConfig) (manifest : Manifest) (clientId path : Bytes) (offset : ℕ) :
    ServerProg Bool := do
  statsAdd .activeTransfers 1
  let streamed ← pkgStreamFile path offset cfg.chunkSize cfg.packetDelayUs cfg.pauseHoldTimeoutSec
  statsSub .activeTransfers 1
  if ¬ streamed then
    statsAdd .errors 1
    .ret false
  else finishTransfer manifest clientId offset

/-- The answer to an offset that is not accepted. -/
def refuseOffset : ServerProg Bool := do
  protoSendError (ascii "BAD_REQUEST") (ascii "offset beyond package size")
  .ret false

/-- What a session does with a request. -/
def answerRequest (cfg : ServerConfig) (manifest : Manifest) (clientId path payload : Bytes) :
    ServerProg Bool :=
  if requestedOffset manifest payload > manifest.packageSize then refuseOffset
  else transfer cfg manifest clientId path (requestedOffset manifest payload)

/-- `done:` -/
def closing (clientId : Bytes) (p : ServerProg Bool) : ServerProg Bool := do
  let rc ← p
  releaseActiveClientId clientId
  .ret rc

theorem transfer_serves (clientId path : Bytes) (offset : ℕ) :
    (transfer cfg manifest clientId path offset).Only serves := by
  refine .call trivial fun _ => (pkgStreamFile_serves _ _ _ _ _).bind fun streamed => ?_
  refine .call trivial fun _ => ?_
  split
  · exact .call trivial fun _ => trivial
  · exact finishTransfer_serves manifest clientId offset

/-- The request has just been received: the last call but one is the offer, of the manifest in the
snapshot. -/
def JustAsked (cfg : ServerConfig) (manifest : Manifest) (payload : Bytes) (tr : ServerHistory) :
    Prop :=
  ∃ before flags, tr = before ++ [offer cfg manifest, request flags payload] ∧
    answered .vmGetSnapshot (some manifest) ∈ before

theorem JustAsked.not_plain (h : JustAsked cfg manifest payload tr) : ¬ ∀ x ∈ tr, plain x.1 := by
  obtain ⟨before, flags, rfl, hsnap⟩ := h
  exact fun hall => hall _ (List.mem_append_left _ hsnap)

/-- The plain calls at the beginning are not the request. -/
theorem JustAsked.skip {tr' : ServerHistory} (h : JustAsked cfg manifest payload (tr ++ tr'))
    (hplain : ∀ x ∈ tr, plain x.1) : JustAsked cfg manifest payload tr' := by
  induction tr with
  | nil => exact h
  | cons x tr ih =>
      obtain ⟨before, flags, ht, hsnap⟩ := h
      refine ih ?_ fun y hy => hplain y (List.mem_cons_of_mem x hy)
      cases before with
      | nil => cases hsnap
      | cons y before =>
          obtain ⟨rfl, hrest⟩ := List.cons.inj ht
          refine ⟨before, flags, hrest, (List.mem_cons.mp hsnap).resolve_left ?_⟩
          rintro rfl
          exact hplain _ List.mem_cons_self

theorem JustAsked.tail {x : Call serverInterface} (h : JustAsked cfg manifest payload (x :: tr))
    (hplain : plain x.1) : JustAsked cfg manifest payload tr := by
  have hsplit : JustAsked cfg manifest payload ([x] ++ tr) := h
  exact hsplit.skip fun _ hy => List.mem_singleton.mp hy ▸ hplain

/-- A program of plain calls is not where the request is received. -/
theorem JustAsked.not_only {α : Type} {p c : ServerProg α} (h : JustAsked cfg manifest payload tr)
    (hrun : History p c tr) (hp : p.Only plain) : False :=
  h.not_plain (Prog.Only.history hp hrun).1

theorem plain_refuse {code message : Bytes} : (Prog.call (E := serverInterface)
    (.protoSend (errorFrame code message)) fun _ => .ret false).Only plain :=
  .call ⟨nofun, nofun, nofun⟩ fun _ => trivial

theorem recvControl_plain : recvControl.Only plain :=
  recvControl_listens.mono fun _ h => plain_of_talks (talks_of_listens h)

/-- `handle_client_session` from the offer on, up to `done:`. -/
def afterOffer (cfg : ServerConfig) (manifest : Manifest) (clientId path : Bytes) :
    ServerProg Bool := do
  match ← recvControl with
  | some (.downloadReq, payload) => answerRequest cfg manifest clientId path payload
  | _ =>
    protoSendError (ascii "BAD_REQUEST") (ascii "expected DOWNLOAD_REQ")
    .ret false

theorem offerUpdate_eq {path : Bytes} (clientId current : Bytes)
    (hpath : pkgResolvePath cfg.packageDir manifest.packageFile (maxPathLen * 2) = some path) :
    offerUpdate cfg manifest clientId current =
      .call (.logMsg .info (ascii "VERSION_CHECK id=" ++ clientId ++ ascii " cur=" ++ current ++
        ascii " latest=" ++ manifest.latestVersion ++ ascii " decision=UPDATE size=" ++
        decimal manifest.packageSize)) fun _ =>
      .call (.protoSend (textFrame .updateAvailable (updateMeta cfg manifest))) fun sent =>
        if ¬ sent then .ret false else afterOffer cfg manifest clientId path := by
  rw [offerUpdate, hpath]
  rfl

/-- Nothing is offered, and no snapshot taken. -/
def offersNothing : ServerOp → Prop
  | .protoSend f => f.type ≠ .updateAvailable
  | .vmGetSnapshot => False
  | _ => True

def takesNoSnapshot : ServerOp → Prop
  | .vmGetSnapshot => False
  | _ => True

theorem takesNoSnapshot_of_plain {o : ServerOp} (h : plain o) : takesNoSnapshot o := by
  cases o with
  | vmGetSnapshot => exact h.elim
  | _ => trivial

theorem takesNoSnapshot_of_offersNothing {o : ServerOp} (h : offersNothing o) :
    takesNoSnapshot o := by
  cases o with
  | vmGetSnapshot => exact h.elim
  | _ => trivial

theorem offersNothing_of_serves {o : ServerOp} (h : serves o) : offersNothing o := by
  cases o with
  | protoSend f =>
      intro hf
      rcases h with h | h | h <;> rw [hf] at h <;> cases h
  | vmGetSnapshot => exact h.elim
  | _ => trivial

theorem afterOffer_offersNothing (clientId path : Bytes) :
    (afterOffer cfg manifest clientId path).Only offersNothing := by
  have error : ∀ code message : Bytes, (Prog.call (E := serverInterface)
      (.protoSend (errorFrame code message)) fun _ => .ret false).Only offersNothing := fun _ _ =>
    .call nofun fun _ => trivial
  refine (recvControl_listens.mono fun _ h => offersNothing_of_serves (serves_of_listens h)).bind
    fun r => ?_
  split
  · rw [answerRequest]
    split
    · exact error _ _
    · exact (transfer_serves _ _ _).mono fun _ => offersNothing_of_serves
  · exact error _ _

theorem not_offered {α : Type} {p c : ServerProg α} (hp : p.Only offersNothing)
    (h : History p c tr) : offer cfg manifest ∉ tr :=
  fun hm => (Prog.Only.history hp h).1 _ hm rfl

/-- The one call before the offer, and the one after it, as the history has them. -/
theorem before_offer {x y : Call serverInterface} {before rest : ServerHistory} {flags : UInt8}
    (h : x :: y :: rest = before ++ [offer cfg manifest, request flags payload])
    (hx : x ≠ offer cfg manifest) (hrest : offer cfg manifest ∉ rest) :
    rest = [request flags payload] := by
  match before, h with
  | [], h => exact absurd (List.cons.inj h).1 hx
  | [_], h => exact (List.cons.inj (List.cons.inj h).2).2
  | _ :: _ :: before, h =>
      refine absurd ?_ hrest
      rw [(List.cons.inj (List.cons.inj h).2).2]
      exact List.mem_append_right before List.mem_cons_self

/-- The receipt of the request leads to the answer. -/
theorem afterOffer_request {clientId path : Bytes} {c : ServerProg Bool} {flags : UInt8}
    (h : History (afterOffer cfg manifest clientId path) c [request flags payload]) :
    c = answerRequest cfg manifest clientId path payload := by
  rcases history_call h with ⟨-, hnil⟩ | ⟨r, seg, hseg, h⟩
  · cases hnil
  · cases hseg
    exact history_nil h

/-- After the offer, the request leads to the answer. -/
theorem offerUpdate_after_request {clientId current : Bytes} {c : ServerProg Bool}
    (h : History (offerUpdate cfg manifest clientId current) c tr) {before : ServerHistory}
    {flags : UInt8} (ht : tr = before ++ [offer cfg manifest, request flags payload]) :
    ∃ path, c = answerRequest cfg manifest clientId path payload := by
  have hoffered : offer cfg manifest ∈ tr := ht ▸ List.mem_append_right before List.mem_cons_self
  cases hpath : pkgResolvePath cfg.packageDir manifest.packageFile (maxPathLen * 2) with
  | none =>
      rw [offerUpdate, hpath] at h
      refine absurd hoffered (not_offered ?_ h)
      exact .call trivial fun _ => .call nofun fun _ => trivial
  | some path =>
      rw [offerUpdate_eq clientId current hpath] at h
      rcases history_call h with ⟨-, rfl⟩ | ⟨r, seg, rfl, hsend⟩
      · cases hoffered
      rcases history_call hsend with ⟨-, rfl⟩ | ⟨sent, rest, rfl, hafter⟩
      · cases List.mem_singleton.mp hoffered
      cases sent with
      | false =>
          obtain ⟨-, rfl⟩ := history_ret hafter
          rcases List.mem_cons.mp hoffered with hoffered | hoffered
          · cases hoffered
          · cases List.mem_singleton.mp hoffered
      | true =>
          have hrest := before_offer ht nofun (not_offered (afterOffer_offersNothing _ _) hafter)
          exact ⟨path, afterOffer_request (hrest ▸ hafter)⟩

theorem offerUpdate_takesNoSnapshot (clientId current : Bytes) :
    (offerUpdate cfg manifest clientId current).Only takesNoSnapshot := by
  cases hpath : pkgResolvePath cfg.packageDir manifest.packageFile (maxPathLen * 2) with
  | none =>
      rw [offerUpdate, hpath]
      exact .call trivial fun _ => .call trivial fun _ => trivial
  | some path =>
      rw [offerUpdate_eq clientId current hpath]
      refine .call trivial fun _ => .call trivial fun sent => ?_
      split
      · trivial
      · exact (afterOffer_offersNothing _ _).mono fun _ => takesNoSnapshot_of_offersNothing

/-- The snapshot is the one taken last. -/
theorem JustAsked.snapshot {m : Option Manifest} {seg : ServerHistory}
    (h : JustAsked cfg manifest payload (answered .vmGetSnapshot m :: seg))
    (hseg : ∀ x ∈ seg, takesNoSnapshot x.1) : m = some manifest ∧
      ∃ before flags, seg = before ++ [offer cfg manifest, request flags payload] := by
  obtain ⟨before, flags, ht, hsnap⟩ := h
  cases before with
  | nil => cases hsnap
  | cons y before =>
      obtain ⟨rfl, hrest⟩ := List.cons.inj ht
      refine ⟨?_, before, flags, hrest⟩
      rcases List.mem_cons.mp hsnap with he | hm
      · cases he
        rfl
      · have hmem : answered .vmGetSnapshot (some manifest) ∈ seg := by
          rw [hrest]
          exact List.mem_append_left _ hm
        exact False.elim (hseg _ hmem)

/-- A session that holds its client id has offered the manifest of its snapshot when the request
comes. -/
theorem reservedSession_after_request {clientInfo clientId : Bytes} {c : ServerProg Bool}
    (h : History (reservedSession cfg clientInfo clientId) c tr)
    (hasked : JustAsked cfg manifest payload tr) :
    ∃ path, c = answerRequest cfg manifest clientId path payload := by
  have hok : plain (.protoSend (emptyFrame .authOk)) := ⟨nofun, nofun, nofun⟩
  unfold reservedSession at h
  simp only [Prog.call_bind, Prog.ret_bind] at h
  rcases history_call h with ⟨-, rfl⟩ | ⟨ok, seg, rfl, hauth⟩
  · exact (hasked.not_plain nofun).elim
  replace hasked := hasked.tail hok
  cases ok with
  | false => exact (hasked.not_only hauth trivial).elim
  | true =>
  rcases history_call hauth with ⟨-, rfl⟩ | ⟨_, seg, rfl, hlabel⟩
  · exact (hasked.not_plain nofun).elim
  replace hasked := hasked.tail trivial
  rcases history_bind hlabel with ⟨q, hq, -⟩ | ⟨r, tr₁, tr₂, rfl, hrecv, hreq⟩
  · exact (hasked.not_only hq recvControl_plain).elim
  replace hasked := hasked.skip (Prog.Only.history recvControl_plain hrecv).1
  split at hreq
  swap
  · exact (hasked.not_only hreq plain_refuse).elim
  next cur =>
  cases hcur : kvGet cur (ascii "cur") maxVersionStr with
  | none =>
      rw [hcur] at hreq
      exact (hasked.not_only hreq (.call trivial fun _ => plain_refuse)).elim
  | some current =>
  simp only [hcur] at hreq
  split at hreq
  · exact (hasked.not_only hreq (.call trivial fun _ => plain_refuse)).elim
  rcases history_call hreq with ⟨-, rfl⟩ | ⟨snapshot, seg, rfl, hsnap⟩
  · exact (hasked.not_plain nofun).elim
  -- only the branch that offers the manifest of the snapshot comes to a request
  have refused : ∀ {p : ServerProg Bool}, p.Only plain → History p c seg → False := by
    intro p hp hrun
    obtain ⟨-, before, flags, rfl⟩ := hasked.snapshot fun x hx =>
      takesNoSnapshot_of_plain ((Prog.Only.history hp hrun).1 x hx)
    exact ((Prog.Only.history hp hrun).1 _ (List.mem_append_right before List.mem_cons_self)).2.2 rfl
  cases snapshot with
  | none => exact (refused plain_refuse hsnap).elim
  | some m =>
  cases hcmp : verCompareText current m.latestVersion with
  | none =>
      simp only [hcmp] at hsnap
      exact (refused plain_refuse hsnap).elim
  | some cmp =>
  simp only [hcmp] at hsnap
  split at hsnap
  · refine (refused ?_ hsnap).elim
    refine .call trivial fun _ => .call trivial fun _ => .call ⟨nofun, nofun, nofun⟩ fun ok => ?_
    split
    · exact .call ⟨nofun, nofun, nofun⟩ fun _ => trivial
    · trivial
  · obtain ⟨hm, before, flags, hseg⟩ := hasked.snapshot
      (Prog.Only.history (offerUpdate_takesNoSnapshot clientId current) hsnap).1
    cases hm
    exact offerUpdate_after_request hsnap hseg

theorem answerRequest_calls (cfg : ServerConfig) (manifest : Manifest)
    (clientId path payload : Bytes) :
    ∃ o k, answerRequest cfg manifest clientId path payload = .call o k := by
  rw [answerRequest]
  split
  · exact ⟨_, _, rfl⟩
  · exact ⟨_, _, rfl⟩

/-- **After the request.**  A session that has received the request goes on with its answer, and then
releases the client id. -/
theorem session_after_request {clientInfo : Bytes} {c : ServerProg Bool}
    (h : History (handleClientSession cfg clientInfo) c tr)
    (hasked : JustAsked cfg manifest payload tr) :
    ∃ clientId path, c = closing clientId (answerRequest cfg manifest clientId path payload) := by
  have hhello : plain (.protoSend (textFrame .hello (ascii "srv=updctl;proto=1"))) :=
    ⟨nofun, nofun, nofun⟩
  have hauth := (authenticateClient_talks cfg).mono fun _ => plain_of_talks
  unfold handleClientSession at h
  simp only [Prog.call_bind, Prog.ret_bind] at h
  rcases history_call h with ⟨-, rfl⟩ | ⟨ok, seg, rfl, hsession⟩
  · exact (hasked.not_plain nofun).elim
  replace hasked := hasked.tail hhello
  cases ok with
  | false => exact (hasked.not_only hsession trivial).elim
  | true =>
  rcases history_bind hsession with ⟨q, hq, -⟩ | ⟨r, tr₁, tr₂, rfl, htalk, hrest⟩
  · exact (hasked.not_only hq hauth).elim
  replace hasked := hasked.skip (Prog.Only.history hauth htalk).1
  cases r with
  | none => exact (hasked.not_only hrest trivial).elim
  | some clientId =>
  rcases history_call hrest with ⟨-, rfl⟩ | ⟨reservation, seg, rfl, hreserved⟩
  · exact (hasked.not_plain nofun).elim
  replace hasked := hasked.tail trivial
  cases reservation with
  | duplicate => exact (hasked.not_only hreserved (.call trivial fun _ => plain_refuse)).elim
  | full => exact (hasked.not_only hreserved (.call trivial fun _ => plain_refuse)).elim
  | reserved =>
  rcases history_bind hreserved with ⟨q, hq, rfl⟩ | ⟨rc, tr₁, tr₂, rfl, hdone, hrelease⟩
  · obtain ⟨path, rfl⟩ := reservedSession_after_request hq hasked
    exact ⟨clientId, path, rfl⟩
  · -- the request is not the release, and the session does not end with it
    rcases history_call hrelease with ⟨-, rfl⟩ | ⟨r, seg, rfl, hend⟩
    · rw [List.append_nil] at hasked
      obtain ⟨path, hp⟩ := reservedSession_after_request hdone hasked
      obtain ⟨o, k, hcall⟩ := answerRequest_calls cfg manifest clientId path payload
      rw [hcall] at hp
      cases hp
    · obtain ⟨-, rfl⟩ := history_ret hend
      obtain ⟨before, flags, ht, -⟩ := hasked
      rw [show before ++ [offer cfg manifest, request flags payload] =
        (before ++ [offer cfg manifest]) ++ [request flags payload] by simp] at ht
      cases (List.append_inj' ht rfl).2

/-! ### Which requests are accepted -/

/-- The bytes received have a first `offset` field: behind these fields, with this value. -/
abbrev OffsetField (payload : Bytes) (before : List Bytes) (value : Bytes) : Prop :=
  FieldBehind payload (ascii "offset") before value

/-- The payload asks for the offset `n`, in the documented form: decimal digits only. -/
def Requests (payload : Bytes) (n : ℕ) : Prop :=
  ∃ before value, OffsetField payload before value ∧ Numeral value ∧ n = digitsValue value

/-- The payloads that are classified wrongly: refused for the length of their value or for a NUL
before the field, or accepted though the value is empty up to a NUL or the end, has blanks or a sign
before its digits, or goes on behind a NUL. -/
inductive Misread (size : ℕ) (payload : Bytes) : Prop where
  | long {before : List Bytes} {value : Bytes} (hfield : OffsetField payload before value)
      (h : Numeral value) (hlen : 64 ≤ value.length) (hn : digitsValue value ≤ size)
  | hidden {before : List Bytes} {value : Bytes} (hfield : OffsetField payload before value)
      (h : Numeral value) (hnul : ∃ part ∈ before, 0 ∈ part) (hn : digitsValue value ≤ size)
  | empty {before : List Bytes} {value : Bytes} (hfield : OffsetField payload before value)
      (hclear : ∀ part ∈ before, 0 ∉ part) (h : cstr value = [])
  | loose {before : List Bytes} {value blanks sign ds : Bytes}
      (hfield : OffsetField payload before value) (hclear : ∀ part ∈ before, 0 ∉ part)
      (hvalue : cstr value = blanks ++ (sign ++ ds)) (hl : Lead blanks sign)
      (hne : blanks ++ sign ≠ []) (h : Numeral ds) (hlen : (cstr value).length < 64)
      (hn : signedValue sign ds ≤ size)
  | trailing {before : List Bytes} {value : Bytes} (hfield : OffsetField payload before value)
      (hclear : ∀ part ∈ before, 0 ∉ part) (hnul : 0 ∈ value) (h : Numeral (cstr value))
      (hlen : (cstr value).length < 64) (hn : digitsValue (cstr value) ≤ size)

/-- The session streams from the offset the payload asks for, if it asks for one within the package,
and answers `BAD_REQUEST` otherwise. -/
structure Classified (cfg : ServerConfig) (manifest : Manifest) (payload : Bytes)
    (c : ServerProg Bool) : Prop where
  proceeds : ∀ n, Requests payload n → n ≤ manifest.packageSize →
    ∃ clientId path, c = closing clientId (transfer cfg manifest clientId path n)
  refuses : (∀ n, Requests payload n → ¬ n ≤ manifest.packageSize) →
    ∃ clientId, c = closing clientId refuseOffset

/-- What a program calls first. -/
def firstOp : ServerProg Bool → Option ServerOp
  | .call o _ => some o
  | _ => none

theorem transfer_ne_refuse {clientId clientId' path : Bytes} {n : ℕ} :
    closing clientId (transfer cfg manifest clientId path n) ≠ closing clientId' refuseOffset :=
  fun h => nomatch (congrArg firstOp h : some (ServerOp.statsAdd .activeTransfers 1) = some _)

theorem offset_key : (61 : UInt8) ∉ ascii "offset" ∧ (0 : UInt8) ∉ ascii "offset" := by decide

/-- The number asked for is that of the first field. -/
theorem Requests.of_field {n : ℕ} (h : Requests payload n) {before : List Bytes} {value : Bytes}
    (hfield : OffsetField payload before value) : Numeral value ∧ n = digitsValue value := by
  obtain ⟨before', value', hfield', hnum, hn⟩ := h
  obtain ⟨-, rfl⟩ := hfield.unique offset_key.1 hfield'
  exact ⟨hnum, hn⟩

/-- What the session sees of a field before the first NUL. -/
theorem firstField_of_clear {before : List Bytes} {value : Bytes}
    (hfield : OffsetField payload before value) (hclear : ∀ part ∈ before, 0 ∉ part) :
    firstField payload (ascii "offset") = some (cstr value) :=
  (firstField_iff offset_key.1 offset_key.2).mpr ⟨before, value, hfield, hclear, rfl⟩

/-- It sees no field behind a NUL. -/
theorem firstField_of_hidden {before : List Bytes} {value : Bytes}
    (hfield : OffsetField payload before value) (hnul : ∃ part ∈ before, 0 ∈ part) :
    firstField payload (ascii "offset") = none := by
  cases hseen : firstField payload (ascii "offset") with
  | none => rfl
  | some seen =>
      obtain ⟨before', value', hfield', hclear, -⟩ :=
        (firstField_iff offset_key.1 offset_key.2).mp hseen
      obtain ⟨rfl, -⟩ := hfield.unique offset_key.1 hfield'
      obtain ⟨part, hpart, h0⟩ := hnul
      exact absurd h0 (hclear part hpart)

theorem requestedOffset_of_none (hsize : manifest.packageSize < 2 ^ 63)
    (h : firstField payload (ascii "offset") = none) :
    requestedOffset manifest payload = manifest.packageSize + 1 := by
  rw [requestedOffset, kvGetU64_of_none _ h, Nat.mod_eq_of_lt (by omega)]

theorem requestedOffset_of_some (hsize : manifest.packageSize < 2 ^ 63) {value : Bytes}
    (h : firstField payload (ascii "offset") = some value) :
    requestedOffset manifest payload = if value.length < 64 ∧ (strtoull value).2 = [] then
      (strtoull value).1 else manifest.packageSize + 1 := by
  rw [requestedOffset, kvGetU64_of_firstField _ h, Nat.mod_eq_of_lt (by omega)]

theorem answerRequest_of_le (clientId path : Bytes)
    (h : requestedOffset manifest payload ≤ manifest.packageSize) :
    answerRequest cfg manifest clientId path payload =
      transfer cfg manifest clientId path (requestedOffset manifest payload) :=
  if_neg (Nat.not_lt.mpr h)

theorem answerRequest_of_lt (clientId path : Bytes)
    (h : manifest.packageSize < requestedOffset manifest payload) :
    answerRequest cfg manifest clientId path payload = refuseOffset :=
  if_pos h

/-- What a session does with a payload it misreads. -/
theorem Misread.classifies (hsize : manifest.packageSize < 2 ^ 63)
    (h : Misread manifest.packageSize payload) :
    (requestedOffset manifest payload ≤ manifest.packageSize ∧ ∀ n, ¬ Requests payload n) ∨
      (manifest.packageSize < requestedOffset manifest payload ∧
        ∃ n ≤ manifest.packageSize, Requests payload n) := by
  have only : ∀ {before value}, OffsetField payload before value → ¬ Numeral value →
      ∀ n, ¬ Requests payload n := fun hfield hnot n hreq => hnot (hreq.of_field hfield).1
  cases h with
  | @long before value hfield hnum hlen hn =>
      refine .inr ⟨?_, _, hn, before, value, hfield, hnum, rfl⟩
      by_cases hnul : ∃ part ∈ before, 0 ∈ part
      · rw [requestedOffset_of_none hsize (firstField_of_hidden hfield hnul)]
        exact Nat.lt_succ_self _
      · have hclear : ∀ part ∈ before, 0 ∉ part := fun part hpart h0 => hnul ⟨part, hpart, h0⟩
        rw [requestedOffset_of_some hsize (firstField_of_clear hfield hclear),
          cstr_eq_self hnum.zero_not_mem, if_neg fun hc => Nat.not_le.mpr hc.1 hlen]
        exact Nat.lt_succ_self _
  | @hidden before value hfield hnum hnul hn =>
      rw [requestedOffset_of_none hsize (firstField_of_hidden hfield hnul)]
      exact .inr ⟨Nat.lt_succ_self _, _, hn, before, value, hfield, hnum, rfl⟩
  | empty hfield hclear hempty =>
      rw [requestedOffset_of_some hsize (firstField_of_clear hfield hclear), hempty]
      refine .inl ⟨Nat.zero_le _, only hfield fun hnum => hnum.nonempty ?_⟩
      rw [← hempty, cstr_eq_self hnum.zero_not_mem]
  | loose hfield hclear hvalue hl hne hnum hlen hn =>
      have hread := strtoull_signed hl hnum noDigitNext_nil
      rw [List.append_nil, ← hvalue] at hread
      rw [requestedOffset_of_some hsize (firstField_of_clear hfield hclear), hread,
        if_pos ⟨hlen, rfl⟩]
      refine .inl ⟨hn, only hfield fun hdigits => ?_⟩
      rw [cstr_eq_self hdigits.zero_not_mem] at hvalue
      exact hl.not_numeral hne (hvalue ▸ hdigits)
  | trailing hfield hclear hnul hnum hlen hn =>
      rw [requestedOffset_of_some hsize (firstField_of_clear hfield hclear), hnum.read,
        if_pos ⟨hlen, rfl⟩]
      exact .inl ⟨(Nat.min_le_left ..).trans hn,
        only hfield fun hdigits => hdigits.zero_not_mem hnul⟩

/-- A payload it does not misread is accepted if it asks for an offset within the package. -/
theorem requestedOffset_exact (hsize : manifest.packageSize < 2 ^ 63)
    (h : ¬ Misread manifest.packageSize payload) :
    (∀ n, Requests payload n → n ≤ manifest.packageSize →
      requestedOffset manifest payload = n) ∧
    ((∀ n, Requests payload n → ¬ n ≤ manifest.packageSize) →
      manifest.packageSize < requestedOffset manifest payload) := by
  constructor
  · rintro n ⟨before, value, hfield, hnum, rfl⟩ hn
    have hlen : value.length < 64 := by
      by_contra hlong
      exact h (.long hfield hnum (Nat.not_lt.mp hlong) hn)
    have hclear : ∀ part ∈ before, 0 ∉ part := fun part hpart h0 =>
      h (.hidden hfield hnum ⟨part, hpart, h0⟩ hn)
    rw [requestedOffset_of_some hsize (firstField_of_clear hfield hclear),
      cstr_eq_self hnum.zero_not_mem, hnum.read, if_pos ⟨hlen, rfl⟩]
    exact Nat.min_eq_left (by omega)
  · intro hnone
    cases hseen : firstField payload (ascii "offset") with
    | none =>
        rw [requestedOffset_of_none hsize hseen]
        exact Nat.lt_succ_self _
    | some seen =>
        obtain ⟨before, value, hfield, hclear, rfl⟩ :=
          (firstField_iff offset_key.1 offset_key.2).mp hseen
        rw [requestedOffset_of_some hsize hseen]
        split
        next hread =>
          by_contra hle
          have hwhole : strtoull (cstr value) = ((strtoull (cstr value)).1, []) :=
            Prod.ext rfl hread.2
          rcases strtoull_whole_iff.mp hwhole with
            ⟨hempty, -⟩ | ⟨blanks, sign, ds, htext, hl, hds, hvalue⟩
          · exact h (.empty hfield hclear hempty)
          by_cases hlead : blanks ++ sign = []
          · obtain ⟨rfl, rfl⟩ := List.append_eq_nil_iff.mp hlead
            have hnum : Numeral (cstr value) := by
              rw [htext]
              exact hds
            rw [hnum.read] at hle
            have hsmall : digitsValue (cstr value) ≤ manifest.packageSize := by
              have hmin := Nat.not_lt.mp hle
              omega
            -- the digits are all of the value, or a NUL comes behind them
            by_cases hnul : 0 ∈ value
            · exact h (.trailing hfield hclear hnul hnum hread.1 hsmall)
            · rw [cstr_eq_self hnul] at hnum hsmall
              exact hnone _ ⟨before, value, hfield, hnum, rfl⟩ hsmall
          · exact h (.loose hfield hclear htext hl hlead hds hread.1 (hvalue ▸ Nat.not_lt.mp hle))
        next => exact Nat.lt_succ_self _

/-- **Requests are classified.**  A session that has received a request streams from exactly the
offset its bytes ask for, or answers `BAD_REQUEST`, as the documented form has it, if and only if
the payload is not one it misreads. -/
theorem request_classified_iff {clientInfo : Bytes} {c : ServerProg Bool}
    (hsize : manifest.packageSize < 2 ^ 63) (h : History (handleClientSession cfg clientInfo) c tr)
    (hasked : JustAsked cfg manifest payload tr) :
    Classified cfg manifest payload c ↔ ¬ Misread manifest.packageSize payload := by
  obtain ⟨clientId, path, rfl⟩ := session_after_request h hasked
  constructor
  · intro hc hmis
    rcases hmis.classifies hsize with ⟨hle, hnone⟩ | ⟨hlt, n, hn, hreq⟩
    · obtain ⟨clientId', hrefuse⟩ := hc.refuses fun n hreq => (hnone n hreq).elim
      rw [answerRequest_of_le clientId path hle] at hrefuse
      exact transfer_ne_refuse hrefuse
    · obtain ⟨clientId', path', hproceed⟩ := hc.proceeds n hreq hn
      rw [answerRequest_of_lt clientId path hlt] at hproceed
      exact transfer_ne_refuse hproceed.symm
  · intro hread
    obtain ⟨hexact, hrefuse⟩ := requestedOffset_exact hsize hread
    refine ⟨fun n hreq hn => ⟨clientId, path, ?_⟩, fun hnone => ⟨clientId, ?_⟩⟩
    · have hoffset := hexact n hreq hn
      rw [answerRequest_of_le clientId path (by rw [hoffset]; exact hn), hoffset]
    · rw [answerRequest_of_lt clientId path (hrefuse hnone)]

/-- The history of a session that has received a request. -/
def sessionAsked (payload : Bytes) : ServerHistory :=
  untilOffer ++ [offer .shipped manifest200, request 0 payload]

theorem justAsked_sessionAsked (payload : Bytes) :
    JustAsked .shipped manifest200 payload (sessionAsked payload) :=
  ⟨untilOffer, 0, rfl, snapshot_untilOffer⟩

/-- `offset=2` of a package of four bytes. -/
theorem request_classified_two : ∃ c,
    History (handleClientSession .shipped (ascii "peer")) c (sessionAsked (ascii "offset=2")) ∧
      Classified .shipped manifest200 (ascii "offset=2") c := by
  have hsome : ((handleClientSession .shipped (ascii "peer")).replay
      (sessionAsked (ascii "offset=2"))).isSome = true := by decide +kernel
  obtain ⟨c, hc⟩ := Option.isSome_iff_exists.mp hsome
  have hrun := Prog.history_of_replay hc
  refine ⟨c, hrun, (request_classified_iff (by decide) hrun (justAsked_sessionAsked _)).mpr ?_⟩
  have hoffset : OffsetField (ascii "offset=2") [] (ascii "2") := ⟨nofun, [], by decide +kernel⟩
  have hnum : Numeral (ascii "2") := by decide +kernel
  have only : ∀ {before value}, OffsetField (ascii "offset=2") before value →
      before = [] ∧ value = ascii "2" := fun h => h.unique offset_key.1 hoffset
  intro hmis
  cases hmis with
  | long h _ hlen _ => exact absurd ((only h).2 ▸ hlen) (by decide)
  | hidden h _ hnul _ =>
      obtain ⟨part, hpart, -⟩ := hnul
      cases (only h).1 ▸ hpart
  | empty h _ hempty => exact absurd ((only h).2 ▸ hempty) (by decide +kernel)
  | loose h _ hvalue hl hne _ _ _ =>
      rw [(only h).2, cstr_eq_self hnum.zero_not_mem] at hvalue
      exact hl.not_numeral hne (hvalue ▸ hnum)
  | trailing h _ hnul _ _ _ => exact absurd ((only h).2 ▸ hnul) (by decide +kernel)

/-- `offset=` is accepted, as 0. -/
theorem empty_offset_accepted : ∃ c,
    History (handleClientSession .shipped (ascii "peer")) c (sessionAsked (ascii "offset=")) ∧
      JustAsked .shipped manifest200 (ascii "offset=") (sessionAsked (ascii "offset=")) ∧
      ¬ Classified .shipped manifest200 (ascii "offset=") c := by
  have hsome : ((handleClientSession .shipped (ascii "peer")).replay
      (sessionAsked (ascii "offset="))).isSome = true := by decide +kernel
  obtain ⟨c, hc⟩ := Option.isSome_iff_exists.mp hsome
  have hrun := Prog.history_of_replay hc
  have hasked := justAsked_sessionAsked (ascii "offset=")
  refine ⟨c, hrun, hasked, fun hclass => ?_⟩
  obtain ⟨clientId, path, rfl⟩ := session_after_request hrun hasked
  have hle : requestedOffset manifest200 (ascii "offset=") ≤ manifest200.packageSize := by
    decide +kernel
  have hfield : OffsetField (ascii "offset=") [] [] := ⟨nofun, [], by decide +kernel⟩
  obtain ⟨clientId', hrefuse⟩ := hclass.refuses fun n hreq =>
    ((hreq.of_field hfield).1.nonempty rfl).elim
  rw [answerRequest_of_le clientId path hle] at hrefuse
  exact transfer_ne_refuse hrefuse

end UpdateFramework.Server
