import UpdateFramework.Server.Authorization
import UpdateFramework.Server.Conversation

/-!
# Server — what a session streams and what it advertised

A session advertises the size its snapshot of the manifest gives, and streams as many bytes as
`pkg_stream_file` finds in the file later.  The two agree when the sizes do
(`session_streams_advertised`); when the file has been replaced in between they need not
(`replaced_package_overruns`).
-/

namespace UpdateFramework.Server

open Libc Process

/-! ### What is sent -/

def sentBytes : Call serverInterface → ℕ
  | ⟨.protoSend f, _⟩ => if f.type = .data then f.payload.length else 0
  | _ => 0

/-- The bytes of the `DATA` frames sent. -/
def dataBytes (tr : ServerHistory) : ℕ := (tr.map sentBytes).sum

/-- The offer of an update. -/
abbrev offer (cfg : ServerConfig) (manifest : Manifest) : Call serverInterface :=
  answered (.protoSend (textFrame .updateAvailable (updateMeta cfg manifest))) true

/-- The request for the download. -/
abbrev request (flags : UInt8) (payload : Bytes) : Call serverInterface :=
  answered (.protoRecv (maxControlPayload + 1) 0) (.ok ⟨.downloadReq, flags, payload⟩)

/-- `kv_get_u64(payload, "offset", manifest.package_size + 1)` -/
def requestedOffset (manifest : Manifest) (payload : Bytes) : ℕ :=
  kvGetU64 payload (ascii "offset") ((manifest.packageSize + 1) % 2 ^ 64)

/-- `fread` reads no more than it is asked for. -/
def ReadsWithin (tr : ServerHistory) : Prop :=
  ∀ h n r, answered (.file (.fread h n)) r ∈ tr → r.1.length ≤ n

theorem dataBytes_append (tr tr' : ServerHistory) :
    dataBytes (tr ++ tr') = dataBytes tr + dataBytes tr' := by
  rw [dataBytes, List.map_append, List.sum_append]
  rfl

/-- A bound at every send bounds the whole. -/
theorem dataBytes_le {n : ℕ} (tr : ServerHistory)
    (h : ∀ before x after, tr = before ++ x :: after → 0 < sentBytes x →
      dataBytes before + sentBytes x ≤ n) : dataBytes tr ≤ n := by
  induction tr using List.reverseRecOn with
  | nil => exact Nat.zero_le n
  | append_singleton tr x ih =>
      rw [dataBytes_append, show dataBytes [x] = sentBytes x from Nat.add_zero _]
      rcases Nat.eq_zero_or_pos (sentBytes x) with h0 | hpos
      · rw [h0]
        refine ih fun before y after ht hy => h before y (after ++ [x]) ?_ hy
        rw [ht, List.append_assoc, List.cons_append]
      · exact h tr x [] rfl hpos

/-! ### The parts before the stream -/

/-- An operation that has nothing to do with the package. -/
def plain : ServerOp → Prop
  | .vmGetSnapshot | .file _ => False
  | .protoSend f => f.type ≠ .data ∧ f.type ≠ .transferDone ∧ f.type ≠ .updateAvailable
  | _ => True

/-- `tr'` goes on from `tr` with plain operations. -/
def GoesOn (tr tr' : ServerHistory) : Prop := ∃ seg, tr' = tr ++ seg ∧ ∀ x ∈ seg, plain x.1

theorem GoesOn.refl (tr : ServerHistory) : GoesOn tr tr := ⟨[], by simp, nofun⟩

theorem GoesOn.snoc {tr tr' : ServerHistory} (h : GoesOn tr tr') {x : Call serverInterface}
    (hx : plain x.1) : GoesOn tr (tr' ++ [x]) := by
  obtain ⟨seg, rfl, hseg⟩ := h
  refine ⟨seg ++ [x], List.append_assoc .., fun y hy => ?_⟩
  rcases List.mem_append.mp hy with hy | hy
  · exact hseg y hy
  · exact List.mem_singleton.mp hy ▸ hx

theorem plain_of_talks {o : ServerOp} (h : talks o) : plain o := by
  cases o with
  | protoSend f =>
      have herr : f.type = .error := refusal_type h
      simp [plain, herr]
  | file _ => exact h.elim
  | vmGetSnapshot => exact h.elim
  | _ => trivial

/-- A part that only talks, after plain calls. -/
theorem goesOn_of_talks {α : Type} {p : ServerProg α} (hp : p.Only talks) {tr tr' : ServerHistory}
    (h : GoesOn tr tr') :
    Safe (Env.any serverInterface) (fun _ => plain) (fun _ => GoesOn tr) p tr' := by
  refine ((hp.mono fun _ => plain_of_talks).safe tr').post ?_
  rintro _ _ ⟨seg', rfl, hseg'⟩
  obtain ⟨seg, rfl, hseg⟩ := h
  refine ⟨seg ++ seg', List.append_assoc .., fun x hx => ?_⟩
  rcases List.mem_append.mp hx with hx | hx
  · exact hseg x hx
  · exact hseg' x hx

/-! ### The stream -/

/-- An update was offered as the one snapshot has it, and the client asked for it. -/
def Asked (cfg : ServerConfig) (manifest : Manifest) (payload : Bytes) (tr : ServerHistory) :
    Prop :=
  ∃ before flags after, tr = before ++ offer cfg manifest :: request flags payload :: after ∧
    ∀ m, answered .vmGetSnapshot (some m) ∈ before → m = manifest

/-- The update was asked for, and its file found to have `size` bytes. -/
structure Accepted (cfg : ServerConfig) (manifest : Manifest) (payload : Bytes) (size : ℕ)
    (tr : ServerHistory) : Prop where
  asked : Asked cfg manifest payload tr
  found : ∃ path, answered (.file (.stat path)) (some size) ∈ tr
  within : requestedOffset manifest payload ≤ size

/-- `sent` is where the stream is. -/
structure StreamAt (cfg : ServerConfig) (manifest : Manifest) (payload : Bytes) (size sent : ℕ)
    (tr : ServerHistory) : Prop where
  accepted : Accepted cfg manifest payload size tr
  bytes : ReadsWithin tr → dataBytes tr + requestedOffset manifest payload = sent ∧ sent ≤ size

/-- Before each `DATA` frame: it does not go beyond the size of the file.  Before
`TRANSFER_DONE`: the stream has come to its end. -/
def advertisedCall (cfg : ServerConfig) (tr : ServerHistory) : ServerOp → Prop
  | .protoSend f =>
    (f.type = .data → ∃ manifest payload size sent, StreamAt cfg manifest payload size sent tr ∧
      (ReadsWithin tr → sent + f.payload.length ≤ size)) ∧
    (f.type = .transferDone → ∃ manifest payload size, StreamAt cfg manifest payload size size tr)
  | _ => True

theorem advertisedCall_of_plain {cfg : ServerConfig} {tr : ServerHistory} {o : ServerOp}
    (h : plain o) : advertisedCall cfg tr o := by
  cases o with
  | protoSend f => exact ⟨fun hd => absurd hd h.1, fun hd => absurd hd h.2.1⟩
  | _ => trivial

theorem sentBytes_of_plain {x : Call serverInterface} (h : plain x.1) : sentBytes x = 0 := by
  obtain ⟨o, r⟩ := x
  cases o with
  | protoSend f => exact if_neg h.1
  | _ => rfl

theorem dataBytes_eq_zero {tr : ServerHistory} (h : ∀ x ∈ tr, sentBytes x = 0) :
    dataBytes tr = 0 := by
  refine List.sum_eq_zero_iff_forall_eq_nat.mpr fun n hn => ?_
  obtain ⟨x, hx, rfl⟩ := List.mem_map.mp hn
  exact h x hx

section Stream

variable {cfg : ServerConfig} {manifest : Manifest} {payload : Bytes} {size sent : ℕ}
  {tr tr' : ServerHistory}

theorem ReadsWithin.of_prefix (h : ReadsWithin tr') (hp : tr <+: tr') : ReadsWithin tr :=
  fun fp n r hm => h fp n r (hp.subset hm)

theorem ReadsWithin.last {fp : Handle} {n : ℕ} {r : Bytes × Bool}
    (h : ReadsWithin (tr ++ [answered (.file (.fread fp n)) r])) : r.1.length ≤ n :=
  h fp n r (List.mem_append_right tr (List.mem_singleton_self _))

theorem Asked.mono (h : Asked cfg manifest payload tr) (hp : tr <+: tr') :
    Asked cfg manifest payload tr' := by
  obtain ⟨seg, rfl⟩ := hp
  obtain ⟨before, flags, after, rfl, hm⟩ := h
  refine ⟨before, flags, after ++ seg, ?_, hm⟩
  rw [List.append_assoc, List.cons_append, List.cons_append]

theorem Accepted.mono (h : Accepted cfg manifest payload size tr) (hp : tr <+: tr') :
    Accepted cfg manifest payload size tr' := by
  obtain ⟨path, hstat⟩ := h.found
  exact ⟨h.asked.mono hp, ⟨path, hp.subset hstat⟩, h.within⟩

/-- Calls that send no `DATA` leave the stream where it is. -/
theorem StreamAt.quiet (h : StreamAt cfg manifest payload size sent tr) (seg : ServerHistory)
    (hseg : ∀ x ∈ seg, sentBytes x = 0) :
    StreamAt cfg manifest payload size sent (tr ++ seg) := by
  refine ⟨h.accepted.mono (List.prefix_append tr seg), fun hr => ?_⟩
  rw [dataBytes_append, dataBytes_eq_zero hseg, Nat.add_zero]
  exact h.bytes (hr.of_prefix (List.prefix_append tr seg))

theorem StreamAt.call (h : StreamAt cfg manifest payload size sent tr) (x : Call serverInterface)
    (hx : sentBytes x = 0) : StreamAt cfg manifest payload size sent (tr ++ [x]) :=
  h.quiet [x] fun _ hy => List.mem_singleton.mp hy ▸ hx

theorem StreamAt.goesOn (h : StreamAt cfg manifest payload size sent tr) (hg : GoesOn tr tr') :
    StreamAt cfg manifest payload size sent tr' := by
  obtain ⟨seg, rfl, hseg⟩ := hg
  exact h.quiet seg fun x hx => sentBytes_of_plain (hseg x hx)

/-- A `DATA` frame moves the stream on by its length. -/
theorem StreamAt.data (h : StreamAt cfg manifest payload size sent tr) {buf : Bytes}
    (hle : ReadsWithin tr → sent + buf.length ≤ size) (flags : UInt8) (ok : Bool) :
    StreamAt cfg manifest payload size (sent + buf.length)
      (tr ++ [answered (.protoSend ⟨.data, flags, buf⟩) ok]) := by
  refine ⟨h.accepted.mono (List.prefix_append tr _), fun hr => ?_⟩
  have hr' := hr.of_prefix (List.prefix_append tr _)
  have hlen : dataBytes [answered (.protoSend ⟨.data, flags, buf⟩) ok] = buf.length := by
    simp [dataBytes, sentBytes]
  rw [dataBytes_append, hlen, ← (h.bytes hr').1]
  refine ⟨Nat.add_right_comm .., ?_⟩
  rw [(h.bytes hr').1]
  exact hle hr'

/-- A part that only talks, where the stream is under way. -/
theorem StreamAt.talks {α : Type} {p : ServerProg α} (hp : p.Only talks)
    (h : StreamAt cfg manifest payload size sent tr) :
    Safe (Env.any serverInterface) (advertisedCall cfg)
      (fun _ => StreamAt cfg manifest payload size sent) p tr :=
  (goesOn_of_talks hp (.refl tr)).mono (fun _ _ => advertisedCall_of_plain) fun _ _ hg => h.goesOn hg

/-- Where a round of the chunk loop leaves the stream. -/
def AfterRound (cfg : ServerConfig) (manifest : Manifest) (payload : Bytes) (size : ℕ)
    (tr : ServerHistory) : ℕ ⊕ Bool → Prop
  | .inl sent => StreamAt cfg manifest payload size sent tr
  | .inr rc => rc = true → StreamAt cfg manifest payload size size tr

/-- The loop is left with `rc == 0` at the end of the file only. -/
theorem StreamAt.finish (h : StreamAt cfg manifest payload size sent tr) (hend : ¬ sent < size) :
    StreamAt cfg manifest payload size size tr := by
  refine ⟨h.accepted, fun hr => ?_⟩
  obtain ⟨hbytes, hle⟩ := h.bytes hr
  exact ⟨hbytes.trans (Nat.le_antisymm hle (Nat.le_of_not_lt hend)), Nat.le_refl size⟩

theorem streamRound_advertised (fp : Handle) (chunkSize delay hold : ℕ)
    (h : StreamAt cfg manifest payload size sent tr) :
    Safe (Env.any serverInterface) (advertisedCall cfg)
      (fun r tr' => AfterRound cfg manifest payload size tr' r)
      (streamRound fp size chunkSize delay hold sent) tr := by
  unfold streamRound
  by_cases hmore : sent < size
  swap
  · simp only [hmore, not_false_eq_true, if_true]
    exact safe_any_ret.mpr fun _ => h.finish hmore
  simp only [hmore, not_true_eq_false, if_false, Prog.call_bind, Prog.ret_bind, file_call, file_ret]
  have hpause := (handlePauseIfRequested_listens hold sent).mono fun _ => talks_of_listens
  refine safe_bind.mpr ((h.talks hpause).post fun go tr₁ h₁ => ?_)
  cases go with
  | false => exact safe_any_ret.mpr nofun
  | true =>
      refine safe_any_call.mpr ⟨trivial, fun read => ?_⟩
      obtain ⟨buf, ferror⟩ := read
      have h₂ := h₁.call (answered (.file (.fread fp (min (size - sent) chunkSize))) (buf, ferror)) rfl
      by_cases hbuf : buf.length = 0
      · simp only [if_pos hbuf]
        exact safe_any_ret.mpr nofun
      simp only [if_neg hbuf]
      -- what was read is no more than what was wanted
      have hle : ReadsWithin (tr₁ ++ [answered (.file (.fread fp (min (size - sent) chunkSize)))
          (buf, ferror)]) → sent + buf.length ≤ size := fun hr => by
        have hwant : buf.length ≤ min (size - sent) chunkSize := hr.last
        have hrest : buf.length ≤ size - sent := hwant.trans (Nat.min_le_left _ _)
        exact (Nat.add_le_add_left hrest sent).trans_eq (Nat.add_sub_cancel' (Nat.le_of_lt hmore))
      refine safe_any_call.mpr ⟨⟨fun _ => ⟨_, _, _, _, h₂, hle⟩, nofun⟩, fun ok => ?_⟩
      cases ok with
      | false => exact safe_any_ret.mpr nofun
      | true =>
          have h₃ := h₂.data hle (if sent + buf.length = size then flagLastChunk else 0) true
          refine safe_any_call.mpr ⟨trivial, fun _ => ?_⟩
          have h₄ := h₃.call (answered (.statsAdd .bytesSent buf.length) ()) rfl
          split
          · refine safe_any_call.mpr ⟨trivial, fun _ => ?_⟩
            split
            · exact safe_any_ret.mpr nofun
            · exact safe_any_ret.mpr (h₄.call (answered (.usleep delay) ()) rfl)
          · split
            · exact safe_any_ret.mpr nofun
            · exact safe_any_ret.mpr h₄

/-- `pkg_stream_file` streams from the offset to the end of the file it finds. -/
theorem pkgStreamFile_advertised (path : Bytes) (chunkSize delay hold : ℕ)
    (hasked : Asked cfg manifest payload tr) (hquiet : dataBytes tr = 0) :
    Safe (Env.any serverInterface) (advertisedCall cfg)
      (fun rc tr' => rc = true → ∃ size, StreamAt cfg manifest payload size size tr')
      (pkgStreamFile path (requestedOffset manifest payload) chunkSize delay hold) tr := by
  unfold pkgStreamFile pkgFileSize
  simp only [Prog.call_bind, Prog.ret_bind, file_call, file_ret]
  refine safe_any_call.mpr ⟨trivial, fun found => ?_⟩
  cases found with
  | none => exact safe_any_ret.mpr nofun
  | some size =>
      by_cases hargs : requestedOffset manifest payload > size ∨ chunkSize < minChunkSize ∨
          chunkSize > maxChunkSize
      · simp only [if_pos hargs]
        exact safe_any_ret.mpr nofun
      simp only [if_neg hargs]
      have hle : requestedOffset manifest payload ≤ size := Nat.le_of_not_lt fun h => hargs (.inl h)
      have h₁ : StreamAt cfg manifest payload size (requestedOffset manifest payload)
          (tr ++ [answered (.file (.stat path)) (some size)]) := by
        refine ⟨⟨hasked.mono (List.prefix_append ..), ⟨path, by simp⟩, hle⟩, fun _ => ⟨?_, hle⟩⟩
        rw [dataBytes_append, hquiet, Nat.zero_add]
        exact Nat.zero_add _
      refine safe_any_call.mpr ⟨trivial, fun fp => ?_⟩
      have h₂ := h₁.call (answered (.file (.fopen path .r)) fp) rfl
      cases fp with
      | none => exact safe_any_ret.mpr nofun
      | some fp =>
          refine safe_any_call.mpr ⟨trivial, fun seeked => ?_⟩
          have h₃ := h₂.call
            (answered (.file (.fseeko fp (requestedOffset manifest payload))) seeked) rfl
          cases seeked with
          | false => exact safe_any_call.mpr ⟨trivial, fun _ => safe_any_ret.mpr nofun⟩
          | true =>
              refine safe_any_call.mpr ⟨trivial, fun buf => ?_⟩
              have h₄ := h₃.call (answered (.malloc chunkSize) buf) rfl
              cases buf with
              | false => exact safe_any_call.mpr ⟨trivial, fun _ => safe_any_ret.mpr nofun⟩
              | true =>
                  refine safe_bind.mpr (Safe.post (Q := fun rc tr' =>
                    AfterRound cfg manifest payload size tr' (.inr rc))
                    (safe_loop _ trivial (fun sent => StreamAt cfg manifest payload size sent)
                      ?_ _ h₄) fun rc tr₅ h₅ => ?_)
                  · intro sent tr' h
                    refine (streamRound_advertised fp chunkSize delay hold h).post ?_
                    intro r tr'' h
                    cases r with
                    | inl sent => exact h
                    | inr rc => exact fun _ ht => ht ▸ h
                  · refine safe_any_call.mpr ⟨trivial, fun _ => ?_⟩
                    refine safe_any_call.mpr ⟨trivial, fun closed => ?_⟩
                    cases rc with
                    | false => exact safe_any_ret.mpr nofun
                    | true =>
                        have h₆ := (h₅ rfl).call (answered .free ()) rfl
                        have h₇ := h₆.call (answered (.file (.fclose fp)) closed) rfl
                        refine safe_any_call.mpr ⟨trivial, fun _ => safe_any_ret.mpr fun _ => ?_⟩
                        exact ⟨size, h₇.call _ rfl⟩

end Stream

/-! ### The session -/

section Session

variable {cfg : ServerConfig} {manifest : Manifest} {tr : ServerHistory}

/-- A plain call of a part whose result does not matter. -/
theorem safe_plain {α : Type} {o : ServerOp} {k : ServerOp.Res o → ServerProg α}
    (ho : plain o)
    (hk : ∀ r, Safe (Env.any serverInterface) (advertisedCall cfg) (fun _ _ => True) (k r)
      (tr ++ [answered o r])) :
    Safe (Env.any serverInterface) (advertisedCall cfg) (fun _ _ => True) (.call o k) tr :=
  safe_any_call.mpr ⟨advertisedCall_of_plain ho, hk⟩

theorem advertised_of_plain {α : Type} {p : ServerProg α} (hp : p.Only plain) :
    Safe (Env.any serverInterface) (advertisedCall cfg) (fun _ _ => True) p tr :=
  (hp.safe tr).mono (fun _ _ => advertisedCall_of_plain) fun _ _ _ => trivial

theorem finishTransfer_advertised (manifest : Manifest) (clientId : Bytes) (offset : ℕ)
    (h : ∃ m payload size, StreamAt cfg m payload size size tr) :
    Safe (Env.any serverInterface) (advertisedCall cfg) (fun _ _ => True)
      (finishTransfer manifest clientId offset) tr := by
  unfold finishTransfer
  simp only [Prog.call_bind, Prog.ret_bind]
  refine safe_any_call.mpr ⟨⟨nofun, fun _ => h⟩, fun ok => ?_⟩
  cases ok with
  | false => exact advertised_of_plain trivial
  | true =>
      refine advertised_of_plain
        ((recvControl_listens.mono fun _ h => plain_of_talks (talks_of_listens h)).bind fun r => ?_)
      have bye : (protoSend (emptyFrame .bye)).Only plain :=
        .call ⟨nofun, nofun, nofun⟩ fun _ => trivial
      split
      · split
        · exact .call trivial fun _ => .call trivial fun _ => bye
        · exact .call trivial fun _ => .call trivial fun _ => bye
      · trivial

theorem offerUpdate_advertised (clientId current : Bytes) (hquiet : dataBytes tr = 0)
    (hsnap : ∀ m, answered .vmGetSnapshot (some m) ∈ tr → m = manifest) :
    Safe (Env.any serverInterface) (advertisedCall cfg) (fun _ _ => True)
      (offerUpdate cfg manifest clientId current) tr := by
  have refuse : ∀ {code message : Bytes}, (Prog.call (E := serverInterface)
      (.protoSend (errorFrame code message)) fun _ => .ret false).Only plain :=
    .call ⟨nofun, nofun, nofun⟩ fun _ => trivial
  unfold offerUpdate
  cases pkgResolvePath cfg.packageDir manifest.packageFile (maxPathLen * 2) with
  | none =>
      simp only [Prog.call_bind, Prog.ret_bind]
      exact advertised_of_plain (.call trivial fun _ => refuse)
  | some packagePath =>
      simp only [Prog.call_bind, Prog.ret_bind]
      refine safe_plain trivial fun _ => ?_
      refine safe_any_call.mpr ⟨⟨nofun, nofun⟩, fun ok => ?_⟩
      cases ok with
      | false => exact advertised_of_plain trivial
      | true =>
          unfold recvControl
          simp only [Prog.call_bind, Prog.ret_bind]
          refine safe_plain trivial fun rc => ?_
          cases rc with
          | ok f =>
              obtain ⟨type, flags, payload⟩ := f
              cases type with
              | downloadReq =>
                  by_cases hoff : requestedOffset manifest payload > manifest.packageSize
                  · rw [requestedOffset] at hoff
                    simp only [Prog.ret_bind, if_pos hoff]
                    exact advertised_of_plain refuse
                  rw [requestedOffset] at hoff
                  simp only [Prog.ret_bind, if_neg hoff]
                  refine safe_plain trivial fun _ => ?_
                  simp only [List.append_assoc, List.cons_append, List.nil_append]
                  refine safe_bind.mpr ((pkgStreamFile_advertised packagePath _ _ _ ?_ ?_).post
                    fun streamed tr₁ h₁ => safe_plain trivial fun _ => ?_)
                  · refine ⟨tr ++ [_], flags, _, List.append_cons .., fun m hm => ?_⟩
                    rcases List.mem_append.mp hm with hm | hm
                    · exact hsnap m hm
                    · cases List.mem_singleton.mp hm
                  · rw [dataBytes_append, hquiet]
                    rfl
                  · cases streamed with
                    | false => exact advertised_of_plain (.call trivial fun _ => trivial)
                    | true =>
                        obtain ⟨size, hsize⟩ := h₁ rfl
                        exact finishTransfer_advertised _ _ _ ⟨_, _, size, hsize.call _ rfl⟩
              | _ => exact advertised_of_plain refuse
          | _ => exact advertised_of_plain (.call trivial fun _ => refuse)

/-- Plain calls send no `DATA` and take no snapshot. -/
theorem GoesOn.quiet (h : GoesOn [] tr) :
    dataBytes tr = 0 ∧ ∀ m, answered .vmGetSnapshot (some m) ∉ tr := by
  obtain ⟨seg, rfl, hseg⟩ := h
  exact ⟨dataBytes_eq_zero fun x hx => sentBytes_of_plain (hseg x hx), fun m hm => hseg _ hm⟩

theorem reservedSession_advertised (clientInfo clientId : Bytes) (h : GoesOn [] tr) :
    Safe (Env.any serverInterface) (advertisedCall cfg) (fun _ _ => True)
      (reservedSession cfg clientInfo clientId) tr := by
  have refuse : ∀ {code message : Bytes}, (Prog.call (E := serverInterface)
      (.protoSend (errorFrame code message)) fun _ => .ret false).Only plain :=
    .call ⟨nofun, nofun, nofun⟩ fun _ => trivial
  unfold reservedSession
  simp only [Prog.call_bind, Prog.ret_bind]
  have hok : plain (.protoSend (emptyFrame .authOk)) := ⟨nofun, nofun, nofun⟩
  refine safe_plain hok fun ok => ?_
  have h₁ := h.snoc (x := answered (.protoSend (emptyFrame .authOk)) ok) hok
  cases ok with
  | false => exact advertised_of_plain trivial
  | true =>
      refine safe_plain trivial fun _ => ?_
      have h₂ := h₁.snoc (x := answered (.statsActiveClientUpdate clientInfo
        (snprintf activeClientLabel (clientId ++ ascii " (" ++ clientInfo ++ ascii ")"))) ()) trivial
      refine safe_bind.mpr ((goesOn_of_talks (recvControl_listens.mono fun _ => talks_of_listens) h₂).mono
        (fun _ _ => advertisedCall_of_plain) fun r tr₃ h₃ => ?_)
      split
      · rename_i payload
        cases kvGet payload (ascii "cur") maxVersionStr with
        | none => exact advertised_of_plain (.call trivial fun _ => refuse)
        | some current =>
            dsimp only
            split
            · exact advertised_of_plain (.call trivial fun _ => refuse)
            refine safe_any_call.mpr ⟨trivial, fun snapshot => ?_⟩
            cases snapshot with
            | none => exact advertised_of_plain refuse
            | some manifest =>
                cases hcmp : verCompareText current manifest.latestVersion with
                | none =>
                    simp only [hcmp]
                    exact advertised_of_plain refuse
                | some cmp =>
                    simp only [hcmp]
                    split
                    · refine advertised_of_plain (.call trivial fun _ => .call trivial fun _ => ?_)
                      refine .call ⟨nofun, nofun, nofun⟩ fun ok => ?_
                      cases ok with
                      | true => exact .call ⟨nofun, nofun, nofun⟩ fun _ => trivial
                      | false => trivial
                    · obtain ⟨hquiet, hsnap⟩ := h₃.quiet
                      refine offerUpdate_advertised clientId current ?_ fun m hm => ?_
                      · rw [dataBytes_append, hquiet]
                        rfl
                      · rcases List.mem_append.mp hm with hm | hm
                        · exact absurd hm (hsnap m)
                        · cases List.mem_singleton.mp hm
                          rfl
      · exact advertised_of_plain refuse

/-- The session keeps to what it advertised at each send. -/
theorem handleClientSession_advertised (cfg : ServerConfig) (clientInfo : Bytes) :
    Safe (Env.any serverInterface) (advertisedCall cfg) (fun _ _ => True)
      (handleClientSession cfg clientInfo) [] := by
  have hhello : plain (.protoSend (textFrame .hello (ascii "srv=updctl;proto=1"))) :=
    ⟨nofun, nofun, nofun⟩
  unfold handleClientSession
  simp only [Prog.call_bind, Prog.ret_bind]
  refine safe_plain hhello fun ok => ?_
  have h₁ := (GoesOn.refl []).snoc
    (x := answered (.protoSend (textFrame .hello (ascii "srv=updctl;proto=1"))) ok) hhello
  cases ok with
  | false => exact advertised_of_plain trivial
  | true =>
      refine safe_bind.mpr ((goesOn_of_talks (authenticateClient_talks cfg) h₁).mono
        (fun _ _ => advertisedCall_of_plain) fun r tr₂ h₂ => ?_)
      have refuse : ∀ {code message text : Bytes}, (Prog.call (E := serverInterface)
          (.logMsg .warn text) fun _ =>
            .call (.protoSend (errorFrame code message)) fun _ => .ret false).Only plain :=
        .call trivial fun _ => .call ⟨nofun, nofun, nofun⟩ fun _ => trivial
      cases r with
      | none => exact advertised_of_plain trivial
      | some clientId =>
          refine safe_plain trivial fun reservation => ?_
          have h₃ := h₂.snoc (x := answered (.reserveActiveClientId clientId) reservation) trivial
          cases reservation with
          | duplicate => exact advertised_of_plain refuse
          | full => exact advertised_of_plain refuse
          | reserved =>
              refine safe_bind.mpr ((reservedSession_advertised clientInfo clientId h₃).post
                fun rc tr₄ _ => ?_)
              exact advertised_of_plain (.call trivial fun _ => trivial)

end Session

/-! ### Every history -/

theorem count_updateAvailable_le {ts : List MsgType} (h : FollowsPath ts) :
    ts.count .updateAvailable ≤ 1 := by
  obtain ⟨path, said, hpath, hsaid, hts⟩ := h
  have hcount : path.count .updateAvailable ≤ 1 := by
    cases hpath with
    | uptodate => decide
    | update n => simp [List.count_replicate]
  have hle := (hsaid.sublist.count_le .updateAvailable).trans hcount
  rcases hts with rfl | ⟨-, rfl⟩
  · exact hle
  · rw [List.count_append]
    exact hle

theorem count_sentTypes_pos {tr : ServerHistory} {x : Call serverInterface} {type : MsgType}
    (hx : x ∈ tr) (htype : sentType x = some type) : 0 < (sentTypes tr).count type :=
  List.count_pos_iff.mpr (List.mem_filterMap.mpr ⟨x, hx, htype⟩)

/-- A session makes one offer. -/
theorem offer_unique {tr before before' after after' : ServerHistory} {x y : Call serverInterface}
    (hpath : FollowsPath (sentTypes tr)) (hx : sentType x = some .updateAvailable)
    (hy : sentType y = some .updateAvailable) (h : tr = before ++ x :: after)
    (h' : tr = before' ++ y :: after') : before = before' ∧ x = y ∧ after = after' := by
  have hone := count_updateAvailable_le hpath
  -- otherwise one of the two would have another before it
  have once : ∀ {b a : ServerHistory} {z : Call serverInterface}, tr = b ++ z :: a →
      sentType z = some .updateAvailable →
      ∀ w ∈ b, sentType w = some MsgType.updateAvailable → False := by
    intro b a z ht hz w hw hwt
    rw [ht, sentTypes_append, List.count_append] at hone
    have h₁ := count_sentTypes_pos hw hwt
    have h₂ := count_sentTypes_pos (List.mem_cons_self (a := z) (l := a)) hz
    exact absurd hone (Nat.not_le.mpr (Nat.add_lt_add_of_le_of_lt h₁ h₂))
  rcases List.append_eq_append_iff.mp (h.symm.trans h') with ⟨mid, hb, ha⟩ | ⟨mid, hb, ha⟩
  · cases mid with
    | nil =>
        obtain ⟨rfl, rfl⟩ := List.cons.inj ha
        exact ⟨(hb.trans (List.append_nil before)).symm, rfl, rfl⟩
    | cons w mid =>
        obtain ⟨rfl, -⟩ := List.cons.inj ha
        exact (once h' hy x (hb ▸ List.mem_append_right _ List.mem_cons_self) hx).elim
  · cases mid with
    | nil =>
        obtain ⟨rfl, rfl⟩ := List.cons.inj ha
        exact ⟨hb.trans (List.append_nil before'), rfl, rfl⟩
    | cons w mid =>
        obtain ⟨rfl, -⟩ := List.cons.inj ha
        exact (once h hx y (hb ▸ List.mem_append_right _ List.mem_cons_self) hy).elim

/-- `DATA` never goes beyond what was advertised and asked for, and is all of it when
`TRANSFER_DONE` is sent. -/
structure AsAdvertised (size offset : ℕ) (tr : ServerHistory) : Prop where
  atMost : dataBytes tr ≤ size - offset
  complete : .transferDone ∈ sentTypes tr → dataBytes tr = size - offset

/-- **A session streams what it advertised**, wherever it runs and whatever is done to the package
meanwhile, if the file it finds when it comes to stream is as large as the manifest says, or too
short for the offset. -/
theorem session_streams_advertised (cfg : ServerConfig) (clientInfo : Bytes) {σ : Type}
    (env : Env serverInterface σ) (s : σ) {c : ServerProg Bool × σ × ServerHistory}
    (h : Run env.traced (handleClientSession cfg clientInfo, s, []) c)
    {before after : ServerHistory} {manifest : Manifest} {flags : UInt8} {payload : Bytes}
    (hasked : c.2.2 = before ++ offer cfg manifest :: request flags payload :: after)
    (hsnap : answered .vmGetSnapshot (some manifest) ∈ before)
    (hreads : ReadsWithin c.2.2)
    (hfile : ∀ path size, answered (.file (.stat path)) (some size) ∈ c.2.2 →
      size = manifest.packageSize ∨ size < requestedOffset manifest payload) :
    AsAdvertised manifest.packageSize (requestedOffset manifest payload) c.2.2 := by
  obtain ⟨p, s', tr⟩ := c
  dsimp only at hasked hreads hfile ⊢
  have hrun : History (handleClientSession cfg clientInfo) p tr := h.history
  have hpath : FollowsPath (sentTypes tr) := followsPath_of_calls tr fun _ _ _ ht =>
    (handleClientSession_safe cfg clientInfo).any_calls hrun ht
  have hguard : ∀ {b x a}, tr = b ++ x :: a → advertisedCall cfg b x.1 := fun ht =>
    (handleClientSession_advertised cfg clientInfo).any_calls hrun ht
  -- the stream the guard speaks of is the one that was asked for
  have hstream : ∀ {b a m pl size sent}, tr = b ++ a → StreamAt cfg m pl size sent b →
      size = manifest.packageSize ∧
        dataBytes b + requestedOffset manifest payload = sent ∧ sent ≤ size := by
    intro b a m pl size sent ht hst
    obtain ⟨b', flags', after', hb, honly⟩ := hst.accepted.asked
    have ht' : tr = b' ++ offer cfg m :: request flags' pl :: (after' ++ a) := by
      rw [ht, hb, List.append_assoc, List.cons_append, List.cons_append]
    obtain ⟨rfl, -, hrest⟩ := offer_unique hpath rfl rfl hasked ht'
    obtain rfl := honly manifest hsnap
    cases (List.cons.inj hrest).1
    have hbytes := hst.bytes (hreads.of_prefix ⟨a, ht.symm⟩)
    obtain ⟨path, hfound⟩ := hst.accepted.found
    rcases hfile path size (ht ▸ List.mem_append_left a hfound) with hsize | hsize
    · exact ⟨hsize, hbytes⟩
    · exact absurd hst.accepted.within (Nat.not_le.mpr hsize)
  have hmost : dataBytes tr ≤ manifest.packageSize - requestedOffset manifest payload := by
    refine dataBytes_le tr fun b x a ht hpos => Nat.le_sub_of_add_le ?_
    obtain ⟨o, r⟩ := x
    cases o with
    | protoSend f =>
        have hdata : f.type = .data := by
          by_contra hne
          rw [sentBytes, if_neg hne] at hpos
          exact Nat.lt_irrefl 0 hpos
        obtain ⟨m, pl, size, sent, hst, hle⟩ := (hguard ht).1 hdata
        obtain ⟨rfl, hsent, -⟩ := hstream ht hst
        rw [sentBytes, if_pos hdata, Nat.add_right_comm, hsent]
        exact hle (hreads.of_prefix ⟨_, ht.symm⟩)
    | _ => exact absurd hpos (Nat.lt_irrefl 0)
  refine ⟨hmost, fun hdone => Nat.le_antisymm hmost ?_⟩
  obtain ⟨⟨o, r⟩, hm, htype⟩ := List.mem_filterMap.mp hdone
  obtain ⟨b, a, ht⟩ := List.append_of_mem hm
  cases o with
  | protoSend f =>
      obtain ⟨m, pl, size, hst⟩ := (hguard ht).2 (Option.some.inj htype)
      obtain ⟨rfl, hsent, -⟩ := hstream ht hst
      rw [← hsent, Nat.add_sub_cancel, ht, dataBytes_append]
      exact Nat.le_add_right _ _
  | _ => cases htype

/-! ### A package replaced after the snapshot -/

/-- The manifest of the package `abcd`. -/
def manifest200 : Manifest :=
  ⟨ascii "2.0.0", ascii "p.bin",
    ascii "88d4266fd4e6338d13b845fcf289579d209c897823b9217da3e161936f031589", 4⟩

/-- A session, up to the offer. -/
def untilOffer : ServerHistory :=
  [answered (.protoSend (textFrame .hello (ascii "srv=updctl;proto=1"))) true,
    answered (.tlsPeerCommonName maxIdLen) (some (ascii "client001")),
    answered (.protoRecv (maxControlPayload + 1) 0) (.ok ⟨.auth, 0, ascii "id=client001"⟩),
    answered (.authClientRegistered (ascii "./config/clients.keys") (ascii "client001")) true,
    answered (.logMsg .info (ascii "AUTH ok id=client001 method=mTLS")) (),
    answered (.reserveActiveClientId (ascii "client001")) .reserved,
    answered (.protoSend (emptyFrame .authOk)) true,
    answered (.statsActiveClientUpdate (ascii "peer") (ascii "client001 (peer)")) (),
    answered (.protoRecv (maxControlPayload + 1) 0) (.ok ⟨.versionReq, 0, ascii "cur=1.0.0"⟩),
    answered .vmGetSnapshot (some manifest200),
    answered (.logMsg .info (ascii
      "VERSION_CHECK id=client001 cur=1.0.0 latest=2.0.0 decision=UPDATE size=4")) ()]

/-- What follows when the file at the package's path holds `content`. -/
def streamOf (content : Bytes) : ServerHistory :=
  [answered (.statsAdd .activeTransfers 1) (),
    answered (.file (.stat (ascii "./packages/p.bin"))) (some content.length),
    answered (.file (.fopen (ascii "./packages/p.bin") .r)) (some 0),
    answered (.file (.fseeko 0 0)) true,
    answered (.malloc 32768) true,
    answered (.select 0) .timedOut,
    answered (.file (.fread 0 content.length)) (content, false),
    answered (.protoSend ⟨.data, flagLastChunk, content⟩) true]

def sessionOf (content : Bytes) : ServerHistory :=
  untilOffer ++ offer .shipped manifest200 :: request 0 (ascii "offset=0") :: streamOf content

/-- The length a call asks `fread` for, and the bytes it gets. -/
def readOf : Call serverInterface → Option (ℕ × Bytes)
  | ⟨.file (.fread _ n), r⟩ => some (n, r.1)
  | _ => none

/-- The size a call finds. -/
def sizeOf : Call serverInterface → Option ℕ
  | ⟨.file (.stat _), size⟩ => size
  | _ => none

theorem readsWithin_sessionOf (content : Bytes) : ReadsWithin (sessionOf content) := by
  intro fp n r hm
  have hmem : (n, r.1) ∈ (sessionOf content).filterMap readOf :=
    List.mem_filterMap.mpr ⟨_, hm, rfl⟩
  obtain ⟨rfl, hr⟩ := Prod.mk.inj (List.mem_singleton.mp hmem)
  exact Nat.le_of_eq (congrArg List.length hr)

theorem found_sessionOf {content path : Bytes} {size : ℕ}
    (h : answered (.file (.stat path)) (some size) ∈ sessionOf content) :
    size = content.length := by
  have hmem : size ∈ (sessionOf content).filterMap sizeOf := List.mem_filterMap.mpr ⟨_, h, rfl⟩
  exact List.mem_singleton.mp hmem

/-- Surroundings in which anything may happen. -/
def anywhere : Env serverInterface Unit where
  may _ _ _ _ := True

/-- What happens in a session can happen where anything may happen. -/
theorem run_anywhere {α : Type} {p c : ServerProg α} {tr : ServerHistory} (h : History p c tr) :
    Run anywhere.traced (p, (), []) (c, (), tr) := by
  obtain ⟨d, hd⟩ : ∃ d, d = (c, tr) := ⟨_, rfl⟩
  rw [History, ← hd] at h
  suffices hrun : Run anywhere.traced (p, (), []) (d.1, (), d.2) by rwa [hd] at hrun
  clear hd
  induction h with
  | refl => exact .refl
  | tail _ hs ih =>
      cases hs with
      | drift hd => exact hd ▸ ih
      | op hm => exact ih.tail (.op ⟨trivial, hm⟩)

theorem snapshot_untilOffer : answered .vmGetSnapshot (some manifest200) ∈ untilOffer := by
  simp [untilOffer]

/-- The package as the manifest has it. -/
theorem session_streams_advertised_four :
    AsAdvertised manifest200.packageSize (requestedOffset manifest200 (ascii "offset=0"))
      (sessionOf [1, 2, 3, 4]) := by
  have hsome : ((handleClientSession .shipped (ascii "peer")).replay
      (sessionOf [1, 2, 3, 4])).isSome = true := by decide +kernel
  obtain ⟨c, hc⟩ := Option.isSome_iff_exists.mp hsome
  have hrun := run_anywhere (Prog.history_of_replay hc)
  exact session_streams_advertised .shipped (ascii "peer") anywhere () hrun rfl
    snapshot_untilOffer (readsWithin_sessionOf _) fun _ _ hm => .inl (found_sessionOf hm)

/-- The package has been replaced by a longer one: more is streamed than was advertised. -/
theorem replaced_package_overruns :
    ∃ c after, History (handleClientSession .shipped (ascii "peer")) c
        (untilOffer ++ offer .shipped manifest200 :: request 0 (ascii "offset=0") :: after) ∧
      answered .vmGetSnapshot (some manifest200) ∈ untilOffer ∧
      requestedOffset manifest200 (ascii "offset=0") ≤ manifest200.packageSize ∧
      ¬ AsAdvertised manifest200.packageSize (requestedOffset manifest200 (ascii "offset=0"))
        (untilOffer ++ offer .shipped manifest200 :: request 0 (ascii "offset=0") :: after) := by
  have hsome : ((handleClientSession .shipped (ascii "peer")).replay
      (sessionOf [1, 2, 3, 4, 5, 6])).isSome = true := by decide +kernel
  obtain ⟨c, hc⟩ := Option.isSome_iff_exists.mp hsome
  refine ⟨c, streamOf [1, 2, 3, 4, 5, 6], Prog.history_of_replay hc, snapshot_untilOffer, ?_,
    fun h => ?_⟩
  · decide +kernel
  · exact absurd h.atMost (by decide +kernel)

end UpdateFramework.Server
