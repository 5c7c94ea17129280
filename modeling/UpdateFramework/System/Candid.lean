import UpdateFramework.Libc.Appending
import UpdateFramework.Server.Advertised
import UpdateFramework.System.Connections
import UpdateFramework.System.Service

/-!
# System — what a session may have said

A session that serves one package says of it nothing but the truth, whatever its peer sends and
whatever fails: every offer is that of the manifest, the `DATA` frames carry a prefix of what was
asked for, and `TRANSFER_DONE` comes after all of it (`handleClientSession_candid`).
-/

namespace UpdateFramework.System

open Libc Process Server

/-! ### Frames -/

/-- The bytes of the `DATA` frames. -/
def dataOf (fs : List Frame) : Bytes :=
  fs.flatMap fun f => if f.type = .data then f.payload else []

/-- `TRANSFER_DONE` as the session sends it. -/
abbrev doneFrame (m : Manifest) : Frame :=
  textFrame .transferDone (snprintf (maxControlPayload + 1) (ascii "sha256=" ++ m.checksumSha256))

/-- The offer of an update as the session sends it. -/
abbrev offerFrame (cfg : ServerConfig) (m : Manifest) : Frame :=
  textFrame .updateAvailable (updateMeta cfg m)

/-- `heard` delivers `rest`, or the beginning of it. -/
structure Delivers (m : Manifest) (rest : Bytes) (heard : List Frame) : Prop where
  data : dataOf heard <+: rest
  done : ∀ before f after, heard = before ++ f :: after → f.type = .transferDone →
    dataOf before = rest ∧ f = doneFrame m

/-- What a peer that has said `said` may have heard. -/
structure Candid (cfg : ServerConfig) (m : Manifest) (content : Bytes)
    (said heard : List Frame) : Prop where
  offers : ∀ f ∈ heard, f.type = .updateAvailable → f = offerFrame cfg m
  stream : (∀ f ∈ heard, f.type ≠ .data ∧ f.type ≠ .transferDone) ∨
    ∃ r ∈ said, r.type = .downloadReq ∧
      Delivers m (content.drop (requestedOffset m r.payload)) heard

/-- A frame that is neither an offer nor a part of a stream. -/
def PlainFrame (f : Frame) : Prop :=
  f.type ≠ .data ∧ f.type ≠ .transferDone ∧ f.type ≠ .updateAvailable

@[simp] theorem dataOf_append (fs gs : List Frame) : dataOf (fs ++ gs) = dataOf fs ++ dataOf gs :=
  List.flatMap_append

theorem dataOf_eq_nil {fs : List Frame} (h : ∀ f ∈ fs, f.type ≠ .data) : dataOf fs = [] :=
  List.flatMap_eq_nil_iff.mpr fun f hf => if_neg (h f hf)

@[simp] theorem dataOf_data (flags : UInt8) (p : Bytes) : dataOf [⟨.data, flags, p⟩] = p :=
  List.append_nil p

section Candid

variable {cfg : ServerConfig} {m : Manifest} {content rest : Bytes}
  {said said' heard heard' : List Frame}

theorem Delivers.of_prefix (h : Delivers m rest heard) (hp : heard' <+: heard) :
    Delivers m rest heard' := by
  obtain ⟨more, rfl⟩ := hp
  refine ⟨?_, fun before f after hf hdone => ?_⟩
  · have hdata := h.data
    rw [dataOf_append] at hdata
    exact (List.prefix_append ..).trans hdata
  · exact h.done before f (after ++ more) (by rw [hf, List.append_assoc, List.cons_append]) hdone

/-- Frames at the end that are no part of the stream. -/
theorem Delivers.append (h : Delivers m rest heard)
    (hmore : ∀ f ∈ heard', f.type ≠ .data ∧ f.type ≠ .transferDone) :
    Delivers m rest (heard ++ heard') := by
  refine ⟨?_, fun before f after hf hdone => ?_⟩
  · rw [dataOf_append, dataOf_eq_nil fun f hf => (hmore f hf).1, List.append_nil]
    exact h.data
  · rcases List.append_eq_append_iff.mp hf with ⟨mid, rfl, hmid⟩ | ⟨mid, hheard, hmid⟩
    · exact absurd hdone (hmore f (hmid ▸ List.mem_append_right _ List.mem_cons_self)).2
    · cases mid with
      | nil =>
          have hmem : f ∈ [] ++ heard' := hmid ▸ List.mem_cons_self
          exact absurd hdone (hmore f hmem).2
      | cons g mid =>
          obtain ⟨rfl, -⟩ := List.cons.inj hmid
          exact h.done before f mid hheard hdone

/-- The next part of the stream. -/
theorem Delivers.data_snoc (hnone : ∀ f ∈ heard, f.type ≠ .transferDone) {flags : UInt8}
    {p : Bytes} (h : dataOf heard ++ p <+: rest) :
    Delivers m rest (heard ++ [⟨.data, flags, p⟩]) := by
  refine ⟨by rwa [dataOf_append, dataOf_data], fun before f after hf hdone => ?_⟩
  have hmem : f ∈ heard ++ [⟨.data, flags, p⟩] := hf ▸ List.mem_append_right _ List.mem_cons_self
  rcases List.mem_append.mp hmem with hmem | hmem
  · exact absurd hdone (hnone f hmem)
  · cases List.mem_singleton.mp hmem
    cases hdone

/-- The end of the stream. -/
theorem Delivers.done_snoc (hnone : ∀ f ∈ heard, f.type ≠ .transferDone)
    (h : dataOf heard = rest) : Delivers m rest (heard ++ [doneFrame m]) := by
  have hnodata : dataOf [doneFrame m] = [] := rfl
  refine ⟨by rw [dataOf_append, hnodata, List.append_nil, h], fun before f after hf hdone => ?_⟩
  rcases List.append_eq_append_iff.mp hf with ⟨mid, rfl, hmid⟩ | ⟨mid, rfl, hmid⟩
  · cases mid with
    | nil =>
        obtain ⟨rfl, -⟩ := List.cons.inj hmid
        exact ⟨by rw [List.append_nil, h], rfl⟩
    | cons g mid =>
        have hnil := (List.cons.inj hmid).2
        exact absurd hnil.symm (List.append_ne_nil_of_right_ne_nil _ (List.cons_ne_nil _ _))
  · cases mid with
    | nil =>
        obtain ⟨rfl, -⟩ := List.cons.inj hmid
        exact ⟨by rwa [List.append_nil] at h, rfl⟩
    | cons g mid =>
        obtain ⟨rfl, -⟩ := List.cons.inj hmid
        exact absurd hdone (hnone f (List.mem_append_right _ List.mem_cons_self))

theorem candid_nil (cfg : ServerConfig) (m : Manifest) (content : Bytes) (said : List Frame) :
    Candid cfg m content said [] :=
  ⟨nofun, .inl nofun⟩

/-- A peer that has said more, or heard less. -/
theorem Candid.mono (h : Candid cfg m content said heard) (hs : said ⊆ said')
    (hh : heard' <+: heard) : Candid cfg m content said' heard' := by
  refine ⟨fun f hf => h.offers f (hh.subset hf), ?_⟩
  rcases h.stream with hnone | ⟨r, hr, htype, hd⟩
  · exact .inl fun f hf => hnone f (hh.subset hf)
  · exact .inr ⟨r, hs hr, htype, hd.of_prefix hh⟩

theorem Candid.append (h : Candid cfg m content said heard)
    (hmore : ∀ f ∈ heard', PlainFrame f) : Candid cfg m content said (heard ++ heard') := by
  refine ⟨fun f hf htype => ?_, ?_⟩
  · rcases List.mem_append.mp hf with hf | hf
    · exact h.offers f hf htype
    · exact absurd htype (hmore f hf).2.2
  · have hquiet : ∀ f ∈ heard', f.type ≠ .data ∧ f.type ≠ .transferDone :=
      fun f hf => ⟨(hmore f hf).1, (hmore f hf).2.1⟩
    rcases h.stream with hnone | ⟨r, hr, htype, hd⟩
    · refine .inl fun f hf => ?_
      rcases List.mem_append.mp hf with hf | hf
      · exact hnone f hf
      · exact hquiet f hf
    · exact .inr ⟨r, hr, htype, hd.append hquiet⟩

end Candid

/-! ### A session among failures -/

/-- Before each send: the peer may hear it. -/
def candidCall (cfg : ServerConfig) (m : Manifest) (content : Bytes) (w : SessionWorld) :
    ServerOp → Prop
  | .protoSend f => Candid cfg m content w.wire.ins (w.wire.outs ++ [f])
  | _ => True

/-- From `w` to `w'`, frames have been read, and only plain frames sent. -/
structure Onward (w w' : SessionWorld) : Prop where
  files : w'.files = w.files
  ins : w.wire.ins <+: w'.wire.ins
  outs : ∃ more, w'.wire.outs = w.wire.outs ++ more ∧ ∀ f ∈ more, PlainFrame f

theorem Onward.refl (w : SessionWorld) : Onward w w :=
  ⟨rfl, List.prefix_refl _, [], (List.append_nil _).symm, nofun⟩

theorem Onward.trans {a b c : SessionWorld} (h : Onward a b) (k : Onward b c) : Onward a c := by
  obtain ⟨more, hmore, hplain⟩ := h.outs
  obtain ⟨more', hmore', hplain'⟩ := k.outs
  refine ⟨k.files.trans h.files, h.ins.trans k.ins, more ++ more', ?_, fun f hf => ?_⟩
  · rw [hmore', hmore, List.append_assoc]
  · rcases List.mem_append.mp hf with hf | hf
    · exact hplain f hf
    · exact hplain' f hf

theorem onward_of_drift {published : Manifest → Prop} {w w' : SessionWorld}
    (hd : (servingEnv published).drift w w') :
    Onward w w' := by
  obtain ⟨_, ⟨fs, rfl⟩, rfl⟩ := hd
  exact ⟨rfl, List.prefix_refl _, [], (List.append_nil _).symm, nofun⟩

section Session

variable {cfg : ServerConfig} {m : Manifest} {content path : Bytes} {w w' : SessionWorld} {α : Type}
  {published : Manifest → Prop}

/-- What a call on the wire leaves of the files, and puts on the wire. -/
theorem onward_of_send {f : Frame} {r : Bool} (hf : PlainFrame f)
    (hm : (servingEnv published).may w (.protoSend f) r w') : Onward w w' := by
  obtain ⟨_, hs, rfl⟩ := hm
  cases hs with
  | sent h =>
      refine ⟨rfl, List.prefix_refl _, [f], rfl, fun g hg => ?_⟩
      rwa [List.mem_singleton.mp hg]
  | failed h => exact .refl w

theorem onward_of_recv {cap dataCap : ℕ} {r : RecvResult}
    (hm : (servingEnv published).may w (.protoRecv cap dataCap) r w') :
    Onward w w' ∧ w'.wire.outs = w.wire.outs ∧ ∀ f, r = .ok f → f ∈ w'.wire.ins := by
  obtain ⟨_, hr, rfl⟩ := hm
  cases hr with
  | ok f fs hin hfit =>
      refine ⟨⟨rfl, List.prefix_append .., [], (List.append_nil _).symm, nofun⟩, rfl, ?_⟩
      rintro _ ⟨⟩
      exact List.mem_append_right _ (List.mem_singleton_self f)
  | tooLarge f fs hin hfit => exact ⟨.refl w, rfl, nofun⟩
  | failed hl r hr => exact ⟨.refl w, rfl, fun f hf => absurd hf (hr f)⟩

/-- A plain operation. -/
theorem onward_of_plain {o : ServerOp} (ho : plain o) {r : ServerOp.Res o}
    (hm : (servingEnv published).may w o r w') : Onward w w' := by
  cases o with
  | file o => exact ho.elim
  | vmGetSnapshot => exact ho.elim
  | protoSend f => exact onward_of_send ho hm
  | protoRecv cap dataCap => exact (onward_of_recv hm).1
  | _ => exact (show w' = w from hm) ▸ .refl w

/-- The base of every invariant: what has been said is candid, and the package is where it was. -/
structure Honest (cfg : ServerConfig) (m : Manifest) (content path : Bytes) (w : SessionWorld) :
    Prop where
  candid : Candid cfg m content w.wire.ins w.wire.outs
  package : w.files.disk path = some content

theorem Honest.onward (h : Honest cfg m content path w) (ho : Onward w w') :
    Honest cfg m content path w' := by
  obtain ⟨more, hmore, hplain⟩ := ho.outs
  refine ⟨?_, ho.files ▸ h.package⟩
  rw [hmore]
  exact (h.candid.append hplain).mono ho.ins.subset (List.prefix_refl _)

theorem candidCall_of_plain {o : ServerOp} (ho : plain o) (h : Honest cfg m content path w) :
    candidCall cfg m content w o := by
  cases o with
  | protoSend f =>
      refine h.candid.append fun g hg => ?_
      rw [List.mem_singleton.mp hg]
      exact ho
  | _ => trivial

/-- What plain calls do not change. -/
structure Steady (cfg : ServerConfig) (m : Manifest) (content path : Bytes)
    (J : SessionWorld → Prop) : Prop where
  honest : ∀ {w}, J w → Honest cfg m content path w
  onward : ∀ {w w'}, J w → Onward w w' → J w'

/-- Plain calls do not change the files. -/
theorem Steady.files {J : SessionWorld → Prop} (hJ : Steady cfg m content path J)
    (P : FileSystem Bytes → Prop) : Steady cfg m content path (fun w => J w ∧ P w.files) :=
  ⟨fun h => hJ.honest h.1, fun h ho => ⟨hJ.onward h.1 ho, ho.files ▸ h.2⟩⟩

theorem steady_honest : Steady cfg m content path (Honest cfg m content path) := ⟨id, Honest.onward⟩

/-- A call from a steady state. -/
theorem safe_steady {J : SessionWorld → Prop} (hJ : Steady cfg m content path J) (h : J w)
    {o : ServerOp} {k : ServerOp.Res o → ServerProg α} {Q : α → SessionWorld → Prop}
    (hk : ∀ w, J w → candidCall cfg m content w o ∧ ∀ r w', (servingEnv (· = m)).may w o r w' →
      Safe (servingEnv (· = m)) (candidCall cfg m content) Q (k r) w') :
    Safe (servingEnv (· = m)) (candidCall cfg m content) Q (.call o k) w :=
  fun _ hd => hk _ (hJ.onward h (onward_of_drift hd))

/-- A plain call. -/
theorem safe_plain_call {J : SessionWorld → Prop} (hJ : Steady cfg m content path J) (h : J w)
    {o : ServerOp} (ho : plain o) {k : ServerOp.Res o → ServerProg α} {Q : α → SessionWorld → Prop}
    (hk : ∀ r w', J w' → Safe (servingEnv (· = m)) (candidCall cfg m content) Q (k r) w') :
    Safe (servingEnv (· = m)) (candidCall cfg m content) Q (.call o k) w :=
  safe_steady hJ h fun _ h => ⟨candidCall_of_plain ho (hJ.honest h),
    fun r _ hm => hk r _ (hJ.onward h (onward_of_plain ho hm))⟩

theorem safe_steady_ret {J : SessionWorld → Prop} (hJ : Steady cfg m content path J) (h : J w)
    {a : α} {Q : α → SessionWorld → Prop} (hQ : ∀ w, J w → Q a w) :
    Safe (servingEnv (· = m)) (candidCall cfg m content) Q (.ret a) w :=
  fun _ hd => hQ _ (hJ.onward h (onward_of_drift hd))

/-- A part that makes only plain calls. -/
theorem safe_of_plain {J : SessionWorld → Prop} (hJ : Steady cfg m content path J)
    {p : ServerProg α} (hp : p.Only plain) (h : J w) :
    Safe (servingEnv (· = m)) (candidCall cfg m content) (fun _ => J) p w := by
  induction p generalizing w with
  | ret a => exact safe_steady_ret hJ h fun _ h => h
  | call o k ih => exact safe_plain_call hJ h hp.1 fun r _ h => ih r (hp.2 r) h
  | spin => trivial

/-- A part at the end that makes only plain calls. -/
theorem safe_of_plain_end {p : ServerProg α} (hp : p.Only plain)
    (h : Honest cfg m content path w) :
    Safe (servingEnv (· = m)) (candidCall cfg m content) (fun _ => Honest cfg m content path) p w :=
  safe_of_plain steady_honest hp h

/-- `recv_control`: a frame has been read, or none. -/
theorem safe_recvControl {J : SessionWorld → Prop} (hJ : Steady cfg m content path J) (h : J w)
    {k : Option (MsgType × Bytes) → ServerProg α} {Q : α → SessionWorld → Prop}
    (hnone : ∀ w', J w' → Safe (servingEnv (· = m)) (candidCall cfg m content) Q (k none) w')
    (hsome : ∀ f w', J w' → f ∈ w'.wire.ins →
      Safe (servingEnv (· = m)) (candidCall cfg m content) Q (k (some (f.type, f.payload))) w') :
    Safe (servingEnv (· = m)) (candidCall cfg m content) Q (Server.recvControl >>= k) w := by
  unfold Server.recvControl
  simp only [Prog.call_bind]
  refine safe_steady hJ h fun w h => ⟨trivial, fun r w' hm => ?_⟩
  obtain ⟨honward, -, hin⟩ := onward_of_recv hm
  have h' := hJ.onward h honward
  cases r with
  | ok f => exact hsome f w' h' (hin f rfl)
  | eof | bad | tooLarge =>
      refine safe_steady hJ h' fun _ h => ⟨trivial, fun _ w' hm => hnone w' ?_⟩
      exact hJ.onward h (onward_of_plain (o := .logMsg ..) trivial hm)

/-! ### The stream -/

/-- Nothing of the package has been said. -/
structure Quiet (cfg : ServerConfig) (m : Manifest) (content path : Bytes) (w : SessionWorld) :
    Prop where
  honest : Honest cfg m content path w
  silent : ∀ f ∈ w.wire.outs, f.type ≠ .data ∧ f.type ≠ .transferDone

theorem steady_quiet : Steady cfg m content path (Quiet cfg m content path) := by
  refine ⟨Quiet.honest, fun h ho => ⟨h.honest.onward ho, ?_⟩⟩
  obtain ⟨more, hmore, hplain⟩ := ho.outs
  rw [hmore]
  intro f hf
  rcases List.mem_append.mp hf with hf | hf
  · exact h.silent f hf
  · exact ⟨(hplain f hf).1, (hplain f hf).2.1⟩

/-- The package has been streamed from `offset` to `sent`. -/
structure StreamedTo (cfg : ServerConfig) (m : Manifest) (content path : Bytes)
    (offset sent : ℕ) (w : SessionWorld) : Prop where
  honest : Honest cfg m content path w
  asked : ∃ r ∈ w.wire.ins, r.type = .downloadReq ∧ requestedOffset m r.payload = offset
  data : dataOf w.wire.outs = (content.drop offset).take (sent - offset)
  undone : ∀ f ∈ w.wire.outs, f.type ≠ .transferDone
  range : offset ≤ sent ∧ sent ≤ content.length

variable {offset sent : ℕ}

theorem steady_streamedTo : Steady cfg m content path (StreamedTo cfg m content path offset sent) := by
  refine ⟨StreamedTo.honest, fun h ho => ⟨h.honest.onward ho, ?_, ?_, ?_, h.range⟩⟩
  · obtain ⟨r, hr, hasked⟩ := h.asked
    exact ⟨r, ho.ins.subset hr, hasked⟩
  · obtain ⟨more, hmore, hplain⟩ := ho.outs
    rw [hmore, dataOf_append, dataOf_eq_nil fun f hf => (hplain f hf).1, List.append_nil, h.data]
  · obtain ⟨more, hmore, hplain⟩ := ho.outs
    rw [hmore]
    intro f hf
    rcases List.mem_append.mp hf with hf | hf
    · exact h.undone f hf
    · exact (hplain f hf).2.1

/-- So it is while `fp` is at `pos`. -/
def ReadingFrom (cfg : ServerConfig) (m : Manifest) (content path : Bytes) (fp : Handle)
    (offset sent pos : ℕ) (w : SessionWorld) : Prop :=
  StreamedTo cfg m content path offset sent w ∧ w.files.Reading fp (content.drop pos)

variable {fp : Handle} {pos : ℕ}

theorem steady_readingFrom :
    Steady cfg m content path (ReadingFrom cfg m content path fp offset sent pos) :=
  steady_streamedTo.files fun fs => fs.Reading fp (content.drop pos)

/-- The files have changed, but not the package. -/
theorem StreamedTo.keeps (h : StreamedTo cfg m content path offset sent w)
    {fs : FileSystem Bytes} (hdisk : fs.disk = w.files.disk) :
    StreamedTo cfg m content path offset sent { w with files := fs } :=
  ⟨⟨h.honest.candid, (congrFun hdisk path).trans h.honest.package⟩, h.asked, h.data, h.undone,
    h.range⟩

/-- The part that comes next. -/
theorem StreamedTo.next (h : StreamedTo cfg m content path offset sent w) (n : ℕ) :
    dataOf w.wire.outs ++ (content.drop sent).take n =
      (content.drop offset).take (sent + n - offset) := by
  obtain ⟨hle, -⟩ := h.range
  rw [h.data, show sent + n - offset = (sent - offset) + n by omega, List.take_add, List.drop_drop,
    Nat.add_sub_cancel' hle]

section Frame

variable {flags : UInt8} {buf : Bytes}

/-- A `DATA` frame may be heard if it goes on where the stream is. -/
theorem StreamedTo.candid (h : StreamedTo cfg m content path offset sent w)
    (hbuf : buf = (content.drop sent).take buf.length) :
    Candid cfg m content w.wire.ins (w.wire.outs ++ [⟨.data, flags, buf⟩]) := by
  obtain ⟨r, hr, htype, rfl⟩ := h.asked
  refine ⟨fun f hf hoffer => ?_, .inr ⟨r, hr, htype, .data_snoc h.undone ?_⟩⟩
  · rcases List.mem_append.mp hf with hf | hf
    · exact h.honest.candid.offers f hf hoffer
    · cases List.mem_singleton.mp hf
      cases hoffer
  · rw [hbuf, h.next]
    exact List.take_prefix ..

/-- A `DATA` frame that has been sent takes the stream on. -/
theorem StreamedTo.data_sent (h : StreamedTo cfg m content path offset sent w)
    (hbuf : buf = (content.drop sent).take buf.length) :
    StreamedTo cfg m content path offset (sent + buf.length)
      { w with wire := w.wire.sent ⟨.data, flags, buf⟩ } := by
  have hrange := h.range
  have hlen : buf.length ≤ content.length - sent := by
    have htake := congrArg List.length hbuf
    rw [List.length_take, List.length_drop] at htake
    omega
  refine ⟨⟨h.candid hbuf, h.honest.package⟩, h.asked, ?_, fun f hf => ?_, ?_⟩
  · show dataOf (w.wire.outs ++ [⟨.data, flags, buf⟩]) = _
    rw [dataOf_append, dataOf_data, ← h.next, ← hbuf]
  · rcases List.mem_append.mp hf with hf | hf
    · exact h.undone f hf
    · cases List.mem_singleton.mp hf
      nofun
  · omega

end Frame

/-- Where a round of the chunk loop leaves the stream. -/
def AfterChunk (cfg : ServerConfig) (m : Manifest) (content path : Bytes) (fp : Handle)
    (offset : ℕ) (w : SessionWorld) : ℕ ⊕ Bool → Prop
  | .inl sent => ReadingFrom cfg m content path fp offset sent sent w
  | .inr rc => ∃ sent pos, ReadingFrom cfg m content path fp offset sent pos w ∧
      (rc = true → sent = content.length)

theorem streamRound_candid (chunkSize delay hold : ℕ)
    (h : ReadingFrom cfg m content path fp offset sent sent w) :
    Safe (servingEnv (· = m)) (candidCall cfg m content)
      (fun r w' => AfterChunk cfg m content path fp offset w' r)
      (streamRound fp content.length chunkSize delay hold sent) w := by
  unfold streamRound
  by_cases hmore : sent < content.length
  swap
  · simp only [hmore, not_false_eq_true, if_true]
    exact safe_steady_ret steady_readingFrom h fun _ h =>
      ⟨sent, sent, h, fun _ => Nat.le_antisymm h.1.range.2 (Nat.le_of_not_lt hmore)⟩
  simp only [hmore, not_true_eq_false, if_false, Prog.call_bind, Prog.ret_bind, file_call, file_ret]
  have hpause := (handlePauseIfRequested_listens hold sent).mono fun _ h =>
    plain_of_talks (talks_of_listens h)
  refine safe_bind.mpr ((safe_of_plain steady_readingFrom hpause h).post fun go w₁ h₁ => ?_)
  cases go with
  | false => exact safe_steady_ret steady_readingFrom h₁ fun _ h => ⟨sent, sent, h, nofun⟩
  | true =>
      refine safe_steady steady_readingFrom h₁ fun w₂ h₂ => ⟨trivial, fun read w₃ hread => ?_⟩
      obtain ⟨fs, hfs, rfl⟩ := hread
      obtain ⟨buf, ferror⟩ := read
      obtain ⟨hbuf, -, hleft, hdisk⟩ := h₂.2.may_fread hfs
      rw [List.drop_drop] at hleft
      have h₃ : ReadingFrom cfg m content path fp offset sent (sent + buf.length)
          { w₂ with files := fs } := ⟨h₂.1.keeps hdisk, hleft⟩
      have hstop : ∀ {w'}, ReadingFrom cfg m content path fp offset sent (sent + buf.length) w' →
          Safe (servingEnv (· = m)) (candidCall cfg m content)
            (fun r w' => AfterChunk cfg m content path fp offset w' r) (.ret (.inr false)) w' :=
        fun h => safe_steady_ret steady_readingFrom h fun _ h => ⟨sent, _, h, nofun⟩
      by_cases hnone : buf.length = 0
      · simp only [if_pos hnone]
        exact hstop h₃
      simp only [if_neg hnone]
      refine safe_steady steady_readingFrom h₃ fun w₄ h₄ => ⟨h₄.1.candid hbuf, fun ok w₅ hsend => ?_⟩
      obtain ⟨_, hsend, rfl⟩ := hsend
      cases hsend with
      | failed _ => exact hstop h₄
      | sent _ =>
          have h₅ : ∀ flags, ReadingFrom cfg m content path fp offset (sent + buf.length)
              (sent + buf.length) { w₄ with wire := w₄.wire.sent ⟨.data, flags, buf⟩ } :=
            fun flags => ⟨h₄.1.data_sent hbuf, h₄.2⟩
          -- the counter, the delay, and then the next round unless `fread` has failed
          have hnext : ∀ {w'}, ReadingFrom cfg m content path fp offset (sent + buf.length)
              (sent + buf.length) w' → Safe (servingEnv (· = m)) (candidCall cfg m content)
                (fun r w' => AfterChunk cfg m content path fp offset w' r)
                (if buf.length < min (content.length - sent) chunkSize ∧ ferror = true
                  then .ret (.inr false) else .ret (.inl (sent + buf.length))) w' := by
            intro w' h
            split
            · exact safe_steady_ret steady_readingFrom h fun _ h => ⟨_, _, h, nofun⟩
            · exact safe_steady_ret steady_readingFrom h fun _ h => h
          refine safe_plain_call steady_readingFrom (h₅ _) (by trivial) fun _ w₆ h₆ => ?_
          split
          · exact safe_plain_call steady_readingFrom h₆ (by trivial) fun _ w₇ h₇ => hnext h₇
          · exact hnext h₆

/-- Where `pkg_stream_file` leaves the session. -/
def AfterStream (cfg : ServerConfig) (m : Manifest) (content path : Bytes) (offset : ℕ)
    (rc : Bool) (w : SessionWorld) : Prop :=
  Honest cfg m content path w ∧
    (rc = true → StreamedTo cfg m content path offset content.length w)

/-- `pkg_stream_file` streams the package, from the offset it was asked for. -/
theorem pkgStreamFile_candid {r : Frame} (chunkSize delay hold : ℕ)
    (h : Quiet cfg m content path w) (hasked : r ∈ w.wire.ins) (htype : r.type = .downloadReq) :
    Safe (servingEnv (· = m)) (candidCall cfg m content)
      (AfterStream cfg m content path (requestedOffset m r.payload))
      (pkgStreamFile path (requestedOffset m r.payload) chunkSize delay hold) w := by
  -- a way out with `rc = -1`
  have hout : ∀ {J : SessionWorld → Prop}, Steady cfg m content path J → ∀ {w'}, J w' →
      Safe (servingEnv (· = m)) (candidCall cfg m content)
        (AfterStream cfg m content path (requestedOffset m r.payload))
        (.ret false) w' :=
    fun hJ _ h => safe_steady_ret hJ h fun _ h => ⟨hJ.honest h, nofun⟩
  unfold pkgStreamFile pkgFileSize
  simp only [Prog.call_bind, Prog.ret_bind, file_call, file_ret]
  have hJ : Steady cfg m content path
      (fun w => Quiet cfg m content path w ∧ r ∈ w.wire.ins) :=
    ⟨fun h => h.1.honest, fun h ho => ⟨steady_quiet.onward h.1 ho, ho.ins.subset h.2⟩⟩
  refine safe_steady hJ ⟨h, hasked⟩ fun w₁ h₁ => ⟨trivial, fun found w₂ hstat => ?_⟩
  obtain ⟨fs, hfs, rfl⟩ := hstat
  obtain ⟨rfl, hfound⟩ := FileSystem.may_stat hfs
  rw [h₁.1.honest.package] at hfound
  rcases hfound with rfl | rfl
  · exact hout hJ h₁
  simp only [Option.map_some]
  by_cases hargs : requestedOffset m r.payload > content.length ∨ chunkSize < minChunkSize ∨
      chunkSize > maxChunkSize
  · simp only [if_pos hargs]
    exact hout hJ h₁
  simp only [if_neg hargs]
  have hle : requestedOffset m r.payload ≤ content.length :=
    Nat.le_of_not_lt fun h => hargs (.inl h)
  have h₂ : StreamedTo cfg m content path (requestedOffset m r.payload)
      (requestedOffset m r.payload) w₁ := by
    refine ⟨h₁.1.honest, ⟨r, h₁.2, htype, rfl⟩, ?_, fun f hf => (h₁.1.silent f hf).2, le_rfl, hle⟩
    rw [dataOf_eq_nil fun f hf => (h₁.1.silent f hf).1, Nat.sub_self, List.take_zero]
  refine safe_steady steady_streamedTo h₂ fun w₃ h₃ => ⟨trivial, fun fp w₄ hopen => ?_⟩
  obtain ⟨fs₄, hopen, rfl⟩ := hopen
  cases fp with
  | none =>
      rcases FileSystem.may_fopen_r hopen with ⟨-, rfl⟩ | ⟨c, -, hh, -⟩
      · exact hout steady_streamedTo h₃
      · cases hh
  | some fp =>
      obtain ⟨hread₄, hdisk₄⟩ := FileSystem.may_fopen_reading h₃.honest.package hopen
      refine safe_steady (steady_streamedTo.files (· = fs₄)) ⟨h₃.keeps hdisk₄, rfl⟩
        fun w₅ h₅ => ⟨trivial, fun ok w₆ hseek => ?_⟩
      obtain ⟨h₅, rfl⟩ := h₅
      obtain ⟨fs₆, hseek, rfl⟩ := hseek
      obtain ⟨hread₆, hdisk₆⟩ := hread₄.may_fseeko hseek
      -- the stream is closed, and the function left
      have hclose : ∀ {sent : ℕ} {w' : SessionWorld},
          StreamedTo cfg m content path (requestedOffset m r.payload) sent w' ∧
            (∃ text, w'.files.Reading fp text) →
          Safe (servingEnv (· = m)) (candidCall cfg m content)
            (AfterStream cfg m content path (requestedOffset m r.payload))
            (.call (.file (.fclose fp)) fun _ => .ret false) w' := by
        intro sent w' h
        refine safe_steady (steady_streamedTo.files fun fs => ∃ text, fs.Reading fp text) h
          fun w h => ⟨trivial, fun _ w' hm => ?_⟩
        obtain ⟨fs, hfs, rfl⟩ := hm
        obtain ⟨text, hr⟩ := h.2
        exact hout steady_streamedTo (h.1.keeps (hr.may_fclose hfs))
      cases ok with
      | false => exact hclose ⟨h₅.keeps hdisk₆, hread₆⟩
      | true =>
          have h₆ : ReadingFrom cfg m content path fp (requestedOffset m r.payload)
              (requestedOffset m r.payload) (requestedOffset m r.payload)
              { w₅ with files := fs₆ } :=
            ⟨h₅.keeps hdisk₆, FileSystem.may_fopen_fseeko h₃.honest.package hopen hseek⟩
          refine safe_plain_call steady_readingFrom h₆ (by trivial) fun buf w₇ h₇ => ?_
          cases buf with
          | false => exact hclose ⟨h₇.1, _, h₇.2⟩
          | true =>
              refine safe_bind.mpr (Safe.post (Q := fun rc w' =>
                AfterChunk cfg m content path fp (requestedOffset m r.payload) w' (.inr rc))
                (safe_loop _ trivial (fun sent w => ReadingFrom cfg m content path fp
                  (requestedOffset m r.payload) sent sent w) ?_ _ h₇) fun rc w₈ h₈ => ?_)
              · intro sent w' h
                refine (streamRound_candid chunkSize delay hold h).post fun r' w'' h => ?_
                cases r' with
                | inl sent => exact h
                | inr rc =>
                    obtain ⟨sent, pos, h, hend⟩ := h
                    show Safe (servingEnv (· = m)) (candidCall cfg m content) (fun rc w' =>
                      AfterChunk cfg m content path fp (requestedOffset m r.payload) w' (.inr rc))
                      (.ret rc) w''
                    exact safe_steady_ret steady_readingFrom h fun _ h => ⟨sent, pos, h, hend⟩
              · obtain ⟨sent, pos, h₈, hend⟩ := h₈
                refine safe_plain_call steady_readingFrom h₈ (by trivial) fun _ w₉ h₉ => ?_
                cases rc with
                | false => exact hclose ⟨h₉.1, _, h₉.2⟩
                | true =>
                    cases hend rfl
                    refine safe_steady steady_readingFrom h₉ fun w₁₀ h₁₀ =>
                      ⟨trivial, fun _ w₁₁ hm => ?_⟩
                    obtain ⟨fs, hfs, rfl⟩ := hm
                    have h₁₁ := h₁₀.1.keeps (h₁₀.2.may_fclose hfs)
                    refine safe_plain_call steady_streamedTo h₁₁ (by trivial) fun _ w₁₂ h₁₂ => ?_
                    exact safe_steady_ret steady_streamedTo h₁₂ fun _ h => ⟨h.honest, fun _ => h⟩

/-! ### The session -/

/-- A frame that may be heard, and is sent. -/
theorem Honest.send (h : Honest cfg m content path w) {f : Frame} {r : Bool}
    (hc : Candid cfg m content w.wire.ins (w.wire.outs ++ [f]))
    (hm : (servingEnv (· = m)).may w (.protoSend f) r w') : Honest cfg m content path w' := by
  obtain ⟨_, hs, rfl⟩ := hm
  cases hs with
  | sent _ => exact ⟨hc, h.package⟩
  | failed _ => exact h

theorem finishTransfer_candid (clientId : Bytes)
    (h : StreamedTo cfg m content path offset content.length w) :
    Safe (servingEnv (· = m)) (candidCall cfg m content) (fun _ => Honest cfg m content path)
      (finishTransfer m clientId offset) w := by
  unfold finishTransfer
  simp only [Prog.call_bind, Prog.ret_bind]
  refine safe_steady steady_streamedTo h fun w₁ h₁ => ?_
  have hc : Candid cfg m content w₁.wire.ins (w₁.wire.outs ++ [doneFrame m]) := by
    obtain ⟨r, hr, htype, rfl⟩ := h₁.asked
    refine ⟨fun f hf hoffer => ?_, .inr ⟨r, hr, htype, .done_snoc h₁.undone ?_⟩⟩
    · rcases List.mem_append.mp hf with hf | hf
      · exact h₁.honest.candid.offers f hf hoffer
      · cases List.mem_singleton.mp hf
        cases hoffer
    · rw [h₁.data]
      exact List.take_of_length_le (Nat.le_of_eq (List.length_drop ..))
  refine ⟨hc, fun ok w₂ hsend => safe_of_plain_end ?_ (h₁.honest.send hc hsend)⟩
  cases ok with
  | false => trivial
  | true =>
      have bye : (Server.protoSend (emptyFrame .bye)).Only plain :=
        .call ⟨nofun, nofun, nofun⟩ fun _ => trivial
      refine (recvControl_listens.mono fun _ h => plain_of_talks (talks_of_listens h)).bind fun r => ?_
      split
      · split
        · exact .call trivial fun _ => .call trivial fun _ => bye
        · exact .call trivial fun _ => .call trivial fun _ => bye
      · trivial

/-- A refusal. -/
theorem refuses {code message : Bytes} : (Prog.call (E := serverInterface)
    (.protoSend (errorFrame code message)) fun _ => .ret false).Only plain :=
  .call ⟨nofun, nofun, nofun⟩ fun _ => trivial

theorem offerUpdate_candid (clientId current : Bytes)
    (hpath : pkgResolvePath cfg.packageDir m.packageFile (maxPathLen * 2) = some path)
    (h : Quiet cfg m content path w) :
    Safe (servingEnv (· = m)) (candidCall cfg m content) (fun _ => Honest cfg m content path)
      (offerUpdate cfg m clientId current) w := by
  unfold offerUpdate
  simp only [hpath, Prog.call_bind, Prog.ret_bind]
  refine safe_plain_call steady_quiet h (by trivial) fun _ w₁ h₁ => ?_
  refine safe_steady steady_quiet h₁ fun w₂ h₂ => ?_
  have hquiet : ∀ f ∈ w₂.wire.outs ++ [offerFrame cfg m],
      f.type ≠ .data ∧ f.type ≠ .transferDone := by
    intro f hf
    rcases List.mem_append.mp hf with hf | hf
    · exact h₂.silent f hf
    · cases List.mem_singleton.mp hf
      exact ⟨nofun, nofun⟩
  have hc : Candid cfg m content w₂.wire.ins (w₂.wire.outs ++ [offerFrame cfg m]) := by
    refine ⟨fun f hf hoffer => ?_, .inl hquiet⟩
    rcases List.mem_append.mp hf with hf | hf
    · exact h₂.honest.candid.offers f hf hoffer
    · exact List.mem_singleton.mp hf
  refine ⟨hc, fun ok w₃ hsend => ?_⟩
  have h₃ := h₂.honest.send hc hsend
  cases ok with
  | false => exact safe_of_plain_end trivial h₃
  | true =>
      have h₃' : Quiet cfg m content path w₃ := by
        refine ⟨h₃, ?_⟩
        obtain ⟨_, hs, rfl⟩ := hsend
        cases hs
        exact hquiet
      refine safe_recvControl steady_quiet h₃' (fun w₄ h₄ => ?_) fun f w₄ h₄ hf => ?_
      · exact safe_of_plain_end refuses h₄.honest
      obtain ⟨type, flags, payload⟩ := f
      cases type with
      | downloadReq =>
          by_cases hoff : requestedOffset m payload > m.packageSize
          · rw [requestedOffset] at hoff
            simp only [if_pos hoff]
            exact safe_of_plain_end refuses h₄.honest
          rw [requestedOffset] at hoff
          simp only [if_neg hoff]
          have hJ : Steady cfg m content path (fun w => Quiet cfg m content path w ∧
              (⟨.downloadReq, flags, payload⟩ : Frame) ∈ w.wire.ins) :=
            ⟨fun h => h.1.honest, fun h ho => ⟨steady_quiet.onward h.1 ho, ho.ins.subset h.2⟩⟩
          refine safe_plain_call hJ ⟨h₄, hf⟩ (by trivial) fun _ w₅ h₅ => safe_bind.mpr ?_
          refine (pkgStreamFile_candid cfg.chunkSize cfg.packetDelayUs cfg.pauseHoldTimeoutSec h₅.1
            h₅.2 rfl).post fun streamed w₆ h₆ => ?_
          cases streamed with
          | false => exact safe_of_plain_end (.call trivial fun _ => .call trivial fun _ => trivial) h₆.1
          | true =>
              exact safe_plain_call steady_streamedTo (h₆.2 rfl) (by trivial) fun _ w₇ h₇ =>
                finishTransfer_candid clientId h₇
      | _ => exact safe_of_plain_end refuses h₄.honest

theorem reservedSession_candid (clientInfo clientId : Bytes)
    (hpath : pkgResolvePath cfg.packageDir m.packageFile (maxPathLen * 2) = some path)
    (h : Quiet cfg m content path w) :
    Safe (servingEnv (· = m)) (candidCall cfg m content) (fun _ => Honest cfg m content path)
      (reservedSession cfg clientInfo clientId) w := by
  have refuse : ∀ {code message : Bytes}, (Prog.call (E := serverInterface) (.statsAdd .errors 1)
      fun _ => .call (.protoSend (errorFrame code message)) fun _ => .ret false).Only plain :=
    .call trivial fun _ => refuses
  unfold reservedSession
  simp only [Prog.call_bind, Prog.ret_bind]
  have hok : plain (.protoSend (emptyFrame .authOk)) := ⟨nofun, nofun, nofun⟩
  refine safe_plain_call steady_quiet h hok fun ok w₁ h₁ => ?_
  cases ok with
  | false => exact safe_of_plain_end trivial h₁.honest
  | true =>
      refine safe_plain_call steady_quiet h₁ (by trivial) fun _ w₂ h₂ => ?_
      refine safe_recvControl steady_quiet h₂ (fun w₃ h₃ => ?_) fun f w₃ h₃ _ => ?_
      · exact safe_of_plain_end refuses h₃.honest
      obtain ⟨type, flags, payload⟩ := f
      cases type with
      | versionReq =>
          dsimp only
          cases kvGet payload (ascii "cur") maxVersionStr with
          | none => exact safe_of_plain_end refuse h₃.honest
          | some current =>
              dsimp only
              split
              · exact safe_of_plain_end refuse h₃.honest
              refine safe_steady steady_quiet h₃ fun w₄ h₄ => ⟨trivial, fun snapshot w₅ hm => ?_⟩
              obtain ⟨hsnap, rfl⟩ := hm
              have hcase : snapshot = none ∨ snapshot = some m := by
                cases snapshot with
                | none => exact .inl rfl
                | some latest => exact .inr (congrArg some (hsnap latest rfl))
              rcases hcase with rfl | rfl
              · exact safe_of_plain_end refuses h₄.honest
              cases hcmp : verCompareText current m.latestVersion with
              | none =>
                  simp only [hcmp]
                  exact safe_of_plain_end refuses h₄.honest
              | some cmp =>
                  simp only [hcmp]
                  split
                  · refine safe_of_plain_end (.call trivial fun _ => .call trivial fun _ => ?_)
                      h₄.honest
                    refine .call ⟨nofun, nofun, nofun⟩ fun ok => ?_
                    cases ok with
                    | true => exact .call ⟨nofun, nofun, nofun⟩ fun _ => trivial
                    | false => trivial
                  · exact offerUpdate_candid clientId current hpath h₄
      | _ => exact safe_of_plain_end refuses h₃.honest

/-- **A session says nothing but the truth of its package**, whatever it hears and whatever fails. -/
theorem handleClientSession_candid (clientInfo : Bytes)
    (hpath : pkgResolvePath cfg.packageDir m.packageFile (maxPathLen * 2) = some path)
    (h : Quiet cfg m content path w) :
    Safe (servingEnv (· = m)) (candidCall cfg m content) (fun _ => Honest cfg m content path)
      (handleClientSession cfg clientInfo) w := by
  have refuse : ∀ {code message text : Bytes}, (Prog.call (E := serverInterface)
      (.logMsg .warn text) fun _ => .call (.protoSend (errorFrame code message))
        fun _ => .ret false).Only plain :=
    .call trivial fun _ => refuses
  unfold handleClientSession
  simp only [Prog.call_bind, Prog.ret_bind]
  have hhello : plain (.protoSend (textFrame .hello (ascii "srv=updctl;proto=1"))) :=
    ⟨nofun, nofun, nofun⟩
  refine safe_plain_call steady_quiet h hhello fun ok w₁ h₁ => ?_
  cases ok with
  | false => exact safe_of_plain_end trivial h₁.honest
  | true =>
      have htalks := (authenticateClient_talks cfg).mono fun _ => plain_of_talks
      refine safe_bind.mpr ((safe_of_plain steady_quiet htalks h₁).post fun r w₂ h₂ => ?_)
      cases r with
      | none => exact safe_of_plain_end trivial h₂.honest
      | some clientId =>
          refine safe_plain_call steady_quiet h₂ (by trivial) fun reservation w₃ h₃ => ?_
          cases reservation with
          | duplicate => exact safe_of_plain_end refuse h₃.honest
          | full => exact safe_of_plain_end refuse h₃.honest
          | reserved =>
              refine safe_bind.mpr ((reservedSession_candid clientInfo clientId hpath h₃).post
                fun rc w₄ h₄ => ?_)
              exact safe_of_plain_end (.call trivial fun _ => trivial) h₄

end Session

end UpdateFramework.System
