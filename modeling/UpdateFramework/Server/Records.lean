import UpdateFramework.Common.LogRecord
import UpdateFramework.Common.Payload
import UpdateFramework.Common.Tls
import UpdateFramework.Common.VersionOrder
import UpdateFramework.Libc.Blank
import UpdateFramework.Server.Conversation
import UpdateFramework.Server.Reload

/-!
# Server — what a session writes to the log

A session logs values its peer has chosen: the id of the `AUTH` frame, beside the name in the
certificate, and the status of the `RESULT` frame.  Each message is one line of the log exactly if
none of these has a newline (`one_record_one_line_iff`); whatever else is logged has none.
-/

namespace UpdateFramework.Server

open Libc Process

/-! ### Texts from files -/

/-- A value of a configuration file, or a default without a newline. -/
def Configured (v : Bytes) : Prop :=
  ∃ (lines : List Bytes) (cfg : Cfg), lines.foldlM cfgLine [] = some cfg ∧
    ∃ key fallback n, 10 ∉ fallback ∧ v = cfgCopyStr cfg key fallback n

/-- The entry a line adds is without a newline. -/
theorem cfgLine_newlines {cfg cfg' : Cfg} {line : Bytes} (h : cfgLine cfg line = some cfg')
    (hcfg : ∀ entry ∈ cfg, 10 ∉ entry.2) : ∀ entry ∈ cfg', 10 ∉ entry.2 := by
  have hstrip : ∀ {s : Bytes}, 10 ∉ s → 10 ∉ strip s := by
    intro s h hm
    have hsub := List.IsPrefix.subset <| strip_isPrefix s
    exact h ((List.dropWhile_sublist _).subset (hsub hm))
  have hcut : ∀ s : Bytes, 10 ∉ cutLine s := fun s hm => by
    simpa using List.mem_takeWhile_imp hm
  unfold cfgLine trimAscii at h
  dsimp only at h
  split at h
  · exact Option.some.inj h ▸ hcfg
  split at h
  · cases h
  split at h
  · cases h
  rw [cfgSet] at h
  split at h
  · cases h
  split at h
  · cases h
  · obtain rfl := Option.some.inj h
    intro entry hm
    rcases List.mem_append.mp hm with hm | hm
    · exact hcfg entry hm
    · obtain rfl := List.mem_singleton.mp hm
      intro h10
      have hvalue := List.mem_of_mem_take h10
      refine hstrip (fun hm => ?_) hvalue
      exact hstrip (hcut _) ((List.dropWhile_sublist _).subset (List.mem_of_mem_tail hm))

theorem foldlM_newlines {lines : List Bytes} {cfg cfg' : Cfg}
    (h : lines.foldlM cfgLine cfg = some cfg') (hcfg : ∀ entry ∈ cfg, 10 ∉ entry.2) :
    ∀ entry ∈ cfg', 10 ∉ entry.2 := by
  induction lines generalizing cfg with
  | nil => exact Option.some.inj h ▸ hcfg
  | cons line lines ih =>
      rw [List.foldlM_cons] at h
      obtain ⟨cfg₁, hline, hrest⟩ := Option.bind_eq_some_iff.mp h
      exact ih hrest (cfgLine_newlines hline hcfg)

theorem Configured.newline {v : Bytes} (h : Configured v) : 10 ∉ v := by
  obtain ⟨lines, cfg, hread, key, fallback, n, hfallback, rfl⟩ := h
  intro hm
  have hm := List.mem_of_mem_take hm
  rw [cfgGet] at hm
  cases hfind : cfg.find? fun entry => entry.1 = key with
  | none =>
      rw [hfind] at hm
      exact hfallback hm
  | some entry =>
      rw [hfind] at hm
      exact foldlM_newlines hread (fun _ h => absurd h List.not_mem_nil) entry
        (List.mem_of_find?_eq_some hfind) hm

/-- What a reload publishes is configured. -/
theorem Built.configured {packageDir : Bytes} {tr : VmHistory} {cfg : Cfg} {m : VersionManifest}
    (h : Built packageDir tr cfg m) : Configured m.packageFile :=
  ⟨_, cfg, h.entries, _, [], _, List.not_mem_nil, h.packageFile⟩

/-! ### The condition -/

/-- What a call logs shows no newline. -/
def Plain : Call serverInterface → Prop
  | ⟨.logMsg _ text, _⟩ => 10 ∉ shownMessage text
  | _ => True

/-- The values a session logs of an answer, to what it asked for last, have no newline: the id of
the `AUTH` frame and the name in the certificate, and the status of the `RESULT` frame. -/
def PlainAnswer : Call serverInterface → Call serverInterface → Prop
  | ⟨.tlsPeerCommonName _, some certId⟩, ⟨.protoRecv _ _, .ok f⟩ =>
    f.type = .auth →
      ∀ clientId ∈ kvGet f.payload (ascii "id") maxIdLen, 10 ∉ clientId ∧ 10 ∉ certId
  | ⟨.protoSend g, true⟩, ⟨.protoRecv _ _, .ok f⟩ =>
    g.type = .transferDone → f.type = .result →
      ∀ status ∈ kvGet f.payload (ascii "status") 32, 10 ∉ status
  | _, _ => True

/-- The name is one as OpenSSL gives it, and the manifest was read from its file. -/
def Answered : Call serverInterface → Prop
  | ⟨.tlsPeerCommonName outLen, some certId⟩ => ∃ data, certId = shownName outLen data
  | ⟨.vmGetSnapshot, some manifest⟩ => Configured manifest.packageFile
  | _ => True

/-- Before a call: where the answers so far are plain, so is what is logged. -/
def logsPlain (tr : List (Call serverInterface)) : ServerOp → Prop
  | .logMsg _ text => tr.IsChain PlainAnswer → 10 ∉ shownMessage text
  | _ => True

/-- So far the answers are plain exactly if what was logged is, and `P` holds, which is still to be
logged; what was logged is plain only if these values are. -/
structure Level (P : Prop) (vs : List Bytes) (tr : List (Call serverInterface)) : Prop where
  calm : ∀ x ∈ tr.getLast?, ∀ y, PlainAnswer x y
  owed : tr.IsChain PlainAnswer ↔ (∀ x ∈ tr, Plain x) ∧ P
  known : (∀ x ∈ tr, Plain x) → ∀ v ∈ vs, 10 ∉ v

/-- What logs nothing but these values, and asks for none. -/
def sparing (vs : List Bytes) : ServerOp → Prop
  | .tlsPeerCommonName _ => False
  | .protoSend f => f.type ≠ .transferDone
  | .logMsg _ text => (∀ v ∈ vs, 10 ∉ v) → 10 ∉ text
  | _ => True

section Level

variable {P : Prop} {vs : List Bytes} {tr : List (Call serverInterface)}

theorem level_nil : Level True [] [] where
  calm := fun _ h => by cases h
  owed := iff_of_true .nil ⟨fun _ h => absurd h List.not_mem_nil, trivial⟩
  known := fun _ _ h => absurd h List.not_mem_nil

theorem Level.congr {P' : Prop} (h : Level P vs tr) (hP : P ↔ P') : Level P' vs tr where
  calm := h.calm
  owed := h.owed.trans (and_congr_right fun _ => hP)
  known := h.known

/-- Nothing is still to be logged. -/
abbrev Even (tr : List (Call serverInterface)) : Prop := Level True [] tr

theorem Level.even (h : Level True vs tr) : Even tr :=
  ⟨h.calm, h.owed, fun _ _ hm => absurd hm List.not_mem_nil⟩

theorem isChain_snoc {x : Call serverInterface} : (tr ++ [x]).IsChain PlainAnswer ↔
    tr.IsChain PlainAnswer ∧ ∀ l ∈ tr.getLast?, PlainAnswer l x := by
  rw [List.isChain_append]
  simp

theorem forall_snoc {x : Call serverInterface} :
    (∀ y ∈ tr ++ [x], Plain y) ↔ (∀ y ∈ tr, Plain y) ∧ Plain x := by
  rw [List.forall_mem_append, List.forall_mem_singleton]

theorem calm_snoc {x : Call serverInterface} (hx : ∀ y, PlainAnswer x y) :
    ∀ l ∈ (tr ++ [x]).getLast?, ∀ y, PlainAnswer l y := by
  intro l hl
  rw [List.getLast?_concat, Option.mem_some_iff] at hl
  exact hl ▸ hx

theorem Level.snoc (h : Level P vs tr) {x : Call serverInterface}
    (hx : (∀ v ∈ vs, 10 ∉ v) → Plain x) (hcalm : ∀ y, PlainAnswer x y) :
    Level P vs (tr ++ [x]) where
  calm := calm_snoc hcalm
  owed := by
    rw [isChain_snoc, forall_snoc, h.owed]
    constructor
    · rintro ⟨⟨hall, hP⟩, -⟩
      exact ⟨⟨hall, hx (h.known hall)⟩, hP⟩
    · rintro ⟨⟨hall, -⟩, hP⟩
      exact ⟨⟨hall, hP⟩, fun l hl => h.calm l hl x⟩
  known := fun hall => h.known (forall_snoc.mp hall).1

/-- An answer to a question. -/
theorem Level.answered (h : Level True vs tr) {x y : Call serverInterface} (hx : Plain x)
    (hy : Plain y) (hcalm : ∀ z, PlainAnswer y z) :
    Level (PlainAnswer x y) vs (tr ++ [x] ++ [y]) where
  calm := calm_snoc hcalm
  owed := by
    rw [isChain_snoc, isChain_snoc, forall_snoc, forall_snoc, h.owed]
    simp only [List.getLast?_concat, Option.mem_some_iff, forall_eq', and_true, hx, hy]
    constructor
    · rintro ⟨⟨hall, -⟩, hxy⟩
      exact ⟨hall, hxy⟩
    · rintro ⟨hall, hxy⟩
      exact ⟨⟨hall, fun l hl => h.calm l hl x⟩, hxy⟩
  known := fun hall => h.known (forall_snoc.mp (forall_snoc.mp hall).1).1

/-- What was owed has been logged. -/
theorem Level.clear {ws : List Bytes} (h : Level P vs tr) {x : Call serverInterface}
    (hx : (∀ v ∈ vs, 10 ∉ v) → (Plain x ↔ P)) (hcalm : ∀ y, PlainAnswer x y)
    (hws : (∀ v ∈ vs, 10 ∉ v) → P → ∀ w ∈ ws, 10 ∉ w) : Level True ws (tr ++ [x]) where
  calm := calm_snoc hcalm
  owed := by
    rw [isChain_snoc, forall_snoc, h.owed, and_true]
    constructor
    · rintro ⟨⟨hall, hP⟩, -⟩
      exact ⟨hall, (hx (h.known hall)).mpr hP⟩
    · rintro ⟨hall, hplain⟩
      exact ⟨⟨hall, (hx (h.known hall)).mp hplain⟩, fun l hl => h.calm l hl x⟩
  known := by
    intro hall
    obtain ⟨hall, hplain⟩ := forall_snoc.mp hall
    exact hws (h.known hall) ((hx (h.known hall)).mp hplain)

theorem plain_of_sparing {o : ServerOp} (ho : sparing vs o) (r : ServerOp.Res o)
    (hvs : ∀ v ∈ vs, 10 ∉ v) : Plain ⟨o, r⟩ := by
  cases o with
  | logMsg level text => exact not_mem_shownMessage (ho hvs)
  | _ => trivial

theorem calm_of_sparing {o : ServerOp} (ho : sparing vs o) (r : ServerOp.Res o)
    (y : Call serverInterface) : PlainAnswer ⟨o, r⟩ y := by
  obtain ⟨o', r'⟩ := y
  cases o with
  | tlsPeerCommonName n => exact ho.elim
  | protoSend f =>
      cases r with
      | false => trivial
      | true =>
          cases o' with
          | protoRecv _ _ =>
              cases r' with
              | ok g => exact fun hdone => absurd hdone ho
              | _ => trivial
          | _ => trivial
  | _ => trivial

theorem guard_of_sparing (h : Level P vs tr) {o : ServerOp} (ho : sparing vs o) :
    logsPlain tr o := by
  cases o with
  | logMsg level text =>
      exact fun hchain => not_mem_shownMessage (ho (h.known (h.owed.mp hchain).1))
  | _ => trivial

variable {α : Type} {Q : α → List (Call serverInterface) → Prop}

theorem sparing_call {o : ServerOp} {k : ServerOp.Res o → ServerProg α} (ho : sparing vs o)
    (h : Level P vs tr)
    (hk : ∀ r, Answered ⟨o, r⟩ → Level P vs (tr ++ [⟨o, r⟩]) →
      Safe (Env.anyOf Answered) logsPlain Q (k r) (tr ++ [⟨o, r⟩])) :
    Safe (Env.anyOf Answered) logsPlain Q (.call o k) tr :=
  safe_anyOf_call.mpr ⟨guard_of_sparing h ho, fun r hr =>
    hk r hr (h.snoc (plain_of_sparing ho r) (calm_of_sparing ho r))⟩

theorem sparing_safe {p : ServerProg α} (hp : p.Only (sparing vs)) (h : Level P vs tr) :
    Safe (Env.anyOf Answered) logsPlain (fun _ => Level P vs) p tr := by
  induction p generalizing tr with
  | ret a => exact safe_anyOf_ret.mpr h
  | call o k ih => exact sparing_call hp.1 h fun r _ h => ih r (hp.2 r) h
  | spin => trivial

end Level

/-! ### What is logged without asking -/

@[simp] theorem newline_decimal (n : ℕ) : (10 : UInt8) ∉ decimal n := not_mem_decimal n rfl

theorem newline_recvCode (rc : RecvResult) : 10 ∉ recvCode rc := by
  cases rc with
  | ok f =>
      show 10 ∉ ascii "0"
      decide
  | eof | bad | tooLarge => decide

theorem newline_protoMsgName (type : MsgType) : 10 ∉ protoMsgName type := by
  cases type with
  | unknown _ _ =>
      show 10 ∉ ascii "UNKNOWN"
      decide
  | _ => decide

section Sparing

variable {vs : List Bytes}

theorem recvControl_sparing : recvControl.Only (sparing vs) := by
  have hfailed : 10 ∉ ascii "PROTO_RECV failed rc=" := by decide
  refine .call trivial fun rc => ?_
  have hcode := newline_recvCode rc
  cases rc with
  | ok f => trivial
  | _ => exact .call (fun _ => by simp [hfailed, hcode]) fun _ => trivial

theorem recvControlIfReady_sparing (timeoutMs : ℕ) :
    (recvControlIfReady timeoutMs).Only (sparing vs) := by
  unfold recvControlIfReady
  refine .call trivial fun n => ?_
  cases n with
  | ready =>
      refine .call trivial fun rc => ?_
      cases rc with
      | _ => trivial
  | _ => trivial

theorem handlePauseIfRequested_sparing (hold offset : ℕ) :
    (handlePauseIfRequested hold offset).Only (sparing vs) := by
  have hcontrol : 10 ∉ ascii "UNEXPECTED_CONTROL during_stream type=" := by decide
  have hpaused : 10 ∉ ascii "STREAM_PAUSED client_offset=" ∧ 10 ∉ ascii " server_offset=" ∧
      10 ∉ ascii " hold_sec=" := by decide
  have htimeout : 10 ∉ ascii "STREAM_PAUSE_TIMEOUT hold_sec=" ∧ 10 ∉ ascii " offset=" := by decide
  have hfailed : 10 ∉ ascii "STREAM_RESUME_FAILED type=recv_error" := by decide
  have hresume : 10 ∉ ascii "STREAM_RESUME_FAILED type=" := by decide
  have hresumed : 10 ∉ ascii "STREAM_RESUMED offset=" := by decide
  unfold handlePauseIfRequested
  simp only [Prog.call_bind, Prog.ret_bind]
  refine (recvControlIfReady_sparing 0).bind fun polled => ?_
  cases polled with
  | nothing => trivial
  | failed => trivial
  | got type payload =>
      by_cases htype : type ≠ .pause
      · simp only [if_pos htype]
        exact .call (fun _ => by simp [hcontrol, newline_protoMsgName]) fun _ => trivial
      simp only [if_neg htype]
      refine .call (fun _ => by simp [hpaused]) fun _ =>
        (recvControlIfReady_sparing _).bind fun polled => ?_
      cases polled with
      | nothing => exact .call (fun _ => by simp [htimeout]) fun _ => trivial
      | failed => exact .call (fun _ => hfailed) fun _ => trivial
      | got type payload =>
          by_cases htype : type ≠ .resume
          · simp only [if_pos htype]
            exact .call (fun _ => by simp [hresume, newline_protoMsgName]) fun _ => trivial
          · simp only [if_neg htype]
            exact .call (fun _ => by simp [hresumed]) fun _ => trivial

theorem streamRound_sparing (fp : Handle) (size chunkSize delay hold sent : ℕ) :
    (streamRound fp size chunkSize delay hold sent).Only (sparing vs) := by
  unfold streamRound
  by_cases hmore : sent < size
  swap
  · simp only [hmore, not_false_eq_true, if_true]
    trivial
  simp only [hmore, not_true_eq_false, if_false, Prog.call_bind, Prog.ret_bind, file_call, file_ret]
  refine (handlePauseIfRequested_sparing _ _).bind fun go => ?_
  split
  · trivial
  refine .call trivial fun read => ?_
  split
  · trivial
  refine .call MsgType.noConfusion fun ok => ?_
  split
  · trivial
  refine .call trivial fun _ => ?_
  split
  · refine .call trivial fun _ => ?_
    split <;> trivial
  · split <;> trivial

theorem pkgStreamFile_sparing {path : Bytes} (hpath : 10 ∉ path)
    (offset chunkSize delay hold : ℕ) :
    (pkgStreamFile path offset chunkSize delay hold).Only (sparing vs) := by
  have htext : (10 ∉ ascii "PACKAGE_STREAM complete path=" ∧ 10 ∉ ascii " bytes=") ∧
      10 ∉ ascii " offset=" ∧ 10 ∉ ascii " chunk=" ∧ 10 ∉ ascii " delay_us=" := by decide
  unfold pkgStreamFile pkgFileSize
  simp only [Prog.call_bind, Prog.ret_bind, file_call, file_ret]
  refine .call trivial fun size => ?_
  split
  · trivial
  split
  · trivial
  refine .call trivial fun fp => ?_
  split
  · trivial
  refine .call trivial fun seeked => ?_
  split
  · exact .call trivial fun _ => trivial
  refine .call trivial fun buf => ?_
  split
  · exact .call trivial fun _ => trivial
  refine Prog.Only.bind (.iterate (streamRound_sparing _ _ _ _ _) _ _) fun rc => ?_
  refine .call trivial fun _ => .call trivial fun _ => ?_
  split
  · exact .call (fun _ => by simp [htext, hpath]) fun _ => trivial
  · trivial

end Sparing

/-! ### What is logged of an answer -/

theorem mem_intercalate {α : Type} {sep part : List α} {parts : List (List α)}
    (hpart : part ∈ parts) {b : α} (hb : b ∈ part) : b ∈ sep.intercalate parts := by
  induction parts with
  | nil => cases hpart
  | cons first parts ih =>
      by_cases hlast : parts = []
      · subst hlast
        rw [List.intercalate_singleton]
        exact List.mem_singleton.mp hpart ▸ hb
      · rw [List.intercalate_cons_of_ne_nil hlast]
        rcases List.mem_cons.mp hpart with rfl | hpart
        · exact List.mem_append_left _ (List.mem_append_left _ hb)
        · exact List.mem_append_right _ (ih hpart)

/-- The value of a key is a C string, and fits the buffer it is copied to. -/
theorem kvGet_cstr {payload key value : Bytes} {outLen : ℕ}
    (h : kvGet payload key outLen = some value) : 0 ∉ value ∧ value.length < outLen := by
  obtain ⟨hfirst, hlen⟩ := kvGet_iff.mp h
  refine ⟨fun h0 => ?_, hlen⟩
  obtain ⟨part, hpart, hvalue⟩ := List.exists_of_findSome?_eq_some hfirst
  rw [fieldValue] at hvalue
  split at hvalue
  · obtain rfl := Option.some.inj hvalue
    refine zero_not_mem_cstr payload ?_
    have hjoin : [59].intercalate ((cstr payload).splitOn 59) = cstr payload :=
      List.intercalate_splitOn 59
    rw [← hjoin]
    exact mem_intercalate hpart (List.mem_of_mem_drop h0)
  · cases hvalue

/-- A message that shows two values, and no other newline. -/
theorem newline_shown_iff {a v b w c : Bytes} (h0 : 0 ∉ a ++ v ++ b ++ w)
    (hlen : (a ++ v ++ b ++ w).length < 256) (ha : 10 ∉ a) (hb : 10 ∉ b) (hc : 10 ∉ c) :
    10 ∉ shownMessage (a ++ v ++ b ++ w ++ c) ↔ 10 ∉ v ∧ 10 ∉ w := by
  constructor
  · intro h
    refine ⟨fun hv => h ?_, fun hw => h (mem_shownMessage h0 hlen hw)⟩
    have hv0 : 0 ∉ a ++ v := fun hm =>
      h0 (List.mem_append_left _ (List.mem_append_left _ hm))
    have hvlen : (a ++ v).length < 256 := by
      simp only [List.length_append] at hlen ⊢
      omega
    have hshape : a ++ v ++ b ++ w ++ c = a ++ v ++ (b ++ (w ++ c)) := by
      simp only [List.append_assoc]
    rw [hshape]
    exact mem_shownMessage hv0 hvlen hv
  · rintro ⟨hv, hw⟩
    exact not_mem_shownMessage (by simp [ha, hv, hb, hw, hc])

section Walk

variable {tr : List (Call serverInterface)}

/-- A name as the buffer shows it. -/
theorem shownName_cstr (data : Bytes) :
    0 ∉ shownName maxIdLen data ∧ (shownName maxIdLen data).length < maxIdLen := by
  refine ⟨zero_not_mem_cstr _, Nat.lt_of_le_of_lt (List.takeWhile_prefix _).length_le ?_⟩
  exact Nat.lt_of_le_of_lt (List.length_take_le ..) (by decide)

/-- What `authenticate_client` leaves. -/
def NamedPeer (r : Option Bytes) (tr : List (Call serverInterface)) : Prop :=
  Level True r.toList tr ∧ ∀ id ∈ r, 0 ∉ id ∧ id.length < maxIdLen

theorem unauthenticated {code message : Bytes} (h : Level True [] tr) :
    Safe (Env.anyOf Answered) logsPlain NamedPeer
      (.call (.protoSend (errorFrame code message)) fun _ => .ret none) tr :=
  sparing_call MsgType.noConfusion h fun _ _ h => safe_anyOf_ret.mpr ⟨h, fun _ hm => by cases hm⟩

/-- A refused id is logged with the name in the certificate. -/
theorem refused_level {registry clientId certId : Bytes}
    (h : Level (10 ∉ clientId ∧ 10 ∉ certId) [] tr)
    (hclient : 0 ∉ clientId ∧ clientId.length < maxIdLen)
    (hcert : 0 ∉ certId ∧ certId.length < maxIdLen) :
    Safe (Env.anyOf Answered) logsPlain NamedPeer
      (.call (.statsAdd .authFailures 1) fun _ =>
        .call (.authClientRegistered registry certId) fun registered =>
          .call (.logMsg .warn (ascii "AUTH fail id=" ++ clientId ++ ascii " cert_id=" ++ certId ++
            ascii " registered=" ++ decimal registered.toNat)) fun _ =>
            .call (.protoSend (errorFrame (ascii "AUTH_FAIL") (ascii "invalid credentials")))
              fun _ => .ret none) tr := by
  refine sparing_call trivial h fun _ _ h => sparing_call trivial h fun registered _ h => ?_
  have htext : (0 ∉ ascii "AUTH fail id=" ∧ 10 ∉ ascii "AUTH fail id=") ∧
      (0 ∉ ascii " cert_id=" ∧ 10 ∉ ascii " cert_id=") ∧ 10 ∉ ascii " registered=" := by decide
  have hlen : (ascii "AUTH fail id=" ++ clientId ++ ascii " cert_id=" ++ certId).length < 256 := by
    have hmax : maxIdLen = 64 := rfl
    have hpunct : (ascii "AUTH fail id=").length = 13 ∧ (ascii " cert_id=").length = 9 := by decide
    simp only [List.length_append, hpunct]
    omega
  have hshown := newline_shown_iff (c := ascii " registered=" ++ decimal registered.toNat)
    (by simp [htext, hclient.1, hcert.1]) hlen htext.1.2 htext.2.1.2 (by simp [htext])
  rw [← List.append_assoc] at hshown
  refine safe_anyOf_call.mpr ⟨fun hchain => hshown.mpr (h.owed.mp hchain).2, fun _ _ => ?_⟩
  exact unauthenticated (h.clear (fun _ => hshown) (fun _ => trivial) fun _ _ _ hw =>
    absurd hw List.not_mem_nil)

/-- An id that is let in. -/
theorem admitted_level {clientId : Bytes} (h : Level (10 ∉ clientId) [] tr)
    (hclient : 0 ∉ clientId ∧ clientId.length < maxIdLen) :
    Safe (Env.anyOf Answered) logsPlain NamedPeer
      (.call (.logMsg .info (ascii "AUTH ok id=" ++ clientId ++ ascii " method=mTLS"))
        fun _ => .ret (some clientId)) tr := by
  have htext : (0 ∉ ascii "AUTH ok id=" ∧ 10 ∉ ascii "AUTH ok id=") ∧
      10 ∉ ascii " method=mTLS" := by decide
  have hlen : (ascii "AUTH ok id=" ++ clientId ++ [] ++ []).length < 256 := by
    have hmax : maxIdLen = 64 := rfl
    have hpunct : (ascii "AUTH ok id=").length = 11 := by decide
    simp only [List.length_append, hpunct, List.length_nil]
    omega
  have hshown := newline_shown_iff (b := []) (w := []) (c := ascii " method=mTLS")
    (by simp [htext, hclient.1]) hlen htext.1.2 List.not_mem_nil htext.2
  rw [List.append_nil, List.append_nil, and_iff_left List.not_mem_nil] at hshown
  refine safe_anyOf_call.mpr ⟨fun hchain => hshown.mpr (h.owed.mp hchain).2, fun _ _ => ?_⟩
  refine safe_anyOf_ret.mpr ⟨h.clear (fun _ => hshown) (fun _ => trivial) fun _ hP w hw => ?_, ?_⟩
  · exact List.mem_singleton.mp hw ▸ hP
  · exact fun id hid => Option.some.inj hid ▸ hclient

theorem authenticateClient_level (cfg : ServerConfig) (h : Level True [] tr) :
    Safe (Env.anyOf Answered) logsPlain NamedPeer (authenticateClient cfg) tr := by
  have hmissing : 10 ∉ ascii "AUTH fail missing TLS client certificate identity" := by decide
  have hbroken : 10 ∉ ascii "PROTO_RECV failed rc=" := by decide
  unfold authenticateClient recvControl
  simp only [Prog.call_bind, Prog.ret_bind]
  refine safe_anyOf_call.mpr ⟨trivial, fun name hname => ?_⟩
  cases name with
  | none =>
      have h₁ : Level True [] (tr ++ [⟨.tlsPeerCommonName maxIdLen, none⟩]) :=
        h.snoc (fun _ => trivial) fun _ => trivial
      exact sparing_call trivial h₁ fun _ _ h => sparing_call (fun _ => hmissing) h fun _ _ h =>
        unauthenticated h
  | some certId =>
      refine safe_anyOf_call.mpr ⟨trivial, fun rc _ => ?_⟩
      have h₁ : Level _ [] (tr ++ [⟨.tlsPeerCommonName maxIdLen, some certId⟩] ++
          [⟨.protoRecv (maxControlPayload + 1) 0, rc⟩]) :=
        h.answered trivial trivial fun _ => trivial
      obtain ⟨data, hname⟩ := hname
      have hcert : 0 ∉ certId ∧ certId.length < maxIdLen := hname ▸ shownName_cstr data
      cases rc with
      | ok f =>
          obtain ⟨type, flags, payload⟩ := f
          rw [Prog.ret_bind]
          cases type with
          | auth =>
              dsimp only
              cases hid : kvGet payload (ascii "id") maxIdLen with
              | none =>
                  refine unauthenticated (h₁.congr (iff_true_intro fun _ id hm => ?_))
                  rw [hid] at hm
                  cases hm
              | some clientId =>
                  have h₂ : Level (10 ∉ clientId ∧ 10 ∉ certId) [] _ := h₁.congr
                    ⟨fun hplain => hplain rfl clientId hid, fun hplain _ id hm => by
                      rw [hid] at hm
                      exact Option.some.inj hm ▸ hplain⟩
                  have hclient := kvGet_cstr hid
                  by_cases heq : clientId = certId
                  · simp only [if_pos heq]
                    refine sparing_call trivial h₂ fun ok _ h₃ => ?_
                    cases ok with
                    | false => exact refused_level h₃ hclient hcert
                    | true =>
                        refine admitted_level (h₃.congr ?_) hclient
                        rw [← heq, and_self_iff]
                  · simp only [if_neg heq]
                    exact refused_level h₂ hclient hcert
          | _ => exact unauthenticated (h₁.congr (iff_true_intro fun hauth => by cases hauth))
      | _ =>
          refine sparing_call (fun _ => ?_) (h₁.congr (iff_true_intro trivial)) fun _ _ h =>
            unauthenticated h
          simp [hbroken, newline_recvCode]

/-! ### What is logged of the result -/

theorem calm_unsent (g : Frame) (y : Call serverInterface) :
    PlainAnswer ⟨.protoSend g, false⟩ y := by
  obtain ⟨o, r⟩ := y
  cases o with
  | _ => trivial

/-- A result that is not `ok` is logged. -/
theorem result_level {clientId payload : Bytes}
    (hclient : 0 ∉ clientId ∧ clientId.length < maxIdLen)
    (h : Level (∀ status ∈ kvGet payload (ascii "status") 32, 10 ∉ status) [clientId] tr)
    (hbye : ∀ tr', Level True [clientId] tr' →
      Safe (Env.anyOf Answered) logsPlain (fun _ => Even) (protoSend (emptyFrame .bye)) tr') :
    Safe (Env.anyOf Answered) logsPlain (fun _ => Even)
      (.call (.logMsg .warn (ascii "TRANSFER_RESULT id=" ++ clientId ++ ascii " status=" ++
        if (kvGet payload (ascii "status") 32).getD [] = [] then ascii "missing"
        else (kvGet payload (ascii "status") 32).getD [])) fun _ => protoSend (emptyFrame .bye))
      tr := by
  have htext : (0 ∉ ascii "TRANSFER_RESULT id=" ∧ 10 ∉ ascii "TRANSFER_RESULT id=") ∧
      (0 ∉ ascii " status=" ∧ 10 ∉ ascii " status=") ∧
      0 ∉ ascii "missing" ∧ 10 ∉ ascii "missing" := by decide
  obtain ⟨shown, hshown⟩ : ∃ shown, (if (kvGet payload (ascii "status") 32).getD [] = [] then
      ascii "missing" else (kvGet payload (ascii "status") 32).getD []) = shown := ⟨_, rfl⟩
  -- what is shown of the status has its newlines, and fits
  have hvalue : (0 ∉ shown ∧ shown.length < 32) ∧
      (10 ∉ shown ↔ ∀ status ∈ kvGet payload (ascii "status") 32, 10 ∉ status) := by
    rw [← hshown]
    cases hstatus : kvGet payload (ascii "status") 32 with
    | none => exact ⟨⟨htext.2.2.1, by decide⟩, iff_of_true htext.2.2.2 fun _ hm => by cases hm⟩
    | some status =>
        rw [Option.getD_some]
        by_cases hnil : status = []
        · rw [if_pos hnil]
          refine ⟨⟨htext.2.2.1, by decide⟩, iff_of_true htext.2.2.2 fun _ hm => ?_⟩
          rw [← Option.some.inj hm, hnil]
          exact List.not_mem_nil
        · rw [if_neg hnil]
          refine ⟨kvGet_cstr hstatus, fun h _ hm => Option.some.inj hm ▸ h, fun h => h status rfl⟩
  rw [hshown]
  have hlen :
      (ascii "TRANSFER_RESULT id=" ++ clientId ++ ascii " status=" ++ shown).length < 256 := by
    have hmax : maxIdLen = 64 := rfl
    have hpunct : (ascii "TRANSFER_RESULT id=").length = 19 ∧ (ascii " status=").length = 8 := by
      decide
    simp only [List.length_append, hpunct]
    omega
  have hboth := newline_shown_iff (c := [])
    (by simp [htext, hclient.1, hvalue.1.1]) hlen htext.1.2 htext.2.1.2 List.not_mem_nil
  rw [List.append_nil] at hboth
  have hknown : (∀ v ∈ [clientId], 10 ∉ v) → (10 ∉ shownMessage (ascii "TRANSFER_RESULT id=" ++
      clientId ++ ascii " status=" ++ shown) ↔
        ∀ status ∈ kvGet payload (ascii "status") 32, 10 ∉ status) := fun hv =>
    hboth.trans ((and_iff_right (hv clientId (List.mem_singleton_self _))).trans hvalue.2)
  refine safe_anyOf_call.mpr ⟨fun hchain => ?_, fun _ _ => ?_⟩
  · obtain ⟨hall, hP⟩ := h.owed.mp hchain
    exact (hknown (h.known hall)).mpr hP
  · exact hbye _ (h.clear hknown (fun _ => trivial) fun hv _ => hv)

theorem bye_even {clientId : Bytes} (h : Level True [clientId] tr) :
    Safe (Env.anyOf Answered) logsPlain (fun _ => Even) (protoSend (emptyFrame .bye)) tr :=
  sparing_call MsgType.noConfusion h fun _ _ h => safe_anyOf_ret.mpr h.even

theorem finishTransfer_even (manifest : Manifest) {clientId : Bytes} (offset : ℕ)
    (hclient : 0 ∉ clientId ∧ clientId.length < maxIdLen) (h : Level True [clientId] tr) :
    Safe (Env.anyOf Answered) logsPlain (fun _ => Even) (finishTransfer manifest clientId offset)
      tr := by
  have hbroken : 10 ∉ ascii "PROTO_RECV failed rc=" := by decide
  have hdone : (10 ∉ ascii "TRANSFER_DONE id=" ∧ 10 ∉ ascii " bytes=") ∧
      10 ∉ ascii " status=OK" := by decide
  unfold finishTransfer recvControl
  simp only [Prog.call_bind, Prog.ret_bind]
  refine safe_anyOf_call.mpr ⟨trivial, fun ok _ => ?_⟩
  cases ok with
  | false =>
      exact safe_anyOf_ret.mpr
        (h.snoc (x := ⟨.protoSend _, false⟩) (fun _ => trivial) (calm_unsent _)).even
  | true =>
      refine safe_anyOf_call.mpr ⟨trivial, fun rc _ => ?_⟩
      obtain ⟨done, hdone'⟩ : ∃ done, textFrame .transferDone (snprintf (maxControlPayload + 1)
          (ascii "sha256=" ++ manifest.checksumSha256)) = done := ⟨_, rfl⟩
      have htype : done.type = .transferDone := hdone' ▸ rfl
      rw [hdone']
      have h₁ : Level _ [clientId] (tr ++ [⟨.protoSend done, true⟩] ++
          [⟨.protoRecv (maxControlPayload + 1) 0, rc⟩]) :=
        h.answered trivial trivial fun _ => trivial
      cases rc with
      | ok f =>
          obtain ⟨type, flags, payload⟩ := f
          rw [Prog.ret_bind]
          cases type with
          | result =>
              have h₂ : Level (∀ status ∈ kvGet payload (ascii "status") 32, 10 ∉ status) _ _ :=
                h₁.congr ⟨fun hplain => hplain htype rfl, fun hplain _ _ => hplain⟩
              dsimp only
              by_cases hok : kvGet payload (ascii "status") 32 = some (ascii "ok")
              · rw [if_neg (not_not_intro hok)]
                have hplain : 10 ∉ ascii "ok" := by decide
                have h₃ := h₂.congr (iff_true_intro fun status hm => by
                  rw [hok] at hm
                  exact Option.some.inj hm ▸ hplain)
                refine sparing_call trivial h₃ fun _ _ h =>
                  sparing_call (fun hv => ?_) h fun _ _ h => bye_even h
                simp [hdone, hv clientId (List.mem_singleton_self _)]
              · rw [if_pos hok]
                exact sparing_call trivial h₂ fun _ _ h =>
                  result_level hclient h fun _ h => bye_even h
          | _ =>
              exact safe_anyOf_ret.mpr (h₁.congr (iff_true_intro fun _ hres => by cases hres)).even
      | _ =>
          refine sparing_call (fun _ => ?_) (h₁.congr (iff_true_intro trivial)) fun _ _ h =>
            safe_anyOf_ret.mpr h.even
          simp [hbroken, newline_recvCode]

/-! ### A session -/

theorem refuse_even {clientId code message : Bytes} {a : Bool} (h : Level True [clientId] tr) :
    Safe (Env.anyOf Answered) logsPlain (fun _ => Even)
      (.call (.protoSend (errorFrame code message)) fun _ => .ret a) tr :=
  sparing_call MsgType.noConfusion h fun _ _ h => safe_anyOf_ret.mpr h.even

theorem newline_resolved {packageDir packageFile path : Bytes} {outLen : ℕ} (hdir : 10 ∉ packageDir)
    (hfile : 10 ∉ packageFile) (h : pkgResolvePath packageDir packageFile outLen = some path) :
    10 ∉ path := by
  have hslash : 10 ∉ ascii "/" := by decide
  rw [pkgResolvePath] at h
  split at h
  · cases h
  · dsimp only at h
    split at h
    · obtain rfl := Option.some.inj h
      simp [hdir, hslash, hfile]
    · cases h

theorem offerUpdate_even {cfg : ServerConfig} {manifest : Manifest} {clientId current : Bytes}
    (hdir : 10 ∉ cfg.packageDir) (hfile : 10 ∉ manifest.packageFile)
    (hlatest : 10 ∉ manifest.latestVersion) (hcur : 10 ∉ current)
    (hclient : 0 ∉ clientId ∧ clientId.length < maxIdLen) (h : Level True [clientId] tr) :
    Safe (Env.anyOf Answered) logsPlain (fun _ => Even) (offerUpdate cfg manifest clientId current)
      tr := by
  have htext : (10 ∉ ascii "VERSION_CHECK id=" ∧ 10 ∉ ascii " cur=") ∧ 10 ∉ ascii " latest=" ∧
      10 ∉ ascii " decision=UPDATE size=" := by decide
  unfold offerUpdate
  simp only [Prog.call_bind, Prog.ret_bind]
  cases hpath : pkgResolvePath cfg.packageDir manifest.packageFile (maxPathLen * 2) with
  | none => exact sparing_call trivial h fun _ _ h => refuse_even h
  | some path =>
      refine sparing_call (fun hv => ?_) h fun _ _ h => ?_
      · simp [htext, hv clientId (List.mem_singleton_self _), hcur, hlatest]
      refine sparing_call MsgType.noConfusion h fun ok _ h => ?_
      cases ok with
      | false => exact safe_anyOf_ret.mpr h.even
      | true =>
          refine safe_bind.mpr ((sparing_safe recvControl_sparing h).post fun r _ h => ?_)
          split
          · split
            · exact refuse_even h
            · refine sparing_call trivial h fun _ _ h => safe_bind.mpr
                ((sparing_safe (pkgStreamFile_sparing (newline_resolved hdir hfile hpath) _ _ _ _)
                  h).post fun streamed _ h => sparing_call trivial h fun _ _ h => ?_)
              cases streamed with
              | false => exact sparing_call trivial h fun _ _ h => safe_anyOf_ret.mpr h.even
              | true => exact finishTransfer_even manifest _ hclient h
          · exact refuse_even h

/-- A version has no newline. -/
theorem newline_version {text : Bytes} {v : Semver} (h : Denotes text v) : 10 ∉ text :=
  h.not_mem rfl (by decide)

theorem reservedSession_even {cfg : ServerConfig} {clientId : Bytes} (clientInfo : Bytes)
    (hdir : 10 ∉ cfg.packageDir) (hclient : 0 ∉ clientId ∧ clientId.length < maxIdLen)
    (h : Level True [clientId] tr) :
    Safe (Env.anyOf Answered) logsPlain (fun _ => Even) (reservedSession cfg clientInfo clientId)
      tr := by
  have htext : (10 ∉ ascii "VERSION_CHECK id=" ∧ 10 ∉ ascii " cur=") ∧ 10 ∉ ascii " latest=" ∧
      10 ∉ ascii " decision=UPTODATE" := by decide
  unfold reservedSession
  simp only [Prog.call_bind, Prog.ret_bind]
  refine sparing_call MsgType.noConfusion h fun ok _ h => ?_
  cases ok with
  | false => exact safe_anyOf_ret.mpr h.even
  | true =>
      refine sparing_call trivial h fun _ _ h => safe_bind.mpr
        ((sparing_safe recvControl_sparing h).post fun r _ h => ?_)
      split
      · rename_i payload
        cases hcur : kvGet payload (ascii "cur") maxVersionStr with
        | none => exact sparing_call trivial h fun _ _ h => refuse_even h
        | some current =>
            dsimp only
            split
            · exact sparing_call trivial h fun _ _ h => refuse_even h
            refine sparing_call trivial h fun snapshot hheard h => ?_
            cases snapshot with
            | none => exact refuse_even h
            | some manifest =>
                dsimp only
                cases hcmp : verCompareText current manifest.latestVersion with
                | none => exact refuse_even h
                | some cmp =>
                    obtain ⟨va, vb, ha, hb, -⟩ := verCompareText_iff.mp hcmp
                    have hcur := newline_version ha
                    have hlatest := newline_version hb
                    dsimp only
                    split
                    · refine sparing_call (fun hv => ?_) h fun _ _ h => sparing_call trivial h
                        fun _ _ h => sparing_call MsgType.noConfusion h fun sent _ h => ?_
                      · simp [htext, hv clientId (List.mem_singleton_self _), hcur, hlatest]
                      · cases sent with
                        | false => exact safe_anyOf_ret.mpr h.even
                        | true => exact bye_even h
                    · exact offerUpdate_even hdir hheard.newline hlatest hcur hclient h
      · exact refuse_even h

theorem handleClientSession_even {cfg : ServerConfig} (clientInfo : Bytes)
    (hdir : 10 ∉ cfg.packageDir) :
    Safe (Env.anyOf Answered) logsPlain (fun _ => Even) (handleClientSession cfg clientInfo)
      [] := by
  have htext : 10 ∉ ascii "AUTH duplicate active id=" ∧
      10 ∉ ascii "AUTH active client registry full id=" := by decide
  unfold handleClientSession
  simp only [Prog.call_bind, Prog.ret_bind]
  refine sparing_call MsgType.noConfusion level_nil fun ok _ h => ?_
  cases ok with
  | false => exact safe_anyOf_ret.mpr h.even
  | true =>
      refine safe_bind.mpr ((authenticateClient_level cfg h).post fun r tr h => ?_)
      obtain ⟨h, hclient⟩ := h
      cases r with
      | none => exact safe_anyOf_ret.mpr h.even
      | some clientId =>
          have hlog : ∀ {text : Bytes}, 10 ∉ text → (∀ v ∈ [clientId], 10 ∉ v) →
              10 ∉ text ++ clientId := fun htext hv => by
            simp [htext, hv clientId (List.mem_singleton_self _)]
          refine sparing_call trivial h fun reservation _ h => ?_
          cases reservation with
          | duplicate => exact sparing_call (hlog htext.1) h fun _ _ h => refuse_even h
          | full => exact sparing_call (hlog htext.2) h fun _ _ h => refuse_even h
          | reserved =>
              have hsession := reservedSession_even clientInfo hdir (hclient clientId rfl) h
              exact safe_bind.mpr (hsession.post fun rc _ h =>
                sparing_call trivial h fun _ _ h => safe_anyOf_ret.mpr h)

end Walk

/-- Every message a session logs is one line of the log, with the time and the level first. -/
def OneLineEach (workerId : ℕ) (clientInfo : Bytes) (tr : List (Call serverInterface)) : Prop :=
  ∀ level text, (⟨.logMsg level text, ()⟩ : Call serverInterface) ∈ tr → ∀ t,
    OneLine (logHead level t) (logRecord level t (workerTag workerId) clientInfo text)

theorem oneLineEach_iff {workerId : ℕ} {clientInfo : Bytes}
    (hinfo : Inline clientInfoLen clientInfo) {tr : List (Call serverInterface)} :
    OneLineEach workerId clientInfo tr ↔ ∀ x ∈ tr, Plain x := by
  constructor
  · intro h x hx
    obtain ⟨o, r⟩ := x
    cases o with
    | logMsg level text =>
        exact (oneLine_logRecord_iff (inline_workerTag workerId) hinfo).mp
          (h level text hx ⟨0, 0, 0, 0, 0, 0, 0⟩)
    | _ => trivial
  · intro h level text hx t
    exact (oneLine_logRecord_iff (inline_workerTag workerId) hinfo).mpr (h _ hx)

/-- **One record, one line.**  Whatever a peer sends, what a session logs is one line of the log for
each message, with the time and the level first, if the values it logs of the answers have no
newline; and of a session that has ended, only then. -/
theorem one_record_one_line_iff {cfg : ServerConfig} (hdir : Configured cfg.packageDir)
    (workerId : ℕ) {clientInfo : Bytes} (hinfo : Inline clientInfoLen clientInfo)
    {p : ServerProg Bool} {tr : List (Call serverInterface)}
    (hrun : History (handleClientSession cfg clientInfo) p tr) (hheard : ∀ x ∈ tr, Answered x) :
    (tr.IsChain PlainAnswer → OneLineEach workerId clientInfo tr) ∧
      ((∃ rc, p = .ret rc) → OneLineEach workerId clientInfo tr → tr.IsChain PlainAnswer) := by
  have hsafe : Safe (Env.anyOf Answered) logsPlain (fun _ => Even)
      (handleClientSession cfg clientInfo) [] :=
    handleClientSession_even clientInfo hdir.newline
  rw [oneLineEach_iff hinfo]
  constructor
  · intro hchain x hx
    obtain ⟨before, after, htr⟩ := List.append_of_mem hx
    have hguard := hsafe.anyOf_calls (run_anyOf hrun hheard) htr
    rw [htr] at hchain
    obtain ⟨o, r⟩ := x
    cases o with
    | logMsg level text => exact hguard (List.isChain_append.mp hchain).1
    | _ => trivial
  · rintro ⟨rc, rfl⟩ hall
    exact ((hsafe.run (run_anyOf hrun hheard)).result.owed).mpr ⟨hall, trivial⟩

/-- The answers in a session whose peer sends `a\nb` as its id: refused, and logged. -/
def brokenId : List (Call serverInterface) :=
  [⟨.protoSend (textFrame .hello (ascii "srv=updctl;proto=1")), true⟩,
    ⟨.tlsPeerCommonName maxIdLen, some (ascii "c1")⟩,
    ⟨.protoRecv (maxControlPayload + 1) 0, .ok ⟨.auth, 0, ascii "id=a\nb"⟩⟩,
    ⟨.statsAdd .authFailures 1, ()⟩,
    ⟨.authClientRegistered (ascii "./config/clients.keys") (ascii "c1"), true⟩,
    ⟨.logMsg .warn (ascii "AUTH fail id=a\nb cert_id=c1 registered=1"), ()⟩,
    ⟨.protoSend (errorFrame (ascii "AUTH_FAIL") (ascii "invalid credentials")), true⟩]

/-- The same, with an id without a newline. -/
def refusedId : List (Call serverInterface) :=
  [⟨.protoSend (textFrame .hello (ascii "srv=updctl;proto=1")), true⟩,
    ⟨.tlsPeerCommonName maxIdLen, some (ascii "c1")⟩,
    ⟨.protoRecv (maxControlPayload + 1) 0, .ok ⟨.auth, 0, ascii "id=ab"⟩⟩,
    ⟨.statsAdd .authFailures 1, ()⟩,
    ⟨.authClientRegistered (ascii "./config/clients.keys") (ascii "c1"), true⟩,
    ⟨.logMsg .warn (ascii "AUTH fail id=ab cert_id=c1 registered=1"), ()⟩,
    ⟨.protoSend (errorFrame (ascii "AUTH_FAIL") (ascii "invalid credentials")), true⟩]

/-- A client with another's id is logged in one line. -/
theorem one_record_one_line_iff_refused :
    OneLineEach 3 (ascii "127.0.0.1:51344 fd=12") refusedId := by
  have hdir : Configured ServerConfig.shipped.packageDir :=
    ⟨[], [], rfl, [], ascii "./packages", 512, by decide, by decide⟩
  have hrun : History (handleClientSession .shipped (ascii "127.0.0.1:51344 fd=12")) (.ret false)
      refusedId := Prog.history_of_replay (Prog.replay_ret (by decide +kernel))
  have hheard : ∀ x ∈ refusedId, Answered x := by
    simp only [refusedId, List.forall_mem_cons, Answered, true_and, List.not_mem_nil, false_imp_iff,
      implies_true, and_true]
    exact ⟨ascii "c1", by decide⟩
  have hid : kvGet (ascii "id=ab") (ascii "id") maxIdLen = some (ascii "ab") := by decide
  have hchain : refusedId.IsChain PlainAnswer := by
    refine .cons_cons trivial (.cons_cons (fun _ id hm => ?_) (.cons_cons trivial
      (.cons_cons trivial (.cons_cons trivial (.cons_cons trivial (.singleton _))))))
    rw [hid] at hm
    rw [← Option.some.inj hm]
    decide
  exact (one_record_one_line_iff hdir 3 ⟨by decide, by decide, by decide⟩ hrun hheard).1 hchain

/-- An id with a newline begins a second line. -/
theorem newline_begins_line : ∃ (tr : List (Call serverInterface)) (level : LogLevel) (text : Bytes)
    (t : LogTime),
    History (handleClientSession .shipped (ascii "127.0.0.1:51344 fd=12")) (.ret false) tr ∧
      (⟨.logMsg level text, ()⟩ : Call serverInterface) ∈ tr ∧
      ¬ OneLine (logHead level t)
        (logRecord level t (workerTag 3) (ascii "127.0.0.1:51344 fd=12") text) := by
  refine ⟨brokenId, .warn, ascii "AUTH fail id=a\nb cert_id=c1 registered=1",
    ⟨2026, 6, 10, 14, 32, 8, 412⟩, Prog.history_of_replay (Prog.replay_ret (by decide +kernel)), ?_,
    ?_⟩
  · simp [brokenId]
  · rw [oneLine_logRecord_iff (inline_workerTag 3) ⟨by decide, by decide, by decide⟩]
    decide +kernel

end UpdateFramework.Server
