import Mathlib.Data.List.Infix
import UpdateFramework.Server.Worker
import UpdateFramework.Server.World

/-!
# Server — what a session may say

A session's history is the list of its calls and their answers.  Whatever the answers are, the
frames it sends follow one path of the protocol, each only after what entitles the client to it,
and the session returns `0` exactly when it has sent `BYE` (`handleClientSession_lawful`).
-/

namespace UpdateFramework.Server

open Libc Process

/-- The calls of a session so far, with their answers. -/
abbrev ServerHistory := List (Call serverInterface)

/-- The call `o`, answered by `r`. -/
abbrev answered (o : ServerOp) (r : ServerOp.Res o) : Call serverInterface := ⟨o, r⟩

/-- The type of the frame a call sends. -/
def sentType : Call serverInterface → Option MsgType
  | ⟨.protoSend f, _⟩ => some f.type
  | _ => none

/-- The types of the frames sent; the last may not have reached the client. -/
def sentTypes (tr : ServerHistory) : List MsgType := tr.filterMap sentType

/-- A frame of this type was sent, and the send succeeded. -/
def Said (tr : ServerHistory) (type : MsgType) : Prop :=
  ∃ f : Frame, f.type = type ∧ answered (.protoSend f) true ∈ tr

/-- `recv_control` returned a frame of this type. -/
def Heard (tr : ServerHistory) (type : MsgType) (payload : Bytes) : Prop :=
  ∃ flags, answered (.protoRecv (maxControlPayload + 1) 0) (.ok ⟨type, flags, payload⟩) ∈ tr

/-- The client's certificate names `clientId`, its `AUTH` frame gives that id, and the registry
enables it. -/
def Authenticated (cfg : ServerConfig) (tr : ServerHistory) (clientId : Bytes) : Prop :=
  answered (.tlsPeerCommonName maxIdLen) (some clientId) ∈ tr ∧
    (∃ payload, Heard tr .auth payload ∧ kvGet payload (ascii "id") maxIdLen = some clientId) ∧
    answered (.authClientRegistered cfg.clientRegistry clientId) true ∈ tr

/-- The client's version is valid, and compares so with the latest version of the snapshot. -/
def Compared (tr : ServerHistory) (manifest : Manifest) (holds : ℤ → Prop) : Prop :=
  ∃ payload current cmp, Heard tr .versionReq payload ∧
    kvGet payload (ascii "cur") maxVersionStr = some current ∧ verIsValid current = true ∧
    answered .vmGetSnapshot (some manifest) ∈ tr ∧
    verCompareText current manifest.latestVersion = some cmp ∧ holds cmp

/-- An update was offered, and the client asked for it from an offset within the package. -/
def Requested (tr : ServerHistory) : Prop :=
  ∃ manifest payload, Said tr .updateAvailable ∧ Compared tr manifest (· < 0) ∧
    Heard tr .downloadReq payload ∧
    kvGetU64 payload (ascii "offset") ((manifest.packageSize + 1) % 2 ^ 64) ≤ manifest.packageSize

/-- `pkg_stream_file` was called, and returned `0`. -/
def Streamed (cfg : ServerConfig) (tr : ServerHistory) : Prop :=
  ∃ path offset before calls after, tr = before ++ calls ++ after ∧
    History (pkgStreamFile path offset cfg.chunkSize cfg.packetDelayUs cfg.pauseHoldTimeoutSec)
      (.ret true) calls

/-- What has to have happened before a frame of a type is sent. -/
def Entitled (cfg : ServerConfig) (tr : ServerHistory) : MsgType → Prop
  | .authOk => ∃ clientId, Authenticated cfg tr clientId ∧
      answered (.reserveActiveClientId clientId) .reserved ∈ tr
  | .uptodate => Said tr .authOk ∧ ∃ manifest, Compared tr manifest (0 ≤ ·)
  | .updateAvailable => Said tr .authOk ∧ ∃ manifest, Compared tr manifest (· < 0)
  | .data => Requested tr
  | .transferDone => Requested tr ∧ Streamed cfg tr
  | _ => True

/-- The paths of the protocol, as the server speaks them. -/
inductive ProtocolPath : List MsgType → Prop where
  | uptodate : ProtocolPath [.hello, .authOk, .uptodate, .bye]
  | update (n : ℕ) :
      ProtocolPath ([.hello, .authOk, .updateAvailable] ++ List.replicate n .data ++
        [.transferDone, .bye])

/-- `HELLO` and on along one path, and an error perhaps where it is left. -/
def FollowsPath (ts : List MsgType) : Prop :=
  ∃ path said, ProtocolPath path ∧ said <+: path ∧ (ts = said ∨ said ≠ [] ∧ ts = said ++ [.error])

/-- The laws a session keeps. -/
structure Lawful (cfg : ServerConfig) (session : ServerProg Bool) (tr : ServerHistory) : Prop where
  path : FollowsPath (sentTypes tr)
  entitled : ∀ before f sent after, tr = before ++ answered (.protoSend f) sent :: after →
    Entitled cfg before f.type
  result : ∀ rc, session = .ret rc → (rc = true ↔ Said tr .bye)

/-! ### Histories grow -/

section Monotone

variable {tr tr' : ServerHistory} (hp : tr <+: tr')
include hp

theorem Said.mono {type : MsgType} (h : Said tr type) : Said tr' type := by
  obtain ⟨f, hf, hm⟩ := h
  exact ⟨f, hf, hp.subset hm⟩

theorem Heard.mono {type : MsgType} {payload : Bytes} (h : Heard tr type payload) :
    Heard tr' type payload := by
  obtain ⟨flags, hm⟩ := h
  exact ⟨flags, hp.subset hm⟩

theorem Authenticated.mono {cfg : ServerConfig} {clientId : Bytes}
    (h : Authenticated cfg tr clientId) : Authenticated cfg tr' clientId := by
  obtain ⟨hname, ⟨payload, hheard, hid⟩, hreg⟩ := h
  exact ⟨hp.subset hname, ⟨payload, hheard.mono hp, hid⟩, hp.subset hreg⟩

theorem Compared.mono {manifest : Manifest} {holds : ℤ → Prop} (h : Compared tr manifest holds) :
    Compared tr' manifest holds := by
  obtain ⟨payload, current, cmp, hheard, hcur, hvalid, hsnap, hcmp, hh⟩ := h
  exact ⟨payload, current, cmp, hheard.mono hp, hcur, hvalid, hp.subset hsnap, hcmp, hh⟩

theorem Requested.mono (h : Requested tr) : Requested tr' := by
  obtain ⟨manifest, payload, hsaid, hcmp, hheard, hle⟩ := h
  exact ⟨manifest, payload, hsaid.mono hp, hcmp.mono hp, hheard.mono hp, hle⟩

end Monotone

/-! ### The guard -/

/-- Before each send: the frame follows the path, and the client is entitled to it. -/
def lawfulCall (cfg : ServerConfig) (tr : ServerHistory) : ServerOp → Prop
  | .protoSend f => FollowsPath (sentTypes tr ++ [f.type]) ∧ Entitled cfg tr f.type
  | _ => True

theorem sentTypes_append (tr tr' : ServerHistory) :
    sentTypes (tr ++ tr') = sentTypes tr ++ sentTypes tr' :=
  List.filterMap_append

theorem FollowsPath.said {path said : List MsgType} (hpath : ProtocolPath path)
    (h : said <+: path) : FollowsPath said :=
  ⟨path, said, hpath, h, .inl rfl⟩

/-- Any path that has begun may be left with an error. -/
theorem FollowsPath.error {path said : List MsgType} (hpath : ProtocolPath path)
    (h : said <+: path) (hne : said ≠ []) : FollowsPath (said ++ [.error]) :=
  ⟨path, said, hpath, h, .inr ⟨hne, rfl⟩⟩

theorem not_said {tr : ServerHistory} {type : MsgType} (h : type ∉ sentTypes tr) :
    ¬ Said tr type := by
  rintro ⟨f, rfl, hm⟩
  exact h (List.mem_filterMap.mpr ⟨_, hm, rfl⟩)

/-! ### The functions -/

section Functions

variable {cfg : ServerConfig} {α : Type} {Q : α → ServerHistory → Prop} {tr : ServerHistory}

/-- `tr'` is `tr` and calls that send frames of the types `ts`. -/
def Extends (tr tr' : ServerHistory) (ts : List MsgType) : Prop :=
  tr <+: tr' ∧ sentTypes tr' = sentTypes tr ++ ts

theorem Extends.refl (tr : ServerHistory) : Extends tr tr [] :=
  ⟨List.prefix_refl tr, (List.append_nil _).symm⟩

theorem Extends.calls (tr more : ServerHistory) : Extends tr (tr ++ more) (sentTypes more) :=
  ⟨List.prefix_append tr more, sentTypes_append tr more⟩

theorem Extends.trans {tr₁ tr₂ tr₃ : ServerHistory} {ts us : List MsgType}
    (h : Extends tr₁ tr₂ ts) (k : Extends tr₂ tr₃ us) : Extends tr₁ tr₃ (ts ++ us) :=
  ⟨h.1.trans k.1, by rw [k.2, h.2, List.append_assoc]⟩

/-- A call that sends nothing. -/
theorem safe_quiet {o : ServerOp} {k : ServerOp.Res o → ServerProg α}
    (ho : ∀ f, o ≠ .protoSend f)
    (hk : ∀ r tr', Extends tr tr' [] → answered o r ∈ tr' →
      Safe (Env.any serverInterface) (lawfulCall cfg) Q (k r) tr') :
    Safe (Env.any serverInterface) (lawfulCall cfg) Q (.call o k) tr := by
  cases o with
  | protoSend f => exact absurd rfl (ho f)
  | _ => exact safe_any_call.mpr ⟨trivial, fun r => hk r _ (.calls tr _) (by simp)⟩

/-- A send the path and the client's title allow. -/
theorem safe_protoSend {f : Frame} {k : Bool → ServerProg α}
    (hpath : FollowsPath (sentTypes tr ++ [f.type])) (htitle : Entitled cfg tr f.type)
    (hk : ∀ sent tr', Extends tr tr' [f.type] → answered (.protoSend f) sent ∈ tr' →
      Safe (Env.any serverInterface) (lawfulCall cfg) Q (k sent) tr') :
    Safe (Env.any serverInterface) (lawfulCall cfg) Q (.call (.protoSend f) k) tr :=
  safe_any_call.mpr ⟨⟨hpath, htitle⟩, fun r => hk r _ (.calls tr _) (by simp)⟩

/-- An error, where some path has begun; the function returns after it. -/
theorem safe_protoSendError {code message : Bytes} {a : α} {path : List MsgType}
    (hpath : ProtocolPath path) (hs : sentTypes tr <+: path) (hne : sentTypes tr ≠ [])
    (hQ : ∀ tr', Extends tr tr' [.error] → Q a tr') :
    Safe (Env.any serverInterface) (lawfulCall cfg) Q
      (.call (.protoSend (errorFrame code message)) fun _ => .ret a) tr :=
  safe_protoSend (.error hpath hs hne) trivial fun _ tr' h _ => safe_any_ret.mpr (hQ tr' h)

/-- `recv_control`: a frame is heard, or nothing. -/
theorem recvControl_safe {Q : Option (MsgType × Bytes) → ServerHistory → Prop}
    (hsome : ∀ tr' type payload, Extends tr tr' [] → Heard tr' type payload →
      Q (some (type, payload)) tr')
    (hnone : ∀ tr', Extends tr tr' [] → Q none tr') :
    Safe (Env.any serverInterface) (lawfulCall cfg) Q recvControl tr := by
  refine safe_quiet nofun fun rc tr₁ h₁ hm => ?_
  cases rc with
  | ok f => exact safe_any_ret.mpr (hsome _ _ _ h₁ ⟨f.flags, hm⟩)
  | _ => exact safe_quiet nofun fun _ tr₂ h₂ _ => safe_any_ret.mpr (hnone _ (h₁.trans h₂))

theorem hello_path : ProtocolPath [.hello, .authOk, .uptodate, .bye] := .uptodate

/-- `authenticate_client` speaks only to refuse, and otherwise has authenticated the client. -/
theorem authenticateClient_safe (hts : sentTypes tr = [.hello]) :
    Safe (Env.any serverInterface) (lawfulCall cfg)
      (fun r tr' => match r with
        | some clientId => Extends tr tr' [] ∧ Authenticated cfg tr' clientId
        | none => Extends tr tr' [.error])
      (authenticateClient cfg) tr := by
  -- every refusal is an error after calls that send nothing
  have refuse : ∀ {tr' : ServerHistory} {code message : Bytes}, Extends tr tr' [] →
      Safe (Env.any serverInterface) (lawfulCall cfg)
        (fun r tr' => match r with
          | some clientId => Extends tr tr' [] ∧ Authenticated cfg tr' clientId
          | none => Extends tr tr' [.error])
        (.call (.protoSend (errorFrame code message)) fun _ => .ret none) tr' := by
    intro tr' code message hext
    have hts' : sentTypes tr' = [.hello] := by rw [hext.2, hts]; rfl
    have hpre : sentTypes tr' <+: [.hello, .authOk, .uptodate, .bye] := hts' ▸ ⟨_, rfl⟩
    refine safe_protoSendError .uptodate hpre (by simp [hts']) fun tr'' h => ?_
    exact hext.trans h
  unfold authenticateClient
  simp only [Prog.call_bind, Prog.ret_bind]
  refine safe_quiet nofun fun name tr₀ h₀ hname => ?_
  cases name with
  | none =>
      refine safe_quiet nofun fun _ tr₁ h₁ _ => safe_quiet nofun fun _ tr₂ h₂ _ => ?_
      exact refuse ((h₀.trans h₁).trans h₂)
  | some certId =>
      refine safe_bind.mpr (recvControl_safe ?_ fun tr₁ h₁ => refuse (h₀.trans h₁))
      intro tr₁ type payload h₁ hheard
      cases type with
      | auth =>
          cases hid : kvGet payload (ascii "id") maxIdLen with
          | none =>
              simp only [hid]
              exact refuse (h₀.trans h₁)
          | some clientId =>
              simp only [hid]
              by_cases heq : clientId = certId
              · subst heq
                rw [if_pos rfl]
                refine safe_quiet nofun fun ok tr₂ h₂ hreg => ?_
                have h₂' := (h₀.trans h₁).trans h₂
                cases ok with
                | false =>
                    refine safe_quiet nofun fun _ tr₃ h₃ _ => safe_quiet nofun fun _ tr₄ h₄ _ => ?_
                    refine safe_quiet nofun fun _ tr₅ h₅ _ => ?_
                    exact refuse (((h₂'.trans h₃).trans h₄).trans h₅)
                | true =>
                    refine safe_quiet nofun fun _ tr₃ h₃ _ => safe_any_ret.mpr ⟨h₂'.trans h₃, ?_⟩
                    exact Authenticated.mono h₃.1 ⟨h₂.1.subset (h₁.1.subset hname),
                      ⟨payload, hheard.mono h₂.1, hid⟩, hreg⟩
              · rw [if_neg heq]
                refine safe_quiet nofun fun _ tr₃ h₃ _ => safe_quiet nofun fun _ tr₄ h₄ _ => ?_
                refine safe_quiet nofun fun _ tr₅ h₅ _ => ?_
                exact refuse ((((h₀.trans h₁).trans h₃).trans h₄).trans h₅)
      | _ => exact refuse (h₀.trans h₁)

end Functions

section Stream
variable {cfg : ServerConfig} {tr : ServerHistory}

theorem recvControlIfReady_safe (timeoutMs : ℕ) :
    Safe (Env.any serverInterface) (lawfulCall cfg) (fun _ tr' => Extends tr tr' [])
      (recvControlIfReady timeoutMs) tr := by
  unfold recvControlIfReady
  simp only [Prog.call_bind, Prog.ret_bind]
  refine safe_quiet nofun fun n tr₁ h₁ _ => ?_
  cases n with
  | ready =>
      refine safe_quiet nofun fun rc tr₂ h₂ _ => ?_
      cases rc with
      | _ => exact safe_any_ret.mpr (h₁.trans h₂)
  | _ => exact safe_any_ret.mpr h₁

/-- `handle_pause_if_requested` sends nothing. -/
theorem handlePauseIfRequested_safe (hold offset : ℕ) :
    Safe (Env.any serverInterface) (lawfulCall cfg) (fun _ tr' => Extends tr tr' [])
      (handlePauseIfRequested hold offset) tr := by
  unfold handlePauseIfRequested
  simp only [Prog.call_bind, Prog.ret_bind]
  refine safe_bind.mpr ((recvControlIfReady_safe 0).post fun polled tr₁ h₁ => ?_)
  cases polled with
  | nothing => exact safe_any_ret.mpr h₁
  | failed => exact safe_any_ret.mpr h₁
  | got type payload =>
      by_cases htype : type ≠ .pause
      · simp only [if_pos htype]
        exact safe_quiet nofun fun _ tr₂ h₂ _ => safe_any_ret.mpr (h₁.trans h₂)
      simp only [if_neg htype]
      refine safe_quiet nofun fun _ tr₂ h₂ _ => ?_
      refine safe_bind.mpr ((recvControlIfReady_safe _).post fun polled tr₃ h₃ => ?_)
      have h₀ := (h₁.trans h₂).trans h₃
      cases polled with
      | nothing => exact safe_quiet nofun fun _ tr₄ h₄ _ => safe_any_ret.mpr (h₀.trans h₄)
      | failed => exact safe_quiet nofun fun _ tr₄ h₄ _ => safe_any_ret.mpr (h₀.trans h₄)
      | got type payload =>
          by_cases htype : type ≠ .resume
          · simp only [if_pos htype]
            exact safe_quiet nofun fun _ tr₄ h₄ _ => safe_any_ret.mpr (h₀.trans h₄)
          · simp only [if_neg htype]
            exact safe_quiet nofun fun _ tr₄ h₄ _ => safe_any_ret.mpr (h₀.trans h₄)

/-- The types sent up to the end of the stream, so far. -/
def streaming (n : ℕ) : List MsgType :=
  [.hello, .authOk, .updateAvailable] ++ List.replicate n .data

theorem streaming_snoc (n : ℕ) : streaming n ++ [.data] = streaming (n + 1) := by
  rw [streaming, List.append_assoc, ← List.replicate_succ']
  rfl

theorem streaming_begins (n : ℕ) : streaming n <+: streaming n ++ [.transferDone, .bye] :=
  List.prefix_append _ _

theorem update_path (n : ℕ) : ProtocolPath (streaming n ++ [.transferDone, .bye]) := .update n

/-- `tr'` goes on from `tr`, and nothing after the offer is sent but `DATA`. -/
def StillStreaming (tr tr' : ServerHistory) : Prop := tr <+: tr' ∧ ∃ n, sentTypes tr' = streaming n

theorem StillStreaming.quiet {tr tr₁ tr₂ : ServerHistory} (h : StillStreaming tr tr₁)
    (hext : Extends tr₁ tr₂ []) : StillStreaming tr tr₂ := by
  obtain ⟨hpre, n, hn⟩ := h
  exact ⟨hpre.trans hext.1, n, by rw [hext.2, hn, List.append_nil]⟩

theorem StillStreaming.data {tr tr₁ tr₂ : ServerHistory} (h : StillStreaming tr tr₁)
    (hext : Extends tr₁ tr₂ [.data]) : StillStreaming tr tr₂ := by
  obtain ⟨hpre, n, hn⟩ := h
  exact ⟨hpre.trans hext.1, n + 1, by rw [hext.2, hn, streaming_snoc]⟩

theorem StillStreaming.path {tr tr' : ServerHistory} (h : StillStreaming tr tr') :
    FollowsPath (sentTypes tr' ++ [.data]) := by
  obtain ⟨-, n, hn⟩ := h
  rw [hn, streaming_snoc]
  exact .said (update_path (n + 1)) (streaming_begins (n + 1))

/-- A round of the chunk loop sends one `DATA` frame at most. -/
theorem streamRound_safe {tr₀ : ServerHistory} (fp : Handle) (size chunkSize delay hold sent : ℕ)
    (hreq : Requested tr₀) (hst : StillStreaming tr₀ tr) :
    Safe (Env.any serverInterface) (lawfulCall cfg) (fun _ => StillStreaming tr₀)
      (streamRound fp size chunkSize delay hold sent) tr := by
  unfold streamRound
  by_cases hmore : sent < size
  swap
  · simp only [hmore, not_false_eq_true, if_true]
    exact safe_any_ret.mpr hst
  simp only [hmore, not_true_eq_false, if_false, Prog.call_bind, Prog.ret_bind, file_call, file_ret]
  refine safe_bind.mpr ((handlePauseIfRequested_safe _ _).post fun go tr₁ h₁ => ?_)
  have h₁ := hst.quiet h₁
  cases go with
  | false => exact safe_any_ret.mpr h₁
  | true =>
      refine safe_quiet nofun fun read tr₂ h₂ _ => ?_
      obtain ⟨buf, ferror⟩ := read
      have h₂ := h₁.quiet h₂
      by_cases hbuf : buf.length = 0
      · simp only [if_pos hbuf]
        exact safe_any_ret.mpr h₂
      simp only [if_neg hbuf]
      refine safe_protoSend h₂.path (hreq.mono h₂.1) fun ok tr₃ h₃ hm => ?_
      have h₃ := h₂.data h₃
      cases ok with
      | false => exact safe_any_ret.mpr h₃
      | true =>
          refine safe_quiet nofun fun _ tr₄ h₄ _ => ?_
          have h₄ := h₃.quiet h₄
          -- what is left of the round, after the delay or without it
          split
          · refine safe_quiet nofun fun _ tr₅ h₅ _ => ?_
            split
            · exact safe_any_ret.mpr (h₄.quiet h₅)
            · exact safe_any_ret.mpr (h₄.quiet h₅)
          · split
            · exact safe_any_ret.mpr h₄
            · exact safe_any_ret.mpr h₄

/-- `pkg_stream_file` sends `DATA` frames. -/
theorem pkgStreamFile_safe (path : Bytes) (offset chunkSize delay hold : ℕ) (hreq : Requested tr)
    (hst : StillStreaming tr tr) :
    Safe (Env.any serverInterface) (lawfulCall cfg) (fun _ => StillStreaming tr)
      (pkgStreamFile path offset chunkSize delay hold) tr := by
  unfold pkgStreamFile pkgFileSize
  simp only [Prog.call_bind, Prog.ret_bind, file_call, file_ret]
  refine safe_quiet nofun fun size tr₁ h₁ _ => ?_
  have h₁ := hst.quiet h₁
  cases size with
  | none => exact safe_any_ret.mpr h₁
  | some size =>
      by_cases hargs : offset > size ∨ chunkSize < minChunkSize ∨ chunkSize > maxChunkSize
      · simp only [if_pos hargs]
        exact safe_any_ret.mpr h₁
      simp only [if_neg hargs]
      refine safe_quiet nofun fun fp tr₂ h₂ _ => ?_
      have h₂ := h₁.quiet h₂
      cases fp with
      | none => exact safe_any_ret.mpr h₂
      | some fp =>
          refine safe_quiet nofun fun seeked tr₃ h₃ _ => ?_
          have h₃ := h₂.quiet h₃
          cases seeked with
          | false => exact safe_quiet nofun fun _ tr₄ h₄ _ => safe_any_ret.mpr (h₃.quiet h₄)
          | true =>
              refine safe_quiet nofun fun buf tr₄ h₄ _ => ?_
              have h₄ := h₃.quiet h₄
              cases buf with
              | false => exact safe_quiet nofun fun _ tr₅ h₅ _ => safe_any_ret.mpr (h₄.quiet h₅)
              | true =>
                  refine safe_bind.mpr (Safe.post (Q := fun _ => StillStreaming tr)
                    (safe_loop _ trivial (fun _ => StillStreaming tr) ?_ _ h₄) fun rc tr₅ h₅ => ?_)
                  rotate_left
                  · refine safe_quiet nofun fun _ tr₆ h₆ _ => safe_quiet nofun fun _ tr₇ h₇ _ => ?_
                    have h₇ := (h₅.quiet h₆).quiet h₇
                    cases rc with
                    | true => exact safe_quiet nofun fun _ tr₈ h₈ _ => safe_any_ret.mpr (h₇.quiet h₈)
                    | false => exact safe_any_ret.mpr h₇
                  · intro sent tr' h
                    refine (streamRound_safe fp size chunkSize delay hold sent hreq h).post ?_
                    intro r tr'' h
                    cases r with
                    | inl sent => exact h
                    | inr rc => exact fun _ ht => ht ▸ h

end Stream

section Session

variable {cfg : ServerConfig} {tr : ServerHistory}

/-- How a session ends. -/
def Ends (rc : Bool) (tr : ServerHistory) : Prop := rc = true ↔ Said tr .bye

theorem Ends.failed {tr : ServerHistory} (h : .bye ∉ sentTypes tr) : Ends false tr :=
  ⟨nofun, fun hs => absurd hs (not_said h)⟩

/-- `BYE` is the last thing to say. -/
theorem safe_bye {path : List MsgType} (hpath : ProtocolPath path)
    (hts : sentTypes tr ++ [.bye] <+: path) (hbye : .bye ∉ sentTypes tr) :
    Safe (Env.any serverInterface) (lawfulCall cfg) Ends (protoSend (emptyFrame .bye)) tr := by
  refine safe_any_call.mpr ⟨⟨.said hpath hts, trivial⟩, fun sent => safe_any_ret.mpr ?_⟩
  constructor
  · rintro rfl
    exact ⟨emptyFrame .bye, rfl, by simp⟩
  · rintro ⟨f, hf, hm⟩
    rcases List.mem_append.mp hm with hm | hm
    · exact absurd ⟨f, hf, hm⟩ (not_said hbye)
    · cases List.mem_singleton.mp hm
      rfl

theorem bye_not_mem_streaming (n : ℕ) : MsgType.bye ∉ streaming n := by
  simp [streaming]

theorem finishTransfer_safe (manifest : Manifest) (clientId : Bytes) (offset : ℕ) {n : ℕ}
    (hts : sentTypes tr = streaming n) (hreq : Requested tr) (hst : Streamed cfg tr) :
    Safe (Env.any serverInterface) (lawfulCall cfg) Ends
      (finishTransfer manifest clientId offset) tr := by
  have hpath : streaming n ++ [.transferDone] <+: streaming n ++ [.transferDone, .bye] :=
    (List.prefix_append_right_inj _).mpr ⟨[.bye], rfl⟩
  unfold finishTransfer
  simp only [Prog.call_bind, Prog.ret_bind]
  refine safe_protoSend (.said (update_path n) (hts ▸ hpath)) ⟨hreq, hst⟩ fun ok tr₁ h₁ hm => ?_
  have hdone : ∀ {tr'}, Extends tr tr' [.transferDone] →
      sentTypes tr' = streaming n ++ [.transferDone] := fun h => by rw [h.2, hts]
  have hbye : ∀ {tr'}, Extends tr tr' [.transferDone] → MsgType.bye ∉ sentTypes tr' := by
    intro tr' h
    rw [hdone h]
    simp [bye_not_mem_streaming]
  cases ok with
  | false => exact safe_any_ret.mpr (.failed (hbye h₁))
  | true =>
      refine safe_bind.mpr (recvControl_safe ?_ fun tr₂ h₂ =>
        safe_any_ret.mpr (.failed (hbye (h₁.trans h₂))))
      intro tr₂ type payload h₂ _
      have h₂ := h₁.trans h₂
      -- whatever the client reports, it is answered by `BYE`
      have hlast : ∀ {tr₃}, Extends tr tr₃ [.transferDone] →
          Safe (Env.any serverInterface) (lawfulCall cfg) Ends (protoSend (emptyFrame .bye)) tr₃ := by
        intro tr₃ h₃
        refine safe_bye (update_path n) ?_ (hbye h₃)
        rw [hdone h₃, List.append_assoc]
        exact List.prefix_refl _
      cases type with
      | result =>
          by_cases hstatus : kvGet payload (ascii "status") 32 ≠ some (ascii "ok")
          · simp only [if_pos hstatus]
            exact safe_quiet nofun fun _ tr₃ h₃ _ => safe_quiet nofun fun _ tr₄ h₄ _ =>
              hlast ((h₂.trans h₃).trans h₄)
          · simp only [if_neg hstatus]
            exact safe_quiet nofun fun _ tr₃ h₃ _ => safe_quiet nofun fun _ tr₄ h₄ _ =>
              hlast ((h₂.trans h₃).trans h₄)
      | _ => exact safe_any_ret.mpr (.failed (hbye h₂))

theorem offerUpdate_safe {manifest : Manifest} (clientId current : Bytes)
    (hts : sentTypes tr = [.hello, .authOk]) (hok : Said tr .authOk)
    (hcmp : Compared tr manifest (· < 0)) :
    Safe (Env.any serverInterface) (lawfulCall cfg) Ends
      (offerUpdate cfg manifest clientId current) tr := by
  have refuse : ∀ {tr' : ServerHistory} {n : ℕ} {code message : Bytes},
      sentTypes tr' <+: streaming n → sentTypes tr' ≠ [] →
      Safe (Env.any serverInterface) (lawfulCall cfg) Ends
        (.call (.protoSend (errorFrame code message)) fun _ => .ret false) tr' := by
    intro tr' n code message hpre hne
    refine safe_protoSendError (update_path n) (hpre.trans (streaming_begins n)) hne fun tr'' h => ?_
    refine .failed fun hm => ?_
    rw [h.2] at hm
    rcases List.mem_append.mp hm with hm | hm
    · exact bye_not_mem_streaming n (hpre.subset hm)
    · cases List.mem_singleton.mp hm
  have hfailed : ∀ {tr' : ServerHistory} {n : ℕ}, sentTypes tr' = streaming n → Ends false tr' :=
    fun h => .failed (h ▸ bye_not_mem_streaming _)
  unfold offerUpdate
  cases hres : pkgResolvePath cfg.packageDir manifest.packageFile (maxPathLen * 2) with
  | none =>
      simp only [Prog.call_bind, Prog.ret_bind]
      refine safe_quiet nofun fun _ tr₁ h₁ _ => refuse (n := 0) ?_ ?_
      · rw [h₁.2, hts]
        exact ⟨[.updateAvailable], rfl⟩
      · rw [h₁.2, hts]
        exact List.cons_ne_nil _ _
  | some packagePath =>
      simp only [Prog.call_bind, Prog.ret_bind]
      refine safe_quiet nofun fun _ tr₁ h₁ _ => ?_
      have hts₁ : sentTypes tr ++ [] = [.hello, .authOk] := by rw [hts]; rfl
      refine safe_protoSend ?_ ⟨hok.mono h₁.1, manifest, hcmp.mono h₁.1⟩ fun ok tr₂ h₂ hm => ?_
      · rw [h₁.2, hts₁]
        exact .said (update_path 0) (streaming_begins 0)
      have hts₂ : ∀ {tr'}, Extends tr₂ tr' [] → sentTypes tr' = streaming 0 :=
        fun h => by rw [((h₁.trans h₂).trans h).2, hts]; rfl
      cases ok with
      | false => exact safe_any_ret.mpr (hfailed (hts₂ (.refl _)))
      | true =>
          have hoffer : ∀ {tr'}, Extends tr₂ tr' [] → Said tr' .updateAvailable := fun h =>
            Said.mono h.1 ⟨_, rfl, hm⟩
          have hrefuse : ∀ {tr' : ServerHistory} {code message : Bytes}, Extends tr₂ tr' [] →
              Safe (Env.any serverInterface) (lawfulCall cfg) Ends
                (.call (.protoSend (errorFrame code message)) fun _ => .ret false) tr' :=
            fun h => refuse (n := 0) (hts₂ h ▸ List.prefix_refl _)
              (hts₂ h ▸ List.cons_ne_nil _ _)
          refine safe_bind.mpr (recvControl_safe ?_ fun tr₃ h₃ => hrefuse h₃)
          intro tr₃ type payload h₃ hheard
          have hcmp₃ := hcmp.mono (((h₁.trans h₂).trans h₃).1)
          cases type with
          | downloadReq =>
              by_cases hoff : kvGetU64 payload (ascii "offset")
                  ((manifest.packageSize + 1) % 2 ^ 64) > manifest.packageSize
              · simp only [if_pos hoff]
                exact hrefuse h₃
              simp only [if_neg hoff]
              have hreq : Requested tr₃ :=
                ⟨manifest, payload, hoffer h₃, hcmp₃, hheard, Nat.le_of_not_lt hoff⟩
              refine safe_quiet nofun fun _ tr₄ h₄ _ => ?_
              have hst : StillStreaming _ _ :=
                ⟨List.prefix_refl _, 0, by rw [h₄.2, hts₂ h₃, List.append_nil]⟩
              refine safe_bind.mpr ((pkgStreamFile_safe packagePath _ _ _ _
                (hreq.mono h₄.1) hst).any_history.post ?_)
              rintro streamed tr₅ ⟨⟨hpre, n, hn⟩, calls, rfl, hcalls⟩
              refine safe_quiet nofun fun _ tr₆ h₆ _ => ?_
              have hn₆ : ∀ {tr'}, Extends tr₆ tr' [] → sentTypes tr' = streaming n :=
                fun h => by rw [(h₆.trans h).2, hn]; exact List.append_nil _
              cases streamed with
              | false =>
                  exact safe_quiet nofun fun _ tr₇ h₇ _ => safe_any_ret.mpr (hfailed (hn₆ h₇))
              | true =>
                  refine finishTransfer_safe manifest clientId _ (hn₆ (.refl _)) ?_ ?_
                  · exact hreq.mono (h₄.1.trans (hpre.trans h₆.1))
                  · exact ⟨packagePath, _, tr₄, calls, _, h₆.1.choose_spec.symm, hcalls⟩
          | _ => exact hrefuse h₃

theorem reservedSession_safe (clientInfo : Bytes) {clientId : Bytes} (hts : sentTypes tr = [.hello])
    (hauth : Authenticated cfg tr clientId)
    (hres : answered (.reserveActiveClientId clientId) .reserved ∈ tr) :
    Safe (Env.any serverInterface) (lawfulCall cfg) Ends
      (reservedSession cfg clientInfo clientId) tr := by
  unfold reservedSession
  simp only [Prog.call_bind, Prog.ret_bind]
  refine safe_protoSend ?_ ⟨clientId, hauth, hres⟩ fun ok tr₁ h₁ hm => ?_
  · rw [hts]
    exact .said (update_path 0) ⟨[.updateAvailable, .transferDone, .bye], rfl⟩
  have hts₁ : ∀ {tr'}, Extends tr₁ tr' [] → sentTypes tr' = [.hello, .authOk] :=
    fun h => by rw [(h₁.trans h).2, hts]; rfl
  have hfailed : ∀ {tr'}, Extends tr₁ tr' [] → Ends false tr' :=
    fun h => .failed (by rw [hts₁ h]; decide)
  cases ok with
  | false => exact safe_any_ret.mpr (hfailed (.refl _))
  | true =>
      have hok : ∀ {tr'}, Extends tr₁ tr' [] → Said tr' .authOk := fun h =>
        Said.mono h.1 ⟨_, rfl, hm⟩
      have refuse : ∀ {tr' : ServerHistory} {code message : Bytes}, Extends tr₁ tr' [] →
          Safe (Env.any serverInterface) (lawfulCall cfg) Ends
            (.call (.protoSend (errorFrame code message)) fun _ => .ret false) tr' := by
        intro tr' code message h
        refine safe_protoSendError hello_path ?_ ?_ fun tr'' h' => .failed ?_
        · rw [hts₁ h]
          exact ⟨[.uptodate, .bye], rfl⟩
        · rw [hts₁ h]
          exact List.cons_ne_nil _ _
        · rw [h'.2, hts₁ h]
          decide
      refine safe_quiet nofun fun _ tr₂ h₂ _ => ?_
      refine safe_bind.mpr (recvControl_safe ?_ fun tr₃ h₃ => refuse (h₂.trans h₃))
      intro tr₃ type payload h₃ hheard
      have h₃ := h₂.trans h₃
      cases type with
      | versionReq =>
          cases hcur : kvGet payload (ascii "cur") maxVersionStr with
          | none =>
              simp only [hcur]
              exact safe_quiet nofun fun _ tr₄ h₄ _ => refuse (h₃.trans h₄)
          | some current =>
              simp only [hcur]
              by_cases hvalid : verIsValid current = true
              swap
              · simp only [hvalid]
                exact safe_quiet nofun fun _ tr₄ h₄ _ => refuse (h₃.trans h₄)
              simp only [hvalid, not_true_eq_false, if_false]
              refine safe_quiet nofun fun snapshot tr₄ h₄ hsnap => ?_
              cases snapshot with
              | none => exact refuse (h₃.trans h₄)
              | some manifest =>
                  cases hcmp : verCompareText current manifest.latestVersion with
                  | none =>
                      simp only [hcmp]
                      exact refuse (h₃.trans h₄)
                  | some cmp =>
                      simp only [hcmp]
                      have h₅ := h₃.trans h₄
                      have compared : ∀ {holds : ℤ → Prop}, holds cmp → Compared _ manifest holds :=
                        fun hh => ⟨payload, current, cmp, hheard.mono h₄.1, hcur, hvalid,
                          hsnap, hcmp, hh⟩
                      by_cases hge : cmp ≥ 0
                      · simp only [if_pos hge]
                        refine safe_quiet nofun fun _ tr₆ h₆ _ => safe_quiet nofun fun _ tr₇ h₇ _ => ?_
                        have h₈ := (h₅.trans h₆).trans h₇
                        refine safe_protoSend ?_ ⟨hok h₈, manifest,
                          (compared hge).mono (h₆.trans h₇).1⟩ fun ok tr₉ h₉ hm => ?_
                        · rw [hts₁ h₈]
                          exact .said hello_path ⟨[.bye], rfl⟩
                        cases ok with
                        | true =>
                            refine safe_bye hello_path ?_ ?_
                            · rw [h₉.2, hts₁ h₈]
                              exact List.prefix_refl _
                            · rw [h₉.2, hts₁ h₈]
                              exact of_decide_eq_true rfl
                        | false =>
                            refine safe_any_ret.mpr (.failed ?_)
                            rw [h₉.2, hts₁ h₈]
                            exact of_decide_eq_true rfl
                      · simp only [if_neg hge]
                        exact offerUpdate_safe clientId current (hts₁ h₅) (hok h₅)
                          (compared (lt_of_not_ge hge))
      | _ => exact refuse h₃

/-- The session keeps the laws at each send, and ends as it should. -/
theorem handleClientSession_safe (cfg : ServerConfig) (clientInfo : Bytes) :
    Safe (Env.any serverInterface) (lawfulCall cfg) Ends (handleClientSession cfg clientInfo) [] := by
  unfold handleClientSession
  simp only [Prog.call_bind, Prog.ret_bind]
  refine safe_protoSend (.said hello_path ⟨[.authOk, .uptodate, .bye], rfl⟩) trivial fun ok tr₁ h₁ hm => ?_
  have hts₁ : ∀ {tr'}, Extends tr₁ tr' [] → sentTypes tr' = [.hello] :=
    fun h => by rw [(h₁.trans h).2]; rfl
  cases ok with
  | false => exact safe_any_ret.mpr (.failed (by rw [hts₁ (.refl _)]; decide))
  | true =>
      refine safe_bind.mpr ((authenticateClient_safe (hts₁ (.refl _))).post fun r tr₂ h₂ => ?_)
      cases r with
      | none =>
          refine safe_any_ret.mpr (.failed ?_)
          rw [h₂.2, hts₁ (.refl _)]
          decide
      | some clientId =>
          obtain ⟨h₂, hauth⟩ := h₂
          have refuse : ∀ {tr' : ServerHistory} {code message : Bytes}, Extends tr₁ tr' [] →
              Safe (Env.any serverInterface) (lawfulCall cfg) Ends
                (.call (.protoSend (errorFrame code message)) fun _ => .ret false) tr' := by
            intro tr' code message h
            refine safe_protoSendError hello_path ?_ ?_ fun tr'' h' => .failed ?_
            · rw [hts₁ h]
              exact ⟨[.authOk, .uptodate, .bye], rfl⟩
            · rw [hts₁ h]
              exact List.cons_ne_nil _ _
            · rw [h'.2, hts₁ h]
              decide
          refine safe_quiet nofun fun reservation tr₃ h₃ hres => ?_
          have h₃' := h₂.trans h₃
          cases reservation with
          | duplicate => exact safe_quiet nofun fun _ tr₄ h₄ _ => refuse (h₃'.trans h₄)
          | full => exact safe_quiet nofun fun _ tr₄ h₄ _ => refuse (h₃'.trans h₄)
          | reserved =>
              refine safe_bind.mpr ((reservedSession_safe clientInfo (hts₁ h₃') (hauth.mono h₃.1)
                hres).post fun rc tr₄ h₄ => ?_)
              refine safe_any_call.mpr ⟨trivial, fun _ => safe_any_ret.mpr (h₄.trans ?_)⟩
              constructor
              · exact fun h => h.mono (List.prefix_append _ _)
              · rintro ⟨f, hf, hm⟩
                rcases List.mem_append.mp hm with hm | hm
                · exact ⟨f, hf, hm⟩
                · cases List.mem_singleton.mp hm

end Session

/-! ### Every history -/

/-- A history whose sends all follow the path follows it. -/
theorem followsPath_of_calls {cfg : ServerConfig} (tr : ServerHistory)
    (h : ∀ before x after, tr = before ++ x :: after → lawfulCall cfg before x.1) :
    FollowsPath (sentTypes tr) := by
  induction tr using List.reverseRecOn with
  | nil => exact .said hello_path List.nil_prefix
  | append_singleton tr x ih =>
      have hlast := h tr x [] rfl
      have hinit : FollowsPath (sentTypes tr) := ih fun before y after ht =>
        h before y (after ++ [x]) (by rw [ht, List.append_assoc, List.cons_append])
      obtain ⟨o, r⟩ := x
      rw [sentTypes_append]
      cases o with
      | protoSend f => exact hlast.1
      | _ => exact (List.append_nil (sentTypes tr)).symm ▸ hinit

/-- **Authorization safety of the session.**  Wherever a session runs, and whatever its peer sends
and whichever of its calls fail, its frames follow one path of the protocol, each after what
entitles the client to it, and it returns `0` exactly when it has sent `BYE`. -/
theorem handleClientSession_lawful (cfg : ServerConfig) (clientInfo : Bytes) {σ : Type}
    (env : Env serverInterface σ) (s : σ) {c : ServerProg Bool × σ × ServerHistory}
    (h : Run env.traced (handleClientSession cfg clientInfo, s, []) c) :
    Lawful cfg c.1 c.2.2 := by
  have hrun : History (handleClientSession cfg clientInfo) c.1 c.2.2 := h.history
  have hsafe := handleClientSession_safe cfg clientInfo
  have hcalls : ∀ before x after, c.2.2 = before ++ x :: after → lawfulCall cfg before x.1 :=
    fun _ _ _ ht => hsafe.any_calls hrun ht
  refine ⟨followsPath_of_calls c.2.2 hcalls, ?_, ?_⟩
  · intro before f sent after ht
    exact (hcalls before _ after ht).2
  · intro rc hrc
    have hend := hsafe.run hrun
    rw [hrc] at hend
    exact hend.result

/-- A peer that has said all it will say, and the files of the server. -/
def downloader : SessionWorld where
  files := .only (ascii "./packages/app.bin") (ascii "abcd")
  wire :=
    { inbox := [⟨.auth, 0, ascii "id=client_001"⟩, ⟨.versionReq, 0, ascii "cur=1.0.0"⟩,
        ⟨.downloadReq, 0, ascii "offset=1"⟩, ⟨.result, 0, ascii "status=ok"⟩] }

/-- What the peer is offered. -/
def manifestAbcd : Manifest where
  latestVersion := ascii "2.0.0"
  packageFile := ascii "app.bin"
  checksumSha256 := ascii "88d4266fd4e6338d13b845fcf289579d209c897823b9217da3e161936f031589"
  packageSize := 4

/-- The session with it. -/
def servedSession : ServerProg Bool × SessionWorld × ServerHistory :=
  (handleClientSession .shipped (ascii "peer")).answered
    (SessionWorld.answer (ascii "client_001") manifestAbcd) 40 (downloader, [])

/-- A client authenticates, is offered a newer version, gets what it lacks of the package, and is left
with `BYE`. -/
theorem handleClientSession_lawful_served : ∃ w tr,
    Run (servingEnv (· = manifestAbcd)).traced
        (handleClientSession .shipped (ascii "peer"), downloader, []) (.ret true, w, tr) ∧
      sentTypes tr = [.hello, .authOk, .updateAvailable, .data, .transferDone, .bye] ∧
      Lawful .shipped (.ret true) tr := by
  have hmay : ∀ w o, (servingEnv (· = manifestAbcd)).may w o
      (w.answer (ascii "client_001") manifestAbcd o).1 (w.answer (ascii "client_001") manifestAbcd o).2 :=
    servingMay_answer (by rfl) _
  have hrun : Run (servingEnv (· = manifestAbcd)).traced
      (handleClientSession .shipped (ascii "peer"), downloader, []) servedSession :=
    Prog.run_answered hmay ..
  have hret : servedSession.1.returned = some true := by decide +kernel
  have hsent : sentTypes servedSession.2.2 =
      [.hello, .authOk, .updateAvailable, .data, .transferDone, .bye] := by decide +kernel
  generalize servedSession = c at hrun hret hsent
  obtain ⟨p, w, tr⟩ := c
  obtain rfl := Prog.ret_of_returned hret
  exact ⟨w, tr, hrun, hsent, handleClientSession_lawful .shipped _ _ _ hrun⟩

end UpdateFramework.Server
