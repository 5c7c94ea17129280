import UpdateFramework.Client.Downloader
import UpdateFramework.Client.World
import UpdateFramework.Server.World

/-!
# System — a client and its connections

A client whose process may die and be started again, and the sessions at the other ends of its
connections.  Each connection keeps the order of its frames and may lose them from any point on:
nobody reads what was not said (`Linked`).
-/

namespace UpdateFramework

/-- A frame arrives. -/
def Wire.arrived (w : Wire) (f : Frame) : Wire := { w with inbox := w.inbox ++ [f] }

namespace System

open Libc Process

/-! ### The machine -/

/-- The programs of a client and of the sessions, and what their calls may answer. -/
structure Roles where
  process : ClientProg Client.CheckResult
  session : ServerProg Bool
  rules : ClientRules
  published : Manifest → Prop
  /-- The files a session may find. -/
  found : FileSystem Bytes → Prop

structure Machine where
  process : ClientProg Client.CheckResult
  client : ClientWorld
  /-- The client's connection. -/
  line : Option ℕ
  /-- The connections there have been. -/
  opened : ℕ
  /-- What was said on the connections the client has left. -/
  past : ℕ → List Frame
  /-- The sessions at the other ends. -/
  sessions : ℕ → Option (ServerProg Bool × SessionWorld)

namespace Machine

/-- What the client has said on a connection. -/
def said (s : Machine) (k : ℕ) : List Frame :=
  if s.line = some k then s.client.wire.outs else s.past k

/-- What the session on the client's connection has said. -/
def replied (s : Machine) : List Frame :=
  match s.line.bind s.sessions with
  | some x => x.2.wire.outs
  | none => []

/-- The session on connection `k` is at `p` and `w`. -/
def withSession (s : Machine) (k : ℕ) (p : ServerProg Bool) (w : SessionWorld) : Machine :=
  { s with sessions := Function.update s.sessions k (some (p, w)) }

/-- Other processes have made the client's files `fs`. -/
def withFiles (s : Machine) (fs : FileSystem Path) : Machine :=
  { s with client := { s.client with fs := fs } }

/-- A client that is started on `fs`. -/
def start (e : Roles) (fs : FileSystem Path) : Machine where
  process := e.process
  client := ⟨fs, {}, false, false, 0⟩
  line := none
  opened := 0
  past := fun _ => []
  sessions := fun _ => none

end Machine

/-- What happens to the client in a step. -/
inductive Event where
  | calls (o : ClientOp)
  /-- Its process is killed or exits, and is started again. -/
  | dies
  /-- Other processes change the files the clients share. -/
  | others
  /-- Nothing, or a frame arrives. -/
  | nothing

inductive Step (e : Roles) : Event → Machine → Machine → Prop where
  | client {s : Machine} {o : ClientOp} {k : ClientOp.Res o → ClientProg Client.CheckResult}
      {r : ClientOp.Res o} {w : ClientWorld} (hp : s.process = .call o k) (ho : o ≠ .netConnectTcp)
      (hm : (clientEnv e.rules).may s.client o r w) :
      Step e (.calls o) s { s with process := k r, client := w }
  | refused {s : Machine} {k : Option ℕ → ClientProg Client.CheckResult}
      (hp : s.process = .call .netConnectTcp k) (hlossy : e.rules.lossy) :
      Step e (.calls .netConnectTcp) s { s with process := k none }
  | connects {s : Machine} {k : Option ℕ → ClientProg Client.CheckResult} (fd : ℕ)
      (hp : s.process = .call .netConnectTcp k) :
      Step e (.calls .netConnectTcp) s { s with
        process := k (some fd)
        client := { s.client with wire := {} }
        line := some s.opened
        opened := s.opened + 1
        past := s.said }
  | others {s : Machine} {fs : FileSystem Path} (h : e.rules.others s.client.fs fs) :
      Step e .others s (s.withFiles fs)
  | dies {s : Machine} {fs : FileSystem Path} (h : FileSystem.Dies s.client.fs fs) :
      Step e .dies s { s with
        process := e.process
        client := ⟨fs, {}, false, false, 0⟩
        line := none
        past := s.said }
  | accepts {s : Machine} {k : ℕ} {files : FileSystem Bytes} (hk : k < s.opened)
      (hnone : s.sessions k = none) (hfiles : e.found files) :
      Step e .nothing s (s.withSession k e.session ⟨files, {}⟩)
  | session {s : Machine} {k : ℕ} {o : ServerOp} {q : ServerOp.Res o → ServerProg Bool}
      {r : ServerOp.Res o} {w w' : SessionWorld} (hs : s.sessions k = some (.call o q, w))
      (hm : (servingEnv e.published).may w o r w') :
      Step e .nothing s (s.withSession k (q r) w')
  /-- A frame arrives at the client. -/
  | toClient {s : Machine} {f : Frame}
      (hf : s.client.wire.ins ++ s.client.wire.inbox ++ [f] <+: s.replied) :
      Step e .nothing s { s with client := { s.client with wire := s.client.wire.arrived f } }
  /-- A frame arrives at a session. -/
  | toServer {s : Machine} {k : ℕ} {f : Frame} {p : ServerProg Bool} {w : SessionWorld}
      (hs : s.sessions k = some (p, w)) (hf : w.wire.ins ++ w.wire.inbox ++ [f] <+: s.said k) :
      Step e .nothing s (s.withSession k p { w with wire := w.wire.arrived f })

abbrev Steps (e : Roles) : Machine → Machine → Prop :=
  Relation.ReflTransGen fun s s' => ∃ ev, Step e ev s s'

theorem Steps.snoc {e : Roles} {ev : Event} {s s' s'' : Machine} (h : Steps e s s')
    (hs : Step e ev s' s'') : Steps e s s'' := .tail h ⟨ev, hs⟩

/-! ### The connections -/

/-- Who has read what of what was said. -/
structure Linked (s : Machine) : Prop where
  line : ∀ k, s.line = some k → k < s.opened
  server : ∀ k p w, s.sessions k = some (p, w) →
    k < s.opened ∧ w.wire.ins ++ w.wire.inbox <+: s.said k
  client : s.client.wire.ins ++ s.client.wire.inbox <+: s.replied

/-- A call of the client says something more, or reads what has arrived. -/
theorem client_wire {ru : ClientRules} {w w' : ClientWorld} {o : ClientOp} {r : ClientOp.Res o}
    (ho : o ≠ .netConnectTcp) (hm : (clientEnv ru).may w o r w') :
    w'.wire.ins ++ w'.wire.inbox = w.wire.ins ++ w.wire.inbox ∧ w.wire.outs <+: w'.wire.outs := by
  cases o with
  | netConnectTcp => exact absurd rfl ho
  | file o =>
      obtain ⟨fs, -, rfl⟩ := hm
      exact ⟨rfl, List.prefix_refl _⟩
  | protoSend f =>
      obtain ⟨_, hs, rfl⟩ := hm
      cases hs with
      | sent h => exact ⟨rfl, List.prefix_append ..⟩
      | failed h => exact ⟨rfl, List.prefix_refl _⟩
  | protoRecv cap dataCap =>
      obtain ⟨_, hr, rfl⟩ := hm
      cases hr with
      | ok f fs hin hfit =>
          refine ⟨?_, List.prefix_refl _⟩
          show w.wire.ins ++ [f] ++ w.wire.inbox.tail = _
          rw [hin, List.tail_cons, ← List.append_cons]
      | tooLarge f fs hin hfit => exact ⟨rfl, List.prefix_refl _⟩
      | failed hl r hr => exact ⟨rfl, List.prefix_refl _⟩
  | tlsConnectConnection _ | stopRequested | activeFdWasSignalClosed _ | consumePauseRequest
  | consumeResumeRequest | resumeRetryActive | malloc _ =>
      obtain ⟨-, rfl⟩ := hm
      exact ⟨rfl, List.prefix_refl _⟩
  | setPaused | setResumeRetryActive _ | connClose _ | sslFree | setActiveFd _ | free | usleep _ =>
      cases hm
      exact ⟨rfl, List.prefix_refl _⟩

/-- So does a call of a session. -/
theorem session_wire {published : Manifest → Prop} {w w' : SessionWorld} {o : ServerOp} {r : ServerOp.Res o}
    (hm : (servingEnv published).may w o r w') :
    w'.wire.ins ++ w'.wire.inbox = w.wire.ins ++ w.wire.inbox ∧ w.wire.outs <+: w'.wire.outs := by
  cases o with
  | file o =>
      obtain ⟨fs, -, rfl⟩ := hm
      exact ⟨rfl, List.prefix_refl _⟩
  | protoSend f =>
      obtain ⟨_, hs, rfl⟩ := hm
      cases hs with
      | sent h => exact ⟨rfl, List.prefix_append ..⟩
      | failed h => exact ⟨rfl, List.prefix_refl _⟩
  | protoRecv cap dataCap =>
      obtain ⟨_, hr, rfl⟩ := hm
      cases hr with
      | ok f fs hin hfit =>
          refine ⟨?_, List.prefix_refl _⟩
          show w.wire.ins ++ [f] ++ w.wire.inbox.tail = _
          rw [hin, List.tail_cons, ← List.append_cons]
      | tooLarge f fs hin hfit => exact ⟨rfl, List.prefix_refl _⟩
      | failed hl r hr => exact ⟨rfl, List.prefix_refl _⟩
  | vmGetSnapshot =>
      obtain ⟨-, rfl⟩ := hm
      exact ⟨rfl, List.prefix_refl _⟩
  | _ =>
      cases hm
      exact ⟨rfl, List.prefix_refl _⟩

section Linked

variable {e : Roles} {ev : Event} {s s' : Machine} {k : ℕ} {p : ServerProg Bool} {w : SessionWorld}

@[simp] theorem said_withSession (k' : ℕ) : (s.withSession k p w).said k' = s.said k' := rfl

theorem withSession_same : (s.withSession k p w).sessions k = some (p, w) := Function.update_self ..

theorem withSession_ne {k' : ℕ} (h : k' ≠ k) :
    (s.withSession k p w).sessions k' = s.sessions k' := Function.update_of_ne h ..

/-- A session that has said no less replies no less. -/
theorem replied_withSession (h : ∀ q v, s.sessions k = some (q, v) → v.wire.outs <+: w.wire.outs) :
    s.replied <+: (s.withSession k p w).replied := by
  have hline : (s.withSession k p w).line = s.line := rfl
  unfold Machine.replied
  rw [hline]
  cases s.line with
  | none => exact List.prefix_refl _
  | some k' =>
      simp only [Option.bind_some]
      by_cases hk : k' = k
      · subst hk
        rw [withSession_same]
        cases hs : s.sessions k' with
        | none => exact List.nil_prefix
        | some x => exact h x.1 x.2 hs
      · rw [withSession_ne hk]

/-- A session goes on, having read no more than was said to it. -/
theorem Linked.withSession (h : Linked s) (hk : k < s.opened)
    (hread : w.wire.ins ++ w.wire.inbox <+: s.said k)
    (hgrows : ∀ q v, s.sessions k = some (q, v) → v.wire.outs <+: w.wire.outs) :
    Linked (s.withSession k p w) where
  line := h.line
  server k' p' w' hs := by
    by_cases hk' : k' = k
    · subst hk'
      rw [withSession_same] at hs
      cases hs
      exact ⟨hk, hread⟩
    · rw [withSession_ne hk'] at hs
      exact h.server k' p' w' hs
  client := h.client.trans (replied_withSession hgrows)

/-- The client goes on, having said no less and read no more. -/
theorem Linked.client_step (h : Linked s) {process : ClientProg Client.CheckResult}
    {client : ClientWorld}
    (hin : client.wire.ins ++ client.wire.inbox <+: s.replied)
    (hout : s.client.wire.outs <+: client.wire.outs) :
    Linked { s with process := process, client := client } where
  line := h.line
  server k p w hs := by
    obtain ⟨hk, hp⟩ := h.server k p w hs
    refine ⟨hk, hp.trans ?_⟩
    unfold Machine.said
    by_cases hl : s.line = some k
    · simpa only [hl, if_true] using hout
    · simp only [hl, if_false, List.prefix_refl]
  client := hin

/-- The client leaves its connection. -/
theorem Linked.leaves (h : Linked s) {process : ClientProg Client.CheckResult}
    {client : ClientWorld} (hwire : client.wire = {}) {line : Option ℕ} {opened : ℕ}
    (hline : line = none ∧ opened = s.opened ∨ line = some s.opened ∧ opened = s.opened + 1) :
    Linked { s with
      process := process, client := client, line := line, opened := opened, past := s.said } where
  line k hk := by
    rcases hline with ⟨rfl, rfl⟩ | ⟨rfl, rfl⟩
    · cases hk
    · cases hk
      exact Nat.lt_succ_self _
  server k p w hs := by
    obtain ⟨hk, hp⟩ := h.server k p w hs
    rcases hline with ⟨rfl, rfl⟩ | ⟨rfl, rfl⟩
    · exact ⟨hk, hp⟩
    · refine ⟨Nat.lt_succ_of_lt hk, ?_⟩
      have hne : some s.opened ≠ some k := fun h => Nat.ne_of_gt hk (Option.some.inj h)
      simpa only [Machine.said, hne, if_false] using hp
  client := by
    rw [hwire]
    exact List.nil_prefix

/-- Whatever happens, nobody reads what was not said. -/
theorem Linked.step (h : Linked s) (hs : Step e ev s s') : Linked s' := by
  cases hs with
  | client hp ho hm =>
      obtain ⟨hin, hout⟩ := client_wire ho hm
      exact h.client_step (hin ▸ h.client) hout
  | refused hp hlossy => exact h.client_step h.client (List.prefix_refl _)
  | connects fd hp => exact h.leaves rfl (.inr ⟨rfl, rfl⟩)
  | others hfs => exact h.client_step h.client (List.prefix_refl _)
  | dies hd => exact h.leaves rfl (.inl ⟨rfl, rfl⟩)
  | accepts hk hnone hfiles =>
      refine h.withSession hk List.nil_prefix fun q v hs => ?_
      rw [hnone] at hs
      cases hs
  | session hs hm =>
      obtain ⟨hin, hout⟩ := session_wire hm
      obtain ⟨hk, hp⟩ := h.server _ _ _ hs
      refine h.withSession hk (hin ▸ hp) fun q v hs' => ?_
      cases hs.symm.trans hs'
      exact hout
  | toClient hf =>
      refine h.client_step ?_ (List.prefix_refl _)
      rwa [List.append_assoc] at hf
  | toServer hs hf =>
      refine h.withSession (h.server _ _ _ hs).1 ?_ fun q v hs' => ?_
      · rwa [List.append_assoc] at hf
      · cases hs.symm.trans hs'
        exact List.prefix_refl _

/-- What the client reads and will read has been said by the session on its connection, which has read
no more than the client has said to it. -/
theorem Linked.heard (h : Linked s) : s.client.wire.ins ++ s.client.wire.inbox = [] ∨
    ∃ k p w, s.line = some k ∧ s.sessions k = some (p, w) ∧
      s.client.wire.ins ++ s.client.wire.inbox <+: w.wire.outs ∧
      w.wire.ins <+: s.client.wire.outs := by
  have hin := h.client
  rw [Machine.replied] at hin
  cases hline : s.line.bind s.sessions with
  | none =>
      rw [hline] at hin
      exact .inl (List.prefix_nil.mp hin)
  | some x =>
      obtain ⟨p, w⟩ := x
      rw [hline] at hin
      obtain ⟨k, hk, hsession⟩ := Option.bind_eq_some_iff.mp hline
      have hread := (h.server k p w hsession).2
      rw [Machine.said, if_pos hk] at hread
      exact .inr ⟨k, p, w, hk, hsession, hin, (List.prefix_append ..).trans hread⟩

/-- What holds of a session when it begins, and is kept by its calls and by what arrives, holds of
every session. -/
theorem sessions_step {K K' : ℕ → ServerProg Bool → SessionWorld → Prop}
    (hkeep : ∀ k p w, K k p w → K' k p w)
    (hstart : ∀ k files, e.found files → K' k e.session ⟨files, {}⟩)
    (hcall : ∀ k o q r w w', s.sessions k = some (.call o q, w) → s'.sessions k = some (q r, w') →
      K k (.call o q) w → (servingEnv e.published).may w o r w' → K' k (q r) w')
    (harrive : ∀ k p w f, K' k p w → K' k p { w with wire := w.wire.arrived f })
    (h : ∀ k p w, s.sessions k = some (p, w) → K k p w) (hs : Step e ev s s') :
    ∀ k p w, s'.sessions k = some (p, w) → K' k p w := by
  have hset : ∀ k₀ p₀ w₀, K' k₀ p₀ w₀ →
      ∀ k p w, (s.withSession k₀ p₀ w₀).sessions k = some (p, w) → K' k p w := by
    intro k₀ p₀ w₀ hK k p w hsession
    by_cases hk : k = k₀
    · subst hk
      rw [withSession_same] at hsession
      cases hsession
      exact hK
    · rw [withSession_ne hk] at hsession
      exact hkeep k p w (h k p w hsession)
  cases hs with
  | client | refused | connects | others | dies | toClient =>
      exact fun k p w hsession => hkeep k p w (h k p w hsession)
  | accepts hk hnone hfiles => exact hset _ _ _ (hstart _ _ hfiles)
  | session hsession hm =>
      exact hset _ _ _ (hcall _ _ _ _ _ _ hsession withSession_same (h _ _ _ hsession) hm)
  | toServer hsession hf => exact hset _ _ _ (harrive _ _ _ _ (hkeep _ _ _ (h _ _ _ hsession)))

end Linked

theorem linked_start (e : Roles) (fs : FileSystem Path) : Linked (.start e fs) :=
  ⟨nofun, nofun, List.nil_prefix⟩

end System

end UpdateFramework
