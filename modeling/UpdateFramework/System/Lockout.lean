import UpdateFramework.Process.Projection
import UpdateFramework.System.Network

/-!
# System — reconnecting under one's own id

A process that connects anew while the session on an earlier connection of its own still holds its
id is told `DUPLICATE_CLIENT`, which it takes as final (`reconnect_locked_out`).  Where each reserve
comes after the release of the session before, it is never told so (`reconnect_not_refused`).
-/

namespace UpdateFramework.System

open Libc Process Server

/-! ### Whom a session accuses -/

/-- The error the client takes for another process with its id. -/
def Accusing (f : Frame) : Prop :=
  f.type = .error ∧ kvGet f.payload (ascii "code") 64 = some (ascii "DUPLICATE_CLIENT")

instance (f : Frame) : Decidable (Accusing f) :=
  inferInstanceAs (Decidable (_ ∧ _))

/-- An id is reserved for the peer whose certificate names it, before any other is, and
`DUPLICATE_CLIENT` is sent only after a reserve that found the id in use. -/
def accuses (tr : ServerHistory) : ServerOp → Prop
  | .reserveActiveClientId id => answered (.tlsPeerCommonName maxIdLen) (some id) ∈ tr ∧
      ∀ x ∈ tr, ∀ id', x.1 ≠ .reserveActiveClientId id'
  | .protoSend f => Accusing f → ∃ id, answered (.reserveActiveClientId id) .duplicate ∈ tr
  | _ => True

/-- Neither a reserve nor an accusation. -/
def civil : ServerOp → Prop
  | .protoSend f => ¬ Accusing f
  | .reserveActiveClientId _ => False
  | _ => True

theorem accuses_of_civil {tr : ServerHistory} {o : ServerOp} (h : civil o) : accuses tr o := by
  cases o with
  | protoSend f => exact fun hf => absurd hf h
  | reserveActiveClientId _ => exact h.elim
  | _ => trivial

theorem civil_of_talks {o : ServerOp} (h : talks o) : civil o := by
  cases o with
  | protoSend f =>
      have h : f ∈ refusals := h
      simp only [refusals, List.mem_cons, List.not_mem_nil, or_false] at h
      rcases h with rfl | rfl | rfl | rfl <;> show ¬ Accusing _ <;> decide
  | reserveActiveClientId _ => exact h.elim
  | _ => trivial

theorem civil_of_converses {o : ServerOp} (h : converses o) : civil o := by
  cases o with
  | protoSend f =>
      rcases h with h | h
      · exact fun hf => h hf.1
      · simp only [complaints, List.mem_cons, List.not_mem_nil, or_false] at h
        rcases h with rfl | rfl | rfl | rfl | rfl | rfl <;> show ¬ Accusing _ <;> decide
  | reserveActiveClientId _ => exact h.elim
  | _ => trivial

theorem civil_safe {α : Type} {p : ServerProg α} (hp : p.Only civil) (tr : ServerHistory) :
    Safe (Env.any serverInterface) accuses
      (fun _ tr' => ∃ seg, tr' = tr ++ seg ∧ ∀ x ∈ seg, civil x.1) p tr :=
  (hp.safe tr).mono (fun _ _ => accuses_of_civil) fun _ _ h => h

theorem handleClientSession_accuses (cfg : ServerConfig) (clientInfo : Bytes) :
    Safe (Env.any serverInterface) accuses (fun _ _ => True) (handleClientSession cfg clientInfo)
      [] := by
  unfold handleClientSession
  simp only [Prog.call_bind, Prog.ret_bind]
  refine safe_any_call.mpr ⟨fun hf => absurd hf.1 nofun, fun ok => ?_⟩
  cases ok with
  | false => exact safe_any_ret.mpr trivial
  | true =>
      have hcivil := civil_safe ((authenticateClient_talks cfg).mono fun _ => civil_of_talks)
        [answered (.protoSend (textFrame .hello (ascii "srv=updctl;proto=1"))) true]
      refine safe_bind.mpr ((hcivil.and (authenticateClient_safe rfl)).mono (fun _ _ h => h.1) ?_)
      rintro r tr ⟨⟨seg, rfl, hseg⟩, hauth⟩
      cases r with
      | none => exact safe_any_ret.mpr trivial
      | some clientId =>
          have hfirst : ∀ x ∈ [answered (.protoSend (textFrame .hello (ascii "srv=updctl;proto=1")))
              true] ++ seg, ∀ id', x.1 ≠ .reserveActiveClientId id' := by
            rintro x hx id' ho
            rcases List.mem_append.mp hx with hx | hx
            · cases List.mem_singleton.mp hx
              cases ho
            · exact (ho ▸ hseg x hx : civil (.reserveActiveClientId id'))
          refine safe_any_call.mpr ⟨⟨hauth.2.1, hfirst⟩, fun reservation => ?_⟩
          cases reservation with
          | duplicate =>
              refine safe_any_call.mpr ⟨trivial, fun _ => safe_any_call.mpr ⟨fun _ => ?_, fun _ =>
                safe_any_ret.mpr trivial⟩⟩
              exact ⟨clientId, by simp⟩
          | full =>
              refine (civil_safe ?_ _).post fun _ _ _ => trivial
              refine .call trivial fun _ => .call ?_ fun _ => trivial
              show ¬ Accusing _
              decide
          | reserved =>
              refine safe_bind.mpr ((civil_safe ((reservedSession_converses cfg clientInfo
                clientId).mono fun _ => civil_of_converses) _).post fun rc tr _ => ?_)
              exact safe_any_call.mpr ⟨trivial, fun _ => safe_any_ret.mpr trivial⟩

/-! ### The workers, as a pool of sessions -/

/-- The call of a session a call of a worker carries out. -/
def serverCall : Call systemInterface → Option (Call serverInterface)
  | ⟨.server _ o, r⟩ => some ⟨o, r⟩
  | _ => none

theorem tableEnv_of_sessionMay {clientId : Bytes} {k : ℕ} {w w' : Network} {o : ServerOp}
    {r : ServerOp.Res o} (h : sessionMay clientId k w o r w') : tableEnv.may w.table o r w'.table := by
  cases o with
  | reserveActiveClientId id =>
      obtain ⟨slots, hslots, rfl⟩ := h
      exact hslots
  | releaseActiveClientId id =>
      obtain rfl := h
      exact rfl
  | protoSend f =>
      cases r with
      | true =>
          obtain rfl := h
          exact rfl
      | false => exact congrArg Network.table h
  | protoRecv cap dataCap =>
      cases r with
      | ok f =>
          obtain ⟨fs, -, rfl⟩ := h
          exact rfl
      | _ => exact congrArg Network.table h
  | tlsPeerCommonName n => exact congrArg Network.table h.2
  | _ => exact congrArg Network.table h

theorem tableEnv_of_otherMay {clientId : Bytes} {w w' : Network} {o : ServerOp}
    {r : ServerOp.Res o} (h : otherMay clientId w o r w') : tableEnv.may w.table o r w'.table := by
  cases o with
  | reserveActiveClientId id =>
      obtain ⟨slots, hslots, rfl⟩ := h
      exact hslots
  | releaseActiveClientId id =>
      obtain rfl := h
      exact rfl
  | tlsPeerCommonName n => exact congrArg Network.table h.2
  | _ => exact congrArg Network.table h

theorem tableEnv_of_networkEnv {clientId : Bytes} {conn : ConnId} {w w' : Network} {o : ServerOp}
    {r : ServerOp.Res o} (h : (networkEnv clientId).may w (.server conn o) r w') :
    tableEnv.may w.table o r w'.table := by
  cases conn with
  | own k => exact tableEnv_of_sessionMay h.2
  | other k => exact tableEnv_of_otherMay h

/-- The workers carry out sessions. -/
theorem workers_carry (cfg : ClientConfig) (serverCfg : ServerConfig) {ω : Type} :
    Pool.Carries tableEnv (sessions serverCfg (ι := ω)) (networkEnv cfg.clientId)
      (parties cfg serverCfg) Network.table Party.worker onConn serverCall where
  place_inj _ _ h := by cases h; rfl
  call {x p o k} h := by
    cases p with
    | ret a => cases h
    | spin => cases h
    | call o' k' =>
        cases h
        exact ⟨o', k', rfl, fun {r s s'} hm => ⟨r, rfl, tableEnv_of_networkEnv hm, rfl⟩⟩
  ret {x p b} h := by
    cases p with
    | ret a => exact ⟨a, rfl⟩
    | spin => cases h
    | call o' k' => cases h
  start := by
    rintro i q ⟨conn, clientInfo, rfl⟩
    exact ⟨conn, _, ⟨clientInfo, rfl⟩, rfl⟩
  drift h := congrArg Network.table h

/-! ### Whose call it is -/

/-- A call of the process. -/
def ofProcess : SystemOp → Prop
  | .client _ => True
  | .server _ _ => False

/-- A call of the session on a connection. -/
def ofConn (conn : ConnId) : SystemOp → Prop
  | .client _ => False
  | .server conn' _ => conn' = conn

section Run

variable {ω : Type} {cfg : ClientConfig} {serverCfg : ServerConfig} {c d : Parties ω}
  {tr : SystemHistory}

theorem clientRun_ofProcess (bound : ℕ) (cfg : ClientConfig) :
    (clientRun bound cfg).Only ofProcess := by
  have hone : ∀ o : ClientOp,
      (Prog.call (E := systemInterface) (SystemOp.client o) .ret).Only ofProcess := fun o =>
    .call trivial fun _ => trivial
  exact (Prog.Only.interp hone _).bind fun _ => trivial

theorem onConn_ofConn (conn : ConnId) (p : ServerProg Bool) : (onConn conn p).Only (ofConn conn) := by
  have hone : ∀ o : ServerOp,
      (Prog.call (E := systemInterface) (SystemOp.server conn o) .ret).Only (ofConn conn) := fun o =>
    .call rfl fun _ => trivial
  exact (Prog.Only.interp hone p).bind fun _ => trivial

/-- The calls of the process are its own. -/
theorem process_calls (hf : Pool.Follows (parties cfg serverCfg) c)
    {p : SystemProg (Client.CheckResult ⊕ Bool)} (hi : c.threads .process = some (p, tr)) :
    (∀ x ∈ tr, ofProcess x.1) ∧ ∀ o k, p = .call o k → ofProcess o := by
  obtain ⟨p₀, ⟨bound, rfl⟩, hrun⟩ := hf _ _ _ hi
  exact Prog.Only.history (clientRun_ofProcess bound cfg) hrun

/-- The calls of a worker are on one connection. -/
theorem worker_calls (hf : Pool.Follows (parties cfg serverCfg) c) {i : ω}
    {p : SystemProg (Client.CheckResult ⊕ Bool)} (hi : c.threads (.worker i) = some (p, tr)) :
    ∃ conn, (∀ x ∈ tr, ofConn conn x.1) ∧ ∀ o k, p = .call o k → ofConn conn o := by
  obtain ⟨p₀, ⟨conn, clientInfo, rfl⟩, hrun⟩ := hf _ _ _ hi
  exact ⟨conn, Prog.Only.history (onConn_ofConn conn _) hrun⟩

theorem clientMay_table {w w' : Network} {o : ClientOp} {r : ClientOp.Res o}
    (h : clientMay w o r w') : w'.table = w.table := by
  cases o with
  | netConnectTcp =>
      cases r with
      | none => exact congrArg Network.table h
      | some fd =>
          obtain rfl := h
          exact rfl
  | protoSend f =>
      cases r with
      | true =>
          obtain rfl := h
          exact rfl
      | false => exact congrArg Network.table h
  | protoRecv cap dataCap =>
      cases r with
      | ok f =>
          obtain ⟨fs, -, rfl⟩ := h
          exact rfl
      | _ => exact congrArg Network.table h
  | _ => exact congrArg Network.table h

/-- What is true of every state reached: the threads follow their programs, their calls are answered
as they may be, and the workers are a pool of sessions with an exact table. -/
structure Base (cfg : ClientConfig) (serverCfg : ServerConfig) (c : Parties ω) : Prop where
  follows : Pool.Follows (parties cfg serverCfg) c
  outcomes : Pool.Answered (networkEnv cfg.clientId) c
  workers : ∃ c' : Workers ω, Pool.Projects Network.table Party.worker onConn serverCall c c' ∧
    Pool.Follows (sessions serverCfg) c' ∧ OneEach c'

variable [DecidableEq ω]

theorem Base.step (h : Base cfg serverCfg c)
    (hs : Pool.Step (networkEnv cfg.clientId) (parties cfg serverCfg) c d) :
    Base cfg serverCfg d := by
  obtain ⟨c', hproj, hf', hone⟩ := h.workers
  have hother : ∀ {i d}, (∀ j, Party.worker j ≠ i) →
      Pool.Acts (networkEnv cfg.clientId) i c d → d.shared.table = c.shared.table := by
    rintro i _ hne ⟨o, k, tr, r, w, hi, hm, rfl⟩
    cases i with
    | worker j => exact absurd rfl (hne j)
    | process =>
        have ho := (process_calls h.follows hi).2 o k rfl
        cases o with
        | client o => exact clientMay_table hm
        | server conn o => exact ho.elim
  obtain ⟨d', hrun, hproj'⟩ := hproj.step (workers_carry cfg serverCfg) hother hs
  obtain ⟨hf'', hone'⟩ := hrun.invariant hf' hone fun hf hc hs => hc.step hf hs
  exact ⟨h.follows.step hs, h.outcomes.step hs, d', hproj', hf'', hone'⟩

omit [DecidableEq ω] in
theorem base_fresh (cfg : ClientConfig) (serverCfg : ServerConfig) :
    Base cfg serverCfg (freshParties ω) := by
  exact ⟨Pool.follows_idle _ _, Pool.answered_idle _ _, freshWorkers ω, Pool.projects_idle _,
    Pool.follows_idle _ _, oneEach_fresh ω⟩

omit [DecidableEq ω] in
/-- A worker's history is that of a session. -/
theorem Base.session (h : Base cfg serverCfg c) {i : ω}
    {p : SystemProg (Client.CheckResult ⊕ Bool)} (hi : c.threads (.worker i) = some (p, tr)) :
    ∃ conn q clientInfo, p = onConn conn q ∧
      History (handleClientSession serverCfg clientInfo) q (tr.filterMap serverCall) := by
  obtain ⟨c', hproj, hf', -⟩ := h.workers
  rcases hproj.threads i with ⟨hnone, -⟩ | ⟨conn, q, tr', hj, hj'⟩
  · rw [hnone] at hi
    cases hi
  · rw [hj] at hi
    obtain ⟨rfl, rfl⟩ := Prod.mk.inj (Option.some.inj hi)
    obtain ⟨q₀, ⟨clientInfo, rfl⟩, hrun⟩ := hf' _ _ _ hj'
    exact ⟨conn, q, clientInfo, rfl, hrun⟩

omit [DecidableEq ω] in
/-- The id a session has tried to reserve is the one its peer's certificate names. -/
theorem Base.certified (h : Base cfg serverCfg c) {i : ω}
    {p : SystemProg (Client.CheckResult ⊕ Bool)} (hi : c.threads (.worker i) = some (p, tr))
    {conn : ConnId} {id : Bytes} {r : Reservation}
    (hm : (⟨.server conn (.reserveActiveClientId id), r⟩ : Call systemInterface) ∈ tr) :
    ∃ w w', (networkEnv cfg.clientId).may w (.server conn (.tlsPeerCommonName maxIdLen)) (some id)
      w' := by
  obtain ⟨-, q, clientInfo, -, hrun⟩ := h.session hi
  obtain ⟨conn', hcalls, -⟩ := worker_calls h.follows hi
  have hm' : answered (.reserveActiveClientId id) r ∈ tr.filterMap serverCall :=
    List.mem_filterMap.mpr ⟨_, hm, rfl⟩
  obtain ⟨before, after, ht⟩ := List.append_of_mem hm'
  obtain ⟨hname, -⟩ : accuses before (.reserveActiveClientId id) :=
    (handleClientSession_accuses serverCfg clientInfo).any_calls hrun ht
  have hname' : answered (.tlsPeerCommonName maxIdLen) (some id) ∈ tr.filterMap serverCall :=
    ht ▸ List.mem_append_left _ hname
  obtain ⟨⟨o, r'⟩, hx, hcall⟩ := List.mem_filterMap.mp hname'
  cases o with
  | client o => cases hcall
  | server conn'' o =>
      cases hcall
      have hsame : conn'' = conn := (hcalls _ hx).trans (hcalls _ hm).symm
      exact hsame ▸ h.outcomes _ _ _ _ hi hx

omit [DecidableEq ω] in
theorem Base.own_id (h : Base cfg serverCfg c) {i : ω}
    {p : SystemProg (Client.CheckResult ⊕ Bool)} (hi : c.threads (.worker i) = some (p, tr))
    {k : ℕ} {id : Bytes} {r : Reservation}
    (hm : (⟨.server (.own k) (.reserveActiveClientId id), r⟩ : Call systemInterface) ∈ tr) :
    id = cfg.clientId := by
  obtain ⟨w, w', -, hname, -⟩ := h.certified hi hm
  rcases hname with hname | hname
  · cases hname
  · exact Option.some.inj hname

omit [DecidableEq ω] in
theorem Base.other_id (h : Base cfg serverCfg c) {i : ω}
    {p : SystemProg (Client.CheckResult ⊕ Bool)} (hi : c.threads (.worker i) = some (p, tr))
    {k : ℕ} {id : Bytes} {r : Reservation}
    (hm : (⟨.server (.other k) (.reserveActiveClientId id), r⟩ : Call systemInterface) ∈ tr) :
    id ≠ cfg.clientId := by
  obtain ⟨w, w', hname, -⟩ := h.certified hi hm
  exact fun hid => hname (congrArg some hid)

/-! ### Overtaking -/

omit [DecidableEq ω] in
/-- A session on a connection of the process has reserved an id, and has not released it. -/
def HoldsOwn (c : Parties ω) (j : ω) : Prop :=
  ∃ p tr k id, c.threads (.worker j) = some (p, tr) ∧
    (⟨.server (.own k) (.reserveActiveClientId id), .reserved⟩ : Call systemInterface) ∈ tr ∧
    (⟨.server (.own k) (.releaseActiveClientId id), ()⟩ : Call systemInterface) ∉ tr

omit [DecidableEq ω] in
/-- The session of worker `i`, on a connection of the process, is about to reserve its id while
another one still holds it. -/
def Overtakes (c : Parties ω) (i : ω) : Prop :=
  (∃ k id next tr, c.threads (.worker i) =
      some (.call (.server (.own k) (.reserveActiveClientId id)) next, tr)) ∧
    ∃ j, HoldsOwn c j

/-- A step in which no reserve overtakes a release. -/
def PromptStep (cfg : ClientConfig) (serverCfg : ServerConfig) (c d : Parties ω) : Prop :=
  Pool.Step (networkEnv cfg.clientId) (parties cfg serverCfg) c d ∧
    ∀ i, Pool.Acts (networkEnv cfg.clientId) (.worker i) c d → ¬ Overtakes c i

/-- A run of such steps. -/
abbrev PromptRun (cfg : ClientConfig) (serverCfg : ServerConfig) : Parties ω → Parties ω → Prop :=
  Relation.ReflTransGen (PromptStep cfg serverCfg)

omit [DecidableEq ω] in
/-- An id of the process that is in the table is held by one of its sessions. -/
theorem Base.holdsOwn (h : Base cfg serverCfg c) (hid : cfg.clientId ∈ inUse c.shared.table) :
    ∃ j, HoldsOwn c j := by
  obtain ⟨c', hproj, -, hone⟩ := h.workers
  rw [← hproj.shared] at hid
  obtain ⟨j, p', tr', hj', hreserved, hreleased⟩ := (hone.exact _).mp hid
  rcases hproj.threads j with ⟨-, hnone⟩ | ⟨conn, q, tr, hj, hj''⟩
  · rw [hnone] at hj'
    cases hj'
  rw [hj''] at hj'
  obtain ⟨rfl, rfl⟩ := Prod.mk.inj (Option.some.inj hj')
  obtain ⟨⟨o, r⟩, hx, hcall⟩ := List.mem_filterMap.mp hreserved
  cases o with
  | client o => cases hcall
  | server conn' o =>
      cases hcall
      cases conn' with
      | other k => exact absurd rfl (h.other_id hj hx)
      | own k =>
          refine ⟨j, _, tr, k, cfg.clientId, hj, hx, fun hrel => hreleased ?_⟩
          exact List.mem_filterMap.mpr ⟨_, hrel, rfl⟩

omit [DecidableEq ω] in
/-- What a session of the process holds is its id, which is in the table. -/
theorem Base.inUse_of_holdsOwn (h : Base cfg serverCfg c) {j : ω} (hj : HoldsOwn c j) :
    cfg.clientId ∈ inUse c.shared.table := by
  obtain ⟨p, tr, k, id, hthread, hreserved, hreleased⟩ := hj
  obtain ⟨conn, hcalls, -⟩ := worker_calls h.follows hthread
  obtain rfl := h.own_id hthread hreserved
  obtain ⟨c', hproj, -, hone⟩ := h.workers
  rw [← hproj.shared]
  rcases hproj.threads j with ⟨hnone, -⟩ | ⟨conn', q, tr', hj, hj'⟩
  · rw [hnone] at hthread
    cases hthread
  rw [hj] at hthread
  obtain ⟨-, rfl⟩ := Prod.mk.inj (Option.some.inj hthread)
  refine (hone.exact _).mpr ⟨j, q, _, hj', List.mem_filterMap.mpr ⟨_, hreserved, rfl⟩, fun hrel => ?_⟩
  obtain ⟨⟨o, r⟩, hx, hcall⟩ := List.mem_filterMap.mp hrel
  cases o with
  | client o => cases hcall
  | server conn'' o =>
      cases hcall
      have hsame : conn'' = .own k := (hcalls _ hx).trans (hcalls _ hreserved).symm
      exact hreleased (hsame ▸ hx)

/-- Only an id in use is refused as a duplicate. -/
theorem inUse_of_duplicate {slots slots' : List Bytes} {id : Bytes}
    (h : UpdateFramework.reserveActiveClientId slots id = (.duplicate, slots')) : id ∈ inUse slots := by
  unfold UpdateFramework.reserveActiveClientId at h
  split at h
  · cases h
  rename_i hne
  split at h
  · rename_i hm
    exact mem_inUse.mpr ⟨hm, hne⟩
  · split at h <;> cases h

/-- Any id in use is. -/
theorem duplicate_of_inUse {slots slots' : List Bytes} {id : Bytes} {r : Reservation}
    (h : UpdateFramework.reserveActiveClientId slots id = (r, slots')) (hm : id ∈ inUse slots) :
    r = .duplicate := by
  obtain ⟨hmem, hne⟩ := mem_inUse.mp hm
  rw [UpdateFramework.reserveActiveClientId, if_neg hne, if_pos hmem] at h
  exact (Prod.mk.inj h).1.symm

/-- Nobody accuses the process, nor has a cause to. -/
structure Unaccused (c : Parties ω) : Prop where
  underWay : ∀ k, ∀ f ∈ c.shared.toClient k, ¬ Accusing f
  reserves : ∀ i p tr k id, c.threads (.worker i) = some (p, tr) →
    (⟨.server (.own k) (.reserveActiveClientId id), .duplicate⟩ : Call systemInterface) ∉ tr
  received : ∀ p tr cap dataCap f, c.threads .process = some (p, tr) →
    (⟨.client (.protoRecv cap dataCap), .ok f⟩ : Call systemInterface) ∈ tr → ¬ Accusing f

/-- A call of the process puts no frame under way to it, and takes the frames it receives from
there. -/
theorem clientMay_toClient {w w' : Network} {o : ClientOp} {r : ClientOp.Res o}
    (h : clientMay w o r w') {k : ℕ} {f : Frame} (hf : f ∈ w'.toClient k) : f ∈ w.toClient k := by
  cases o with
  | netConnectTcp =>
      cases r with
      | none => exact congrArg Network.toClient h ▸ hf
      | some fd =>
          obtain rfl := h
          exact hf
  | protoSend g =>
      cases r with
      | true =>
          obtain rfl := h
          exact hf
      | false => exact congrArg Network.toClient h ▸ hf
  | protoRecv cap dataCap =>
      cases r with
      | ok g =>
          obtain ⟨fs, hfs, rfl⟩ := h
          by_cases hk : k = w.current
          · subst hk
            rw [hfs]
            have hf : f ∈ Function.update w.toClient w.current fs w.current := hf
            rw [Function.update_self] at hf
            exact List.mem_cons_of_mem _ hf
          · have hf : f ∈ Function.update w.toClient w.current fs k := hf
            rwa [Function.update_of_ne hk] at hf
      | _ => exact congrArg Network.toClient h ▸ hf
  | _ => exact congrArg Network.toClient h ▸ hf

/-- The only frames a session puts under way are those it sends. -/
theorem sessionMay_toClient {clientId : Bytes} {n : ℕ} {w w' : Network} {o : ServerOp}
    {r : ServerOp.Res o} (h : sessionMay clientId n w o r w') {k : ℕ} {f : Frame}
    (hf : f ∈ w'.toClient k) : f ∈ w.toClient k ∨ o = .protoSend f := by
  cases o with
  | protoSend g =>
      cases r with
      | true =>
          obtain rfl := h
          by_cases hk : k = n
          · subst hk
            have hf : f ∈ Function.update w.toClient k (w.toClient k ++ [g]) k := hf
            rw [Function.update_self] at hf
            rcases List.mem_append.mp hf with hf | hf
            · exact .inl hf
            · exact .inr (List.mem_singleton.mp hf ▸ rfl)
          · have hf : f ∈ Function.update w.toClient n (w.toClient n ++ [g]) k := hf
            rw [Function.update_of_ne hk] at hf
            exact .inl hf
      | false => exact .inl (congrArg Network.toClient h ▸ hf)
  | protoRecv cap dataCap =>
      cases r with
      | ok g =>
          obtain ⟨fs, -, rfl⟩ := h
          exact .inl hf
      | _ => exact .inl (congrArg Network.toClient h ▸ hf)
  | tlsPeerCommonName n =>
      obtain ⟨-, rfl⟩ := h
      exact .inl hf
  | reserveActiveClientId id =>
      obtain ⟨slots, -, rfl⟩ := h
      exact .inl hf
  | releaseActiveClientId id =>
      obtain rfl := h
      exact .inl hf
  | _ => exact .inl (congrArg Network.toClient h ▸ hf)

theorem otherMay_toClient {clientId : Bytes} {w w' : Network} {o : ServerOp} {r : ServerOp.Res o}
    (h : otherMay clientId w o r w') : w'.toClient = w.toClient := by
  cases o with
  | tlsPeerCommonName n => exact congrArg Network.toClient h.2
  | reserveActiveClientId id =>
      obtain ⟨slots, -, rfl⟩ := h
      exact rfl
  | releaseActiveClientId id =>
      obtain rfl := h
      exact rfl
  | _ => exact congrArg Network.toClient h

/-- A change of a thread that adds neither a refused reserve nor an accusation. -/
theorem Unaccused.set (h : Unaccused c) {i : Party ω}
    {t : Option (SystemProg (Client.CheckResult ⊕ Bool) × SystemHistory)} {w : Network}
    (hw : ∀ k, ∀ f ∈ w.toClient k, ¬ Accusing f)
    (hreserves : ∀ j p tr k id, i = .worker j → t = some (p, tr) →
      (⟨.server (.own k) (.reserveActiveClientId id), .duplicate⟩ : Call systemInterface) ∉ tr)
    (hreceived : ∀ p tr cap dataCap f, i = .process → t = some (p, tr) →
      (⟨.client (.protoRecv cap dataCap), .ok f⟩ : Call systemInterface) ∈ tr → ¬ Accusing f) :
    Unaccused (c.set i t w) := by
  refine ⟨hw, fun j p tr k id hj => ?_, fun p tr cap dataCap f hj => ?_⟩
  · by_cases hji : Party.worker j = i
    · subst hji
      rw [Pool.set_self] at hj
      exact hreserves j p tr k id rfl hj
    · rw [Pool.set_ne c hji] at hj
      exact h.reserves j p tr k id hj
  · by_cases hji : Party.process = i
    · subst hji
      rw [Pool.set_self] at hj
      exact hreceived p tr cap dataCap f rfl hj
    · rw [Pool.set_ne c hji] at hj
      exact h.received p tr cap dataCap f hj

/-- The process calls something. -/
theorem Unaccused.process (hb : Base cfg serverCfg c) (h : Unaccused c)
    (ha : Pool.Acts (networkEnv cfg.clientId) .process c d) : Unaccused d := by
  obtain ⟨o, k, tr, r, w, hi, hm, rfl⟩ := ha
  cases o with
  | server conn o => exact ((process_calls hb.follows hi).2 _ k rfl).elim
  | client o =>
      refine h.set (fun k f hf => h.underWay k f (clientMay_toClient hm hf)) (fun _ _ _ _ _ hc => nomatch hc)
        fun p tr' cap dataCap f _ ht hf => ?_
      cases ht
      rcases List.mem_append.mp hf with hf | hf
      · exact h.received _ tr cap dataCap f hi hf
      · cases List.mem_singleton.mp hf
        obtain ⟨fs, hfs, -⟩ := hm
        exact h.underWay _ f (hfs ▸ List.mem_cons_self ..)

/-- A worker calls something, and overtakes nobody. -/
theorem Unaccused.worker (hb : Base cfg serverCfg c) (hd : Base cfg serverCfg d) (h : Unaccused c)
    {i : ω} (ha : Pool.Acts (networkEnv cfg.clientId) (.worker i) c d) (hprompt : ¬ Overtakes c i) :
    Unaccused d := by
  obtain ⟨o, next, tr, r, w, hi, hm, rfl⟩ := ha
  obtain ⟨conn, q, clientInfo, hp, hrun⟩ := hb.session hi
  have hnone : ∀ id k, (⟨.server (.own k) (.reserveActiveClientId id), .duplicate⟩ :
      Call systemInterface) ∉ tr := fun id k => h.reserves i _ tr k id hi
  cases q with
  | ret a => cases hp
  | spin => cases hp
  | call o' k' =>
  cases hp
  cases conn with
  | other n =>
      refine h.set (fun k f hf => h.underWay k f (otherMay_toClient hm ▸ hf))
        (fun j p tr' k id hj ht hf => ?_) fun _ _ _ _ _ hc => nomatch hc
      cases ht
      rcases List.mem_append.mp hf with hf | hf
      · exact hnone id k hf
      · cases List.mem_singleton.mp hf
  | own n =>
      refine h.set (fun k f hf hacc => ?_) (fun j p tr' k id hj ht hf => ?_)
        fun _ _ _ _ _ hc => nomatch hc
      · rcases sessionMay_toClient hm.2 hf with hf | rfl
        · exact h.underWay k f hf hacc
        · -- the frame is sent now, after a refused reserve
          obtain ⟨id, hid⟩ :=
            ((handleClientSession_accuses serverCfg clientInfo).run hrun).guard hacc
          obtain ⟨⟨o, r'⟩, hx, hcall⟩ := List.mem_filterMap.mp hid
          cases o with
          | client o => cases hcall
          | server conn o =>
              cases hcall
              obtain ⟨conn', hcalls, hnext⟩ := worker_calls hb.follows hi
              have hsame : conn = .own n := (hcalls _ hx).trans (hnext _ _ rfl).symm
              exact hnone id n (hsame ▸ hx)
      · cases ht
        rcases List.mem_append.mp hf with hf | hf
        · exact hnone id k hf
        · cases List.mem_singleton.mp hf
          obtain ⟨-, slots, hslots, -⟩ := hm
          have hid : id = cfg.clientId := hd.own_id (Pool.set_self ..)
            (List.mem_append_right tr (List.mem_singleton_self _))
          exact hprompt ⟨⟨n, id, _, tr, hi⟩, hb.holdsOwn (hid ▸ inUse_of_duplicate hslots)⟩

/-- Every prompt step keeps the process unaccused. -/
theorem Unaccused.step (hb : Base cfg serverCfg c) (h : Unaccused c)
    (hs : PromptStep cfg serverCfg c d) : Unaccused d := by
  obtain ⟨hs, hprompt⟩ := hs
  have hd := hb.step hs
  cases hs with
  | act ha =>
      rename_i i
      cases i with
      | process => exact h.process hb ha
      | worker i => exact h.worker hb hd ha (hprompt i ha)
  | start hp hidle =>
      refine h.set h.underWay (fun _ _ _ _ _ _ ht hf => ?_) fun _ _ _ _ _ _ ht hf => ?_
      · cases ht
        cases hf
      · cases ht
        cases hf
  | finish hi => exact h.set h.underWay (fun _ _ _ _ _ _ ht => nomatch ht) fun _ _ _ _ _ _ ht => nomatch ht
  | drift hdrift => exact hdrift ▸ h

theorem PromptRun.kept (h : PromptRun cfg serverCfg (freshParties ω) c) :
    Base cfg serverCfg c ∧ Unaccused c := by
  induction h with
  | refl =>
      refine ⟨base_fresh cfg serverCfg, ⟨fun _ f hf => ?_, fun _ _ _ _ _ hi => ?_,
        fun _ _ _ _ _ hi => ?_⟩⟩
      · cases hf
      · cases hi
      · cases hi
  | tail _ hs ih => exact ⟨ih.1.step hs.1, ih.2.step ih.1 hs⟩

/-- A reserve that overtakes a release is refused. -/
theorem Base.refused (h : Base cfg serverCfg c) {i : ω} (hover : Overtakes c i)
    (ha : Pool.Acts (networkEnv cfg.clientId) (.worker i) c d) :
    ∃ p tr k id, d.threads (.worker i) =
      some (p, tr ++ [⟨.server (.own k) (.reserveActiveClientId id), .duplicate⟩]) := by
  obtain ⟨⟨k, id, next, tr, hi⟩, j, hj⟩ := hover
  have hd := h.step (.act ha)
  obtain ⟨o, k', tr', r, w, hi', hm, rfl⟩ := ha
  rw [hi] at hi'
  cases hi'
  have hid : id = cfg.clientId := hd.own_id (Pool.set_self ..)
    (List.mem_append_right tr (List.mem_singleton_self _))
  obtain ⟨-, slots, hslots, -⟩ := hm
  obtain rfl := duplicate_of_inUse hslots (hid ▸ h.inUse_of_holdsOwn hj)
  exact ⟨_, tr, k, id, Pool.set_self ..⟩

/-- One worker alone overtakes nobody: a session reserves an id once. -/
theorem promptRun_of_subsingleton [Subsingleton ω]
    (h : Pool.Run (networkEnv cfg.clientId) (parties cfg serverCfg) (freshParties ω) c) :
    PromptRun cfg serverCfg (freshParties ω) c := by
  suffices hboth : PromptRun cfg serverCfg (freshParties ω) c ∧ Base cfg serverCfg c from hboth.1
  induction h with
  | refl => exact ⟨.refl, base_fresh cfg serverCfg⟩
  | tail _ hs ih =>
      obtain ⟨hprompt, hb⟩ := ih
      refine ⟨hprompt.tail ⟨hs, ?_⟩, hb.step hs⟩
      rintro i - ⟨⟨k, id, next, tr, hi⟩, j, p, tr', k', id', hj, hreserved, -⟩
      obtain rfl : j = i := Subsingleton.elim j i
      rw [hi] at hj
      obtain ⟨-, rfl⟩ := Prod.mk.inj (Option.some.inj hj)
      obtain ⟨conn, q, clientInfo, hq, hrun⟩ := hb.session hi
      cases q with
      | ret a => cases hq
      | spin => cases hq
      | call o next' =>
          cases hq
          obtain ⟨-, hfirst⟩ : accuses (tr.filterMap serverCall) (.reserveActiveClientId id) :=
            ((handleClientSession_accuses serverCfg clientInfo).run hrun).guard
          exact hfirst _ (List.mem_filterMap.mpr ⟨_, hreserved, rfl⟩) id' rfl

/-- **Reconnecting in time.**  In a run where each reserve of the process's id comes after the
release of the session before, the process is never told that its id is in use.  The first reserve
that does not is told so. -/
theorem reconnect_not_refused (h : PromptRun cfg serverCfg (freshParties ω) c) :
    (∀ p tr cap dataCap f, c.threads .process = some (p, tr) →
      (⟨.client (.protoRecv cap dataCap), .ok f⟩ : Call systemInterface) ∈ tr → ¬ Accusing f) ∧
    ∀ i d, Overtakes c i → Pool.Acts (networkEnv cfg.clientId) (.worker i) c d →
      ∃ p tr k id, d.threads (.worker i) =
        some (p, tr ++ [⟨.server (.own k) (.reserveActiveClientId id), .duplicate⟩]) :=
  ⟨h.kept.2.received, fun _ _ hover ha => h.kept.1.refused hover ha⟩

end Run

/-! ### Two sessions of one client -/

/-- `client_001`, which has version 1.4.0. -/
def client140 : ClientConfig := { ClientConfig.client001 with currentVersion := ascii "1.4.0" }

section Schedule

variable {ω : Type}

/-- A call of the process, and of a session on its connection `k`. -/
def byProcess (o : ClientOp) (r : ClientOp.Res o) : Party ω × Call systemInterface :=
  (.process, ⟨.client o, r⟩)
def bySession (i : ω) (k : ℕ) (o : ServerOp) (r : ServerOp.Res o) :
    Party ω × Call systemInterface :=
  (.worker i, ⟨.server (.own k) o, r⟩)

/-- The process opens a connection. -/
def connects : List (Party ω × Call systemInterface) :=
  [byProcess .stopRequested false, byProcess .netConnectTcp (some 7),
    byProcess (.setActiveFd (some 7)) (), byProcess .stopRequested false,
    byProcess (.tlsConnectConnection 7) true]

def helloFrame : Frame := textFrame .hello (ascii "srv=updctl;proto=1")
def authFrame : Frame := textFrame .auth (ascii "id=client_001")
def duplicateFrame : Frame :=
  errorFrame (ascii "DUPLICATE_CLIENT") (ascii "client id already has an active session")

/-- The session on connection `k` asks who the client is, and finds it registered. -/
def authenticates (i : ω) (k : ℕ) : List (Party ω × Call systemInterface) :=
  [bySession i k (.protoSend helloFrame) true,
    byProcess (.protoRecv (maxControlPayload + 1) 0) (.ok helloFrame),
    byProcess (.protoSend authFrame) true,
    bySession i k (.tlsPeerCommonName maxIdLen) (some (ascii "client_001")),
    bySession i k (.protoRecv (maxControlPayload + 1) 0) (.ok authFrame),
    bySession i k (.authClientRegistered (ascii "./config/clients.keys") (ascii "client_001")) true,
    bySession i k (.logMsg .info (ascii "AUTH ok id=client_001 method=mTLS")) ()]

/-- The process gives its connection up. -/
def hangsUp : List (Party ω × Call systemInterface) :=
  [byProcess (.activeFdWasSignalClosed 7) false, byProcess (.setActiveFd none) (),
    byProcess (.connClose 7) ()]

/-- The process loses its connection, hangs up, and waits half a second. -/
def loses : List (Party ω × Call systemInterface) :=
  byProcess (.protoRecv (maxControlPayload + 1) 0) .eof :: hangsUp ++
  [byProcess .stopRequested false, byProcess .resumeRetryActive false] ++
  (List.replicate 5 [byProcess .stopRequested false, byProcess (.usleep 100000) ()]).flatten ++
  [byProcess .stopRequested false]

/-- The first session reserves the id; the connection is lost before `AUTH_OK` arrives. -/
def firstAttempt (i : ω) : List (Party ω × Call systemInterface) :=
  connects ++ authenticates i 0 ++
  [bySession i 0 (.reserveActiveClientId (ascii "client_001")) .reserved] ++ loses

/-- The second session finds the id in use, and says so. -/
def secondAttempt (i : ω) : List (Party ω × Call systemInterface) :=
  connects ++ authenticates i 1 ++
  [bySession i 1 (.reserveActiveClientId (ascii "client_001")) .duplicate,
    bySession i 1 (.logMsg .warn (ascii "AUTH duplicate active id=client_001")) (),
    bySession i 1 (.protoSend duplicateFrame) true,
    byProcess (.protoRecv (maxControlPayload + 1) 0) (.ok duplicateFrame)] ++ hangsUp

end Schedule

/-- The frames a process has received. -/
def received (tr : SystemHistory) : List Frame :=
  tr.filterMap fun
    | ⟨.client (.protoRecv _ _), .ok f⟩ => some f
    | _ => none

theorem call_of_received {tr : SystemHistory} {f : Frame} (h : f ∈ received tr) :
    ∃ cap dataCap, (⟨.client (.protoRecv cap dataCap), .ok f⟩ : Call systemInterface) ∈ tr := by
  obtain ⟨⟨o, r⟩, hx, hf⟩ := List.mem_filterMap.mp h
  cases o with
  | server conn o => cases hf
  | client o =>
      cases o with
      | protoRecv cap dataCap =>
          cases r with
          | ok g =>
              obtain rfl : g = f := Option.some.inj hf
              exact ⟨cap, dataCap, hx⟩
          | _ => cases hf
      | _ => cases hf

/-- A session on connection `k`. -/
def sessionOn (k : ℕ) : SystemProg (Client.CheckResult ⊕ Bool) :=
  onConn (.own k) (handleClientSession .shipped (ascii "peer"))

theorem parties_process {ω : Type} :
    parties (ω := ω) client140 .shipped .process (clientRun 3 client140) :=
  ⟨3, rfl⟩

theorem parties_session {ω : Type} (i : ω) (k : ℕ) :
    parties client140 .shipped (.worker i) (sessionOn k) :=
  ⟨.own k, ascii "peer", rfl⟩

/-- The process, and a session on each of its connections. -/
def bothAttempts : Parties Bool :=
  let w := (freshParties Bool).shared
  (((freshParties Bool).set .process (some (clientRun 3 client140, [])) w).set
    (.worker true) (some (sessionOn 0, [])) w).set (.worker false) (some (sessionOn 1, [])) w

/-- The frames of each attempt are under way as the schedule has them. -/
theorem allows_attempts : ∃ w, (networkEnv client140.clientId).Allows bothAttempts.shared
    ((firstAttempt true ++ secondAttempt false).map Prod.snd) w :=
  ⟨_, _, rfl, _, rfl, _, rfl, _, rfl, _, rfl,
    _, ⟨Nat.one_pos, rfl⟩, _, ⟨[], rfl, rfl⟩, _, rfl, _, ⟨Nat.one_pos, .inr rfl, rfl⟩, _,
    ⟨Nat.one_pos, [], rfl, rfl⟩, _, ⟨Nat.one_pos, rfl⟩, _, ⟨Nat.one_pos, rfl⟩, _,
    ⟨Nat.one_pos, _, rfl, rfl⟩, _, rfl, _, rfl, _, rfl, _, rfl, _, rfl, _, rfl, _, rfl, _, rfl, _,
    rfl, _, rfl, _, rfl, _, rfl, _, rfl, _, rfl, _, rfl, _, rfl, _, rfl,
    _, rfl, _, rfl, _, rfl, _, rfl, _, rfl,
    _, ⟨Nat.one_lt_two, rfl⟩, _, ⟨[], rfl, rfl⟩, _, rfl, _, ⟨Nat.one_lt_two, .inr rfl, rfl⟩, _,
    ⟨Nat.one_lt_two, [], rfl, rfl⟩, _, ⟨Nat.one_lt_two, rfl⟩, _, ⟨Nat.one_lt_two, rfl⟩, _,
    ⟨Nat.one_lt_two, _, rfl, rfl⟩, _, ⟨Nat.one_lt_two, rfl⟩, _, ⟨Nat.one_lt_two, rfl⟩, _,
    ⟨[], rfl, rfl⟩, _, rfl, _, rfl, _, rfl, rfl⟩

theorem run_bothAttempts : Pool.Run (networkEnv client140.clientId)
    (parties client140 .shipped) (freshParties Bool) bothAttempts :=
  .tail (.tail (.single (.start parties_process rfl)) (.start (parties_session true 0) rfl))
    (.start (parties_session false 1) rfl)

/-- A client that connects anew, while the session on its first connection still holds its id, is
told that the id is in use, and fails for good. -/
theorem reconnect_locked_out : ∃ c : Parties Bool,
    Pool.Run (networkEnv client140.clientId) (parties client140 .shipped) (freshParties Bool) c ∧
    ∃ tr cap dataCap f, c.threads .process = some (.ret (.inl .failed), tr) ∧
      (⟨.client (.protoRecv cap dataCap), .ok f⟩ : Call systemInterface) ∈ tr ∧ Accusing f := by
  obtain ⟨w, hallows⟩ := allows_attempts
  have hends : (Pool.perform bothAttempts.threads (firstAttempt true ++ secondAttempt false)).any
      (fun threads => (threads .process).any fun p =>
        p.1.returned = some (.inl .failed) ∧ ∃ f ∈ received p.2, Accusing f) = true := by
    decide +kernel
  obtain ⟨threads, hperform, hprocess⟩ := (Option.any_eq_true ..).mp hends
  obtain ⟨⟨p, tr⟩, hp, hlast⟩ := (Option.any_eq_true ..).mp hprocess
  obtain ⟨hret, f, hf, hacc⟩ := of_decide_eq_true hlast
  obtain ⟨cap, dataCap, hm⟩ := call_of_received hf
  have hrun := run_bothAttempts.trans (Pool.run_perform (parties client140 .shipped) hperform hallows)
  refine ⟨_, hrun, tr, cap, dataCap, f, ?_, hm, hacc⟩
  cases p with
  | ret a =>
      obtain rfl : a = .inl .failed := Option.some.inj hret
      exact hp
  | _ => cases hret

/-! ### One worker -/

/-- The end of a session that has lost its client. -/
def releases : List (Party Unit × Call systemInterface) :=
  [bySession () 0 (.protoSend (emptyFrame .authOk)) false,
    bySession () 0 (.releaseActiveClientId (ascii "client_001")) ()]

/-- The client is welcome again. -/
def welcomes : List (Party Unit × Call systemInterface) :=
  connects ++ authenticates () 1 ++
  [bySession () 1 (.reserveActiveClientId (ascii "client_001")) .reserved,
    bySession () 1 (.protoSend (emptyFrame .authOk)) true,
    byProcess (.protoRecv (maxControlPayload + 1) 0) (.ok (emptyFrame .authOk))]

def soleWorker : Parties Unit :=
  let w := (freshParties Unit).shared
  ((freshParties Unit).set .process (some (clientRun 3 client140, [])) w).set
    (.worker ()) (some (sessionOn 0, [])) w

theorem allows_reconnect : ∃ w w', (networkEnv client140.clientId).Allows soleWorker.shared
      ((firstAttempt () ++ releases).map Prod.snd) w ∧
    (networkEnv client140.clientId).Allows w (welcomes.map Prod.snd) w' ∧ w'.opened = 2 :=
  ⟨_, _, ⟨_, rfl, _, rfl, _, rfl, _, rfl, _, rfl,
    _, ⟨Nat.one_pos, rfl⟩, _, ⟨[], rfl, rfl⟩, _, rfl, _, ⟨Nat.one_pos, .inr rfl, rfl⟩, _,
    ⟨Nat.one_pos, [], rfl, rfl⟩, _, ⟨Nat.one_pos, rfl⟩, _, ⟨Nat.one_pos, rfl⟩, _,
    ⟨Nat.one_pos, _, rfl, rfl⟩, _, rfl, _, rfl, _, rfl, _, rfl, _, rfl, _, rfl, _, rfl, _, rfl, _,
    rfl, _, rfl, _, rfl, _, rfl, _, rfl, _, rfl, _, rfl, _, rfl, _, rfl,
    _, ⟨Nat.one_pos, rfl⟩, _, ⟨Nat.one_pos, rfl⟩, rfl⟩,
    ⟨_, rfl, _, rfl, _, rfl, _, rfl, _, rfl,
    _, ⟨Nat.one_lt_two, rfl⟩, _, ⟨[], rfl, rfl⟩, _, rfl, _, ⟨Nat.one_lt_two, .inr rfl, rfl⟩, _,
    ⟨Nat.one_lt_two, [], rfl, rfl⟩, _, ⟨Nat.one_lt_two, rfl⟩, _, ⟨Nat.one_lt_two, rfl⟩, _,
    ⟨Nat.one_lt_two, _, rfl, rfl⟩, _, ⟨Nat.one_lt_two, rfl⟩, _, ⟨[], rfl, rfl⟩, rfl⟩, rfl⟩

/-- With one worker the client reconnects, and gets in. -/
theorem run_reconnect : ∃ c : Parties Unit,
    Pool.Run (networkEnv client140.clientId) (parties client140 .shipped) (freshParties Unit) c ∧
      c.shared.opened = 2 := by
  obtain ⟨w, w', hfirst, hsecond, hopened⟩ := allows_reconnect
  have hends : (Pool.perform soleWorker.threads (firstAttempt () ++ releases)).any (fun threads =>
      (threads (.worker ())).any (fun p => p.1.returned.isSome) ∧
        (Pool.perform (Function.update threads (.worker ()) (some (sessionOn 1, [])))
          welcomes).isSome) = true := by
    decide +kernel
  obtain ⟨threads, hperform, hboth⟩ := (Option.any_eq_true ..).mp hends
  obtain ⟨hend, hwelcome⟩ := of_decide_eq_true hboth
  obtain ⟨⟨p, tr⟩, hp, hret⟩ := (Option.any_eq_true ..).mp hend
  obtain ⟨threads', hwelcome⟩ := Option.isSome_iff_exists.mp hwelcome
  have hstart : Pool.Run (networkEnv client140.clientId) (parties client140 .shipped)
      (freshParties Unit) soleWorker :=
    .tail (.single (.start parties_process rfl)) (.start (parties_session () 0) rfl)
  have hrun := hstart.trans (Pool.run_perform (parties client140 .shipped) hperform hfirst)
  cases p with
  | ret a =>
      have hnext := (hrun.tail (.finish hp)).tail
        (.start (parties_session () 1) (Pool.set_self ..))
      rw [Pool.set, Pool.set, Function.update_idem] at hnext
      exact ⟨_, hnext.trans (Pool.run_perform (parties client140 .shipped) hwelcome hsecond), hopened⟩
  | _ => cases hret

theorem reconnect_not_refused_sole : ∃ c : Parties Unit, c.shared.opened = 2 ∧
    ∀ p tr cap dataCap f, c.threads .process = some (p, tr) →
      (⟨.client (.protoRecv cap dataCap), .ok f⟩ : Call systemInterface) ∈ tr → ¬ Accusing f := by
  obtain ⟨c, hrun, hopened⟩ := run_reconnect
  exact ⟨c, hopened, (reconnect_not_refused (promptRun_of_subsingleton hrun)).1⟩

end UpdateFramework.System
