import UpdateFramework.Common.Tls
import UpdateFramework.Server.Authorization

/-!
# Server — whose certificate it is

`authenticate_client` compares the id of the `AUTH` frame with the certificate's common name as 64
bytes show it.  What it hands to the session is the whole name exactly when the name fits, or
nothing is handed to anybody (`authenticated_whole_iff`).
-/

namespace UpdateFramework.Server

open Libc Process

/-- Where a client with a certificate authenticates: what the operations answer that decide. -/
structure Login where
  getText : NameText
  commonName : Bytes
  /-- The frame received when `AUTH` is expected. -/
  flags : UInt8
  payload : Bytes
  /-- The registry file, if it can be opened. -/
  registry : Option Bytes

/-- Sends and all else may succeed or fail. -/
def Login.env (login : Login) : Env serverInterface Unit where
  may _ o r _ :=
    match o, r with
    | .tlsPeerCommonName outLen, r =>
      r = UpdateFramework.tlsPeerCommonName login.getText (some login.commonName) outLen
    | .protoRecv _ _, r => r = .ok ⟨.auth, login.flags, login.payload⟩
    | .authClientRegistered _ clientId, r => r = UpdateFramework.authClientRegistered login.registry clientId
    | _, _ => True

/-- `authenticate_client` can return `0` with this id. -/
def Login.Hands (login : Login) (cfg : ServerConfig) (clientId : Bytes) : Prop :=
  Run login.env (authenticateClient cfg, ()) (.ret (some clientId), ())

/-- The id of the `AUTH` frame is the shown name, and the registry enables it. -/
def Login.Admits (login : Login) (clientId : Bytes) : Prop :=
  shownName maxIdLen login.commonName = clientId ∧
    kvGet login.payload (ascii "id") maxIdLen = some clientId ∧
    UpdateFramework.authClientRegistered login.registry clientId = true

theorem maxIdLen_pos : 0 < maxIdLen := by decide

section Login

variable {login : Login}

theorem safe_login {α : Type} {o : ServerOp} {k : ServerOp.Res o → ServerProg α}
    {Q : α → Unit → Prop}
    (hk : ∀ r, login.env.may () o r () → Safe login.env (fun _ _ => True) Q (k r) ()) :
    Safe login.env (fun _ _ => True) Q (.call o k) () :=
  fun _ _ => ⟨trivial, fun r _ hr => hk r hr⟩

theorem login_call {α : Type} {o : ServerOp} {k : ServerOp.Res o → ServerProg α}
    {c : ServerProg α × Unit} (r : ServerOp.Res o) (hr : login.env.may () o r ())
    (h : Run login.env (k r, ()) c) : Run login.env (.call o k, ()) c :=
  .head (.op hr) h

/-- A refusal hands nothing over. -/
theorem refused_safe {code message : Bytes} {Q : Option Bytes → Unit → Prop} (hQ : Q none ()) :
    Safe login.env (fun _ _ => True) Q
      (.call (.protoSend (errorFrame code message)) fun _ => .ret none) () :=
  safe_login fun _ _ _ _ => hQ

/-- `authenticate_client` hands over what the checks admit. -/
theorem authenticateClient_admits (hdoc : login.getText.Documented) (cfg : ServerConfig) :
    Safe login.env (fun _ _ => True)
      (fun r _ => ∀ clientId, r = some clientId → login.Admits clientId)
      (authenticateClient cfg) () := by
  unfold authenticateClient recvControl
  simp only [Prog.call_bind, Prog.ret_bind]
  refine safe_login fun name hname => ?_
  cases name with
  | none => exact safe_login fun _ _ => safe_login fun _ _ => refused_safe nofun
  | some certId =>
      refine safe_login fun rc hrc => ?_
      cases hrc
      simp only [Prog.ret_bind]
      cases hid : kvGet login.payload (ascii "id") maxIdLen with
      | none =>
          dsimp only
          exact refused_safe nofun
      | some clientId =>
          dsimp only
          by_cases heq : clientId = certId
          · simp only [if_pos heq]
            refine safe_login fun ok hok => ?_
            cases ok with
            | false =>
                exact safe_login fun _ _ => safe_login fun _ _ => safe_login fun _ _ =>
                  refused_safe nofun
            | true =>
                refine safe_login fun _ _ _ _ id hret => ?_
                cases hret
                refine ⟨?_, hid, hok.symm⟩
                have hshown : some certId = if shownName maxIdLen login.commonName = [] then none
                    else some (shownName maxIdLen login.commonName) :=
                  hname.trans (tlsPeerCommonName_some hdoc maxIdLen_pos)
                split at hshown
                · cases hshown
                · exact (Option.some.inj hshown).symm.trans heq.symm
          · simp only [if_neg heq]
            exact safe_login fun _ _ => safe_login fun _ _ => safe_login fun _ _ =>
              refused_safe nofun

/-- `authenticate_client` hands over exactly what the checks admit. -/
theorem hands_iff (hdoc : login.getText.Documented) (cfg : ServerConfig) (clientId : Bytes) :
    login.Hands cfg clientId ↔ login.Admits clientId := by
  constructor
  · intro h
    exact ((authenticateClient_admits hdoc cfg).run h).result clientId rfl
  · rintro ⟨hshown, hid, hreg⟩
    have hne : clientId ≠ [] := by
      rintro rfl
      simp [UpdateFramework.authClientRegistered, authClientStatus] at hreg
    have hname : some clientId =
        UpdateFramework.tlsPeerCommonName login.getText (some login.commonName) maxIdLen := by
      rw [tlsPeerCommonName_some hdoc maxIdLen_pos, hshown, if_neg hne]
    unfold Login.Hands authenticateClient recvControl
    simp only [Prog.call_bind, Prog.ret_bind]
    refine login_call (some clientId) hname (login_call _ rfl ?_)
    simp only [Prog.ret_bind, hid, if_true]
    exact login_call true hreg.symm (login_call () trivial .refl)

end Login

/-- **The whole identity.**  For every common name, `AUTH` payload and registry: only the
certificate's whole common name is ever handed to the session exactly when it fits the buffer and
has no NUL, or the client does not pass with what the buffer shows of it. -/
theorem authenticated_whole_iff (cfg : ServerConfig) (login : Login)
    (hdoc : login.getText.Documented) :
    (∀ clientId, login.Hands cfg clientId → login.commonName = clientId) ↔
      login.commonName.length < maxIdLen ∧ 0 ∉ login.commonName ∨
        ¬ login.Admits (shownName maxIdLen login.commonName) := by
  simp only [hands_iff hdoc]
  rw [← shownName_eq_iff maxIdLen_pos]
  constructor
  · intro h
    by_cases hadmits : login.Admits (shownName maxIdLen login.commonName)
    · exact .inl (h _ hadmits).symm
    · exact .inr hadmits
  · rintro (hwhole | hnone) clientId hadmits
    · exact hwhole.symm.trans hadmits.1
    · exact absurd (hadmits.1 ▸ hadmits) hnone

/-- A login with this common name, as `client_001`, where that id is enabled. -/
def loginAs (commonName : Bytes) : Login :=
  ⟨copyText, commonName, 0, ascii "id=client_001", some (ascii "client_001:enabled\n")⟩

/-- The certificate of `client_001` is that. -/
theorem authenticated_whole_client001 :
    (loginAs (ascii "client_001")).Hands .shipped (ascii "client_001") ∧
      ∀ clientId, (loginAs (ascii "client_001")).Hands .shipped clientId →
        ascii "client_001" = clientId := by
  refine ⟨(hands_iff copyText_documented .shipped _).mpr ?_, ?_⟩
  · exact ⟨by decide +kernel, by decide +kernel, by decide +kernel⟩
  · have hwhole : (ascii "client_001").length < maxIdLen ∧ 0 ∉ ascii "client_001" := by
      decide +kernel
    exact (authenticated_whole_iff .shipped (loginAs (ascii "client_001"))
      copyText_documented).mpr (.inl hwhole)

/-- The certificate of somebody else: the name goes on after a NUL. -/
theorem nul_name_impersonates :
    (loginAs (ascii "client_001" ++ 0 :: ascii ".example")).Hands .shipped (ascii "client_001") ∧
      ascii "client_001" ++ 0 :: ascii ".example" ≠ ascii "client_001" := by
  refine ⟨(hands_iff copyText_documented .shipped _).mpr ?_, by decide +kernel⟩
  exact ⟨by decide +kernel, by decide +kernel, by decide +kernel⟩

end UpdateFramework.Server
