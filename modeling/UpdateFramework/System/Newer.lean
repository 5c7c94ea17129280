import UpdateFramework.System.Candid

/-!
# System — an offer is newer

Manifests may be reloaded at any time: whatever the server has published when a session asks for it, a
session offers a version only to a client that has named an older one on the same connection
(`handleClientSession_newer`).
-/

namespace UpdateFramework.System

open Libc Process Server

/-- `f` offers a published version, newer than one named in `said`. -/
structure NewerThan (cfg : ServerConfig) (published : Manifest → Prop) (said : List Frame)
    (current : Bytes) (m : Manifest) (f : Frame) : Prop where
  named : ∃ r ∈ said, r.type = .versionReq ∧
    kvGet r.payload (ascii "cur") maxVersionStr = some current
  published : published m
  newer : ∃ cmp, verCompareText current m.latestVersion = some cmp ∧ cmp < 0
  offer : f = offerFrame cfg m

/-- A peer that has said `said` is offered nothing old in `heard`. -/
def OffersNewer (cfg : ServerConfig) (published : Manifest → Prop) (said heard : List Frame) : Prop :=
  ∀ f ∈ heard, f.type = .updateAvailable → ∃ current m, NewerThan cfg published said current m f

section Newer

variable {cfg : ServerConfig} {published : Manifest → Prop} {said said' heard heard' : List Frame}
  {current : Bytes} {m : Manifest} {f : Frame} {w w' : SessionWorld} {α : Type}

theorem NewerThan.mono (h : NewerThan cfg published said current m f) (hs : said ⊆ said') :
    NewerThan cfg published said' current m f := by
  obtain ⟨r, hr, hnamed⟩ := h.named
  exact ⟨⟨r, hs hr, hnamed⟩, h.published, h.newer, h.offer⟩

theorem OffersNewer.mono (h : OffersNewer cfg published said heard) (hs : said ⊆ said')
    (hh : heard' ⊆ heard) : OffersNewer cfg published said' heard' := by
  intro f hf htype
  obtain ⟨current, m, hnewer⟩ := h f (hh hf) htype
  exact ⟨current, m, hnewer.mono hs⟩

/-- Before each send: what is offered is newer. -/
def newerCall (cfg : ServerConfig) (published : Manifest → Prop) (w : SessionWorld) :
    ServerOp → Prop
  | .protoSend f => f.type = .updateAvailable →
      ∃ current m, NewerThan cfg published w.wire.ins current m f
  | _ => True

/-- An operation that offers nothing. -/
def offersNothing : ServerOp → Prop
  | .protoSend f => f.type ≠ .updateAvailable
  | _ => True

theorem offersNothing_of_listens {o : ServerOp} (h : listens o) : offersNothing o := by
  cases o with
  | protoSend f => exact h.elim
  | _ => trivial

theorem offersNothing_of_plain {o : ServerOp} (h : plain o) : offersNothing o := by
  cases o with
  | protoSend f => exact h.2.2
  | _ => trivial

theorem offersNothing_of_serves {o : ServerOp} (h : serves o) : offersNothing o := by
  cases o with
  | protoSend f =>
      intro htype
      rcases h with h | h | h
      all_goals
        rw [htype] at h
        cases h
  | _ => trivial

/-- A call keeps it true that only newer versions were offered. -/
theorem offersNewer_of_call {o : ServerOp} {r : ServerOp.Res o}
    (h : OffersNewer cfg published w.wire.ins w.wire.outs) (hG : newerCall cfg published w o)
    (hm : (servingEnv published).may w o r w') :
    OffersNewer cfg published w'.wire.ins w'.wire.outs := by
  cases o with
  | file o =>
      obtain ⟨fs, -, rfl⟩ := hm
      exact h
  | protoSend f =>
      obtain ⟨_, hs, rfl⟩ := hm
      cases hs with
      | failed _ => exact h
      | sent _ =>
          intro g hg htype
          rcases List.mem_append.mp hg with hg | hg
          · exact h g hg htype
          · cases List.mem_singleton.mp hg
            exact hG htype
  | protoRecv cap dataCap =>
      obtain ⟨honward, houts, -⟩ := onward_of_recv hm
      exact houts.symm ▸ h.mono honward.ins.subset (List.Subset.refl _)
  | vmGetSnapshot =>
      obtain ⟨-, rfl⟩ := hm
      exact h
  | _ =>
      cases hm
      exact h

/-- A session, as long as what it offers is newer. -/
abbrev Newer (cfg : ServerConfig) (published : Manifest → Prop) (p : ServerProg α)
    (w : SessionWorld) : Prop :=
  Safe (servingEnv published) (newerCall cfg published) (fun _ _ => True) p w

theorem newer_call {o : ServerOp} (ho : offersNothing o) {k : ServerOp.Res o → ServerProg α}
    (hk : ∀ r w', Newer cfg published (k r) w') : Newer cfg published (.call o k) w := by
  intro w₁ _
  refine ⟨?_, fun r w₂ _ => hk r w₂⟩
  cases o with
  | protoSend f => exact fun htype => absurd htype ho
  | _ => trivial

theorem newer_of_only {p : ServerProg α} (hp : p.Only offersNothing) : Newer cfg published p w := by
  induction p generalizing w with
  | ret a => exact fun _ _ => trivial
  | call o k ih => exact newer_call hp.1 fun r _ => ih r (hp.2 r)
  | spin => trivial

/-- The client has named its version. -/
def Named (current : Bytes) (w : SessionWorld) : Prop :=
  ∃ r ∈ w.wire.ins, r.type = .versionReq ∧
    kvGet r.payload (ascii "cur") maxVersionStr = some current

theorem offerUpdate_newer (clientId : Bytes) (hnamed : Named current w) (hm : published m)
    (hcmp : ∃ cmp, verCompareText current m.latestVersion = some cmp ∧ cmp < 0) :
    Newer cfg published (offerUpdate cfg m clientId current) w := by
  have refuse : ∀ {code message : Bytes}, (Prog.call (E := serverInterface)
      (.protoSend (errorFrame code message)) fun _ => .ret false).Only offersNothing :=
    .call nofun fun _ => trivial
  unfold offerUpdate
  simp only [Prog.call_bind, Prog.ret_bind]
  split
  · exact newer_of_only (.call (by trivial) fun _ => refuse)
  intro w₁ hd₁
  refine ⟨trivial, ?_⟩
  rintro _ w₂ (rfl : w₂ = w₁) w₃ hd₃
  -- the version is still named when the offer is made
  have hins := (onward_of_drift hd₁).trans (onward_of_drift hd₃)
  obtain ⟨r, hr, hreq⟩ := hnamed
  refine ⟨fun _ => ⟨current, m, ⟨r, hins.ins.subset hr, hreq⟩, hm, hcmp, rfl⟩, fun ok w₄ _ => ?_⟩
  refine newer_of_only ?_
  cases ok with
  | false => trivial
  | true =>
      refine (recvControl_listens.mono fun _ => offersNothing_of_listens).bind fun r => ?_
      split
      · split
        · exact refuse
        refine .call trivial fun _ => Prog.Only.bind
          ((pkgStreamFile_serves _ _ _ _ _).mono fun _ => offersNothing_of_serves) fun streamed => ?_
        refine .call trivial fun _ => ?_
        split
        · exact .call trivial fun _ => trivial
        · exact (finishTransfer_serves _ _ _).mono fun _ => offersNothing_of_serves
      · exact refuse

theorem reservedSession_newer (clientInfo clientId : Bytes) :
    Newer cfg published (reservedSession cfg clientInfo clientId) w := by
  have refuse : ∀ {code message : Bytes}, (Prog.call (E := serverInterface)
      (.protoSend (errorFrame code message)) fun _ => .ret false).Only offersNothing :=
    .call nofun fun _ => trivial
  unfold reservedSession
  simp only [Prog.call_bind, Prog.ret_bind]
  refine newer_call (by exact nofun) fun ok w₁ => ?_
  cases ok with
  | false => exact newer_of_only trivial
  | true =>
      refine newer_call (by trivial) fun _ w₂ => ?_
      unfold Server.recvControl
      simp only [Prog.call_bind]
      intro w₃ _
      refine ⟨trivial, fun rc w₄ hrecv => ?_⟩
      obtain ⟨-, -, hin⟩ := onward_of_recv hrecv
      cases rc with
      | ok f =>
          have hread := hin f rfl
          obtain ⟨type, flags, payload⟩ := f
          cases type with
          | versionReq =>
              simp only [Prog.ret_bind]
              cases hcur : kvGet payload (ascii "cur") maxVersionStr with
              | none => exact newer_of_only (.call trivial fun _ => refuse)
              | some current =>
                  dsimp only
                  split
                  · exact newer_of_only (.call trivial fun _ => refuse)
                  intro w₅ hd₅
                  refine ⟨trivial, fun snapshot w₆ hsnap => ?_⟩
                  obtain ⟨hpublished, rfl⟩ := hsnap
                  cases snapshot with
                  | none => exact newer_of_only refuse
                  | some m =>
                      cases hcmp : verCompareText current m.latestVersion with
                      | none =>
                          simp only [hcmp]
                          exact newer_of_only refuse
                      | some cmp =>
                          simp only [hcmp]
                          by_cases hge : cmp ≥ 0
                          · rw [if_pos hge]
                            refine newer_of_only (.call trivial fun _ => .call trivial fun _ => ?_)
                            refine .call nofun fun ok => ?_
                            cases ok with
                            | true => exact .call nofun fun _ => trivial
                            | false => trivial
                          · rw [if_neg hge]
                            refine offerUpdate_newer clientId ?_ (hpublished m rfl)
                              ⟨cmp, hcmp, Int.not_le.mp hge⟩
                            exact ⟨_, (onward_of_drift hd₅).ins.subset hread, rfl, hcur⟩
          | _ => exact newer_of_only refuse
      | eof | bad | tooLarge => exact newer_of_only (.call trivial fun _ => refuse)

/-- **A session offers nothing old**, whatever is published while it runs. -/
theorem handleClientSession_newer (clientInfo : Bytes) :
    Newer cfg published (handleClientSession cfg clientInfo) w := by
  have refuse : ∀ {code message text : Bytes}, (Prog.call (E := serverInterface)
      (.logMsg .warn text) fun _ => .call (.protoSend (errorFrame code message))
        fun _ => .ret false).Only offersNothing :=
    .call trivial fun _ => .call nofun fun _ => trivial
  unfold handleClientSession
  simp only [Prog.call_bind, Prog.ret_bind]
  refine newer_call (by exact nofun) fun ok w₁ => ?_
  cases ok with
  | false => exact newer_of_only trivial
  | true =>
      have htalks := (authenticateClient_talks cfg).mono fun _ h =>
        offersNothing_of_plain (plain_of_talks h)
      refine safe_bind.mpr ((newer_of_only htalks).post fun r w₂ _ => ?_)
      cases r with
      | none => exact newer_of_only trivial
      | some clientId =>
          refine newer_call (by trivial) fun reservation w₃ => ?_
          cases reservation with
          | duplicate => exact newer_of_only refuse
          | full => exact newer_of_only refuse
          | reserved =>
              refine safe_bind.mpr ((reservedSession_newer clientInfo clientId).post fun rc w₄ _ => ?_)
              exact newer_of_only (.call trivial fun _ => trivial)

end Newer

end UpdateFramework.System
