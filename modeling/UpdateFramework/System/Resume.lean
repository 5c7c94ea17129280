import UpdateFramework.System.Agreement
import UpdateFramework.System.Faithful
import UpdateFramework.System.Turns

/-!
# System — resuming never corrupts

A client, whose process may die at any time and be started again, and the sessions at the other ends
of its connections, all serving one package.  Whatever fails, the partial file holds a beginning of
the package, the client asks for what comes after, and what is installed is the package
(`resume_never_corrupts`).
-/

namespace UpdateFramework.System

open Libc Process FileSystem
open Server (requestedOffset)

/-- One package, who serves it, and who downloads it. -/
structure Setting where
  server : ServerConfig
  manifest : Manifest
  path : Bytes
  content : Bytes
  client : ClientConfig
  /-- The bound on the loops of the client. -/
  bound : ℕ
  clientInfo : Bytes
  /-- Reading a file of the client does not fail. -/
  reliable : Prop

namespace Setting

/-- The partial file. -/
abbrev part (e : Setting) : Path := .part e.manifest.latestVersion

/-- What is in the partial file. -/
def stored (e : Setting) (s : Machine) : Bytes := (s.client.fs.disk e.part).getD []

def roles (e : Setting) : Roles where
  process := Client.checkForUpdate e.bound e.client
  session := Server.handleClientSession e.server e.clientInfo
  rules := readerRules e.reliable
  published := (· = e.manifest)
  found files := files.disk e.path = some e.content

end Setting

/-! ### The sessions -/

/-- A session has said nothing but the truth, and will. -/
def Truthful (e : Setting) (p : ServerProg Bool) (w : SessionWorld) : Prop :=
  Safe (servingEnv (· = e.manifest)) (candidCall e.server e.manifest e.content)
      (fun _ => Honest e.server e.manifest e.content e.path) p w ∧
    Candid e.server e.manifest e.content w.wire.ins w.wire.outs

section Truthful

variable {e : Setting} {ev : Event} {s s' : Machine}

/-- A candid call leaves what was said candid. -/
theorem candid_of_call {cfg : ServerConfig} {m : Manifest} {content : Bytes} {w w' : SessionWorld}
    {o : ServerOp} {r : ServerOp.Res o} (hG : candidCall cfg m content w o)
    (h : Candid cfg m content w.wire.ins w.wire.outs) (hm : (servingEnv (· = m)).may w o r w') :
    Candid cfg m content w'.wire.ins w'.wire.outs := by
  cases o with
  | file o =>
      obtain ⟨fs, -, rfl⟩ := hm
      exact h
  | protoSend f =>
      obtain ⟨_, hs, rfl⟩ := hm
      cases hs with
      | sent _ => exact hG
      | failed _ => exact h
  | protoRecv cap dataCap =>
      obtain ⟨honward, houts, -⟩ := onward_of_recv hm
      exact houts.symm ▸ h.mono honward.ins.subset (List.prefix_refl _)
  | vmGetSnapshot =>
      obtain ⟨-, rfl⟩ := hm
      exact h
  | _ =>
      cases hm
      exact h

theorem truthful_step (hoffered : Offered e.server e.manifest e.path e.content)
    (h : ∀ k p w, s.sessions k = some (p, w) → Truthful e p w) (hs : Step e.roles ev s s') :
    ∀ k p w, s'.sessions k = some (p, w) → Truthful e p w := by
  refine sessions_step (fun _ _ _ hw => hw) (fun _ files hfiles => ?_)
    (fun _ o q r w w' _ _ hw hm => ?_) (fun _ p w f hw => ?_) h hs
  · refine ⟨handleClientSession_candid e.clientInfo hoffered.path ?_, candid_nil _ _ _ _⟩
    exact ⟨⟨candid_nil _ _ _ _, hfiles⟩, nofun⟩
  · exact ⟨(hw.1 _ ((servingEnv _).drift_refl _)).2 _ _ hm, candid_of_call hw.1.guard hw.2 hm⟩
  · exact ⟨hw.1.drift ⟨_, ⟨[f], rfl⟩, rfl⟩, hw.2⟩

/-- What the client has heard and will hear is candid. -/
theorem heard_of_linked (hl : Linked s) (hs : ∀ k p w, s.sessions k = some (p, w) → Truthful e p w) :
    Heard e.server e.manifest e.content s.client := by
  rcases hl.heard with hnil | ⟨k, p, w, -, hsession, hsaid, hread⟩
  · rw [Heard, hnil]
    exact candid_nil _ _ _ _
  · exact (hs k p w hsession).2.mono hread.subset hsaid

end Truthful

/-! ### The client -/

/-- The connections and the sessions are as they should be, and the client is faithful. -/
structure Sound (e : Setting) (s : Machine) : Prop where
  linked : Linked s
  truthful : ∀ k p w, s.sessions k = some (p, w) → Truthful e p w
  faithful : Faithful e.server e.manifest e.content e.reliable
    (fun _ => Resting e.server e.manifest e.content) s.process s.client
  kept : s.client.fs.Kept e.content e.part

section Sound

variable {e : Setting} {ev : Event} {s s' : Machine}

theorem Sound.heard (h : Sound e s) : Heard e.server e.manifest e.content s.client :=
  heard_of_linked h.linked h.truthful

/-- A started client. -/
theorem faithful_start (hoffered : Offered e.server e.manifest e.path e.content)
    {fs : FileSystem Path} (hidle : fs.Idle e.part)
    (hdisk : (fs.disk e.part).getD [] <+: e.content) :
    Faithful e.server e.manifest e.content e.reliable
      (fun _ => Resting e.server e.manifest e.content)
      (Client.checkForUpdate e.bound e.client) ⟨fs, {}, false, false, 0⟩ :=
  checkForUpdate_faithful hoffered e.bound ⟨candid_nil _ _ _ _, hidle, hdisk⟩

/-- What a faithful call leaves in the partial file. -/
theorem kept_of_call {v content : Bytes} {m : Manifest} {reliable : Prop} {ru : ClientRules}
    {w w' : ClientWorld} {o : ClientOp} {r : ClientOp.Res o} (hv : m.latestVersion = v)
    (hG : System.faithful m content reliable w o) (hk : w.fs.Kept content (.part v))
    (hm : (clientEnv ru).may w o r w') : w'.fs.Kept content (.part v) := by
  subst hv
  cases o with
  | file o =>
      obtain ⟨fs, hfs, rfl⟩ := hm
      exact hG.kept r fs (ru.file_may hfs)
  | _ => exact (@ClientRules.may_fs ru w w' _ r hm (by rintro o' ⟨⟩)).symm ▸ hk

theorem Sound.step (hoffered : Offered e.server e.manifest e.path e.content) (h : Sound e s)
    (hs : Step e.roles ev s s') : Sound e s' := by
  have hl := h.linked.step hs
  have htruthful := truthful_step hoffered h.truthful hs
  have hheard := heard_of_linked hl htruthful
  refine ⟨hl, htruthful, ?_, ?_⟩
  · cases hs with
    | client hp ho hm =>
        have hcall := h.faithful
        rw [hp] at hcall
        exact (hcall _ ((candidEnv ..).drift_refl _)).2 _ _ ⟨hm, hheard⟩
    | refused hp hlossy =>
        have hcall := h.faithful
        rw [hp] at hcall
        exact (hcall _ ((candidEnv ..).drift_refl _)).2 none _ ⟨⟨trivial, rfl⟩, hheard⟩
    | connects fd hp =>
        have hcall := h.faithful
        rw [hp] at hcall
        exact (hcall _ ((candidEnv ..).drift_refl _)).2 (some fd) _ ⟨rfl, hheard⟩
    | others hfs => exact h.faithful.drift ⟨⟨_, _, hfs, .refl _, rfl⟩, fun _ => hheard⟩
    | dies hd =>
        obtain ⟨hdisk, hclosed⟩ := h.kept.dies hd
        refine faithful_start hoffered (fun k t ht => ?_) hdisk
        rw [hclosed k] at ht
        cases ht
    | accepts | session | toServer => exact h.faithful
    | toClient hf =>
        exact h.faithful.drift ⟨⟨_, _, .refl _, ⟨[_], rfl⟩, rfl⟩, fun _ => hheard⟩
  · cases hs with
    | client hp ho hm =>
        have hcall := h.faithful
        rw [hp] at hcall
        exact kept_of_call rfl hcall.guard h.kept hm
    | others hfs => exact h.kept.same (sameAt_of_onlyShared hfs rfl)
    | dies hd =>
        obtain ⟨hdisk, hclosed⟩ := h.kept.dies hd
        refine Idle.kept (fun k t ht => ?_) hdisk
        rw [hclosed k] at ht
        cases ht
    | refused | connects | accepts | session | toServer | toClient => exact h.kept

end Sound

section Intact

variable {e : Setting} {ev : Event} {s s' : Machine}

/-- Nothing is lost from the partial file, unless it is installed. -/
theorem Sound.grows (h : Sound e s) (hreliable : e.reliable) (hs : Step e.roles ev s s') :
    e.stored s <+: e.stored s' ∨
      s'.client.fs.disk (.final e.manifest.latestVersion) = some e.content := by
  cases hs with
  | client hp ho hm =>
      rename_i o k r w
      have hcall := h.faithful
      rw [hp] at hcall
      have hG := hcall.guard
      by_cases hfile : ∃ o', o = .file o'
      · obtain ⟨o', rfl⟩ := hfile
        obtain ⟨fs, hfs, rfl⟩ := hm
        have hmay := hfs.1
        by_cases hrename : ∃ q, o' = .rename e.part q
        · obtain ⟨q, rfl⟩ := hrename
          obtain ⟨rfl, hwhole⟩ := hG.installs q rfl
          rcases may_rename hmay with ⟨-, rfl⟩ | ⟨-, -, rfl⟩
          · exact .inl (List.prefix_refl _)
          · exact .inr ((Function.update_self ..).trans hwhole)
        · exact .inl (hG.grows hreliable (fun q hq => hrename ⟨q, hq⟩) r fs hmay)
      · have hfs : w.fs = s.client.fs := ClientRules.may_fs hm fun o' ho' => hfile ⟨o', ho'⟩
        left
        show _ <+: (w.fs.disk e.part).getD []
        rw [hfs]
        exact List.prefix_refl _
  | others hfs =>
      left
      rw [Setting.stored, ← hfs.disk e.part rfl]
      exact List.prefix_refl _
  | dies hd => exact .inl (hd.grows e.part)
  | refused | connects | accepts | session | toServer | toClient =>
      exact .inl (List.prefix_refl _)

end Intact

end UpdateFramework.System
