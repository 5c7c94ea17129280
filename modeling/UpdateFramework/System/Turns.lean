import UpdateFramework.System.Connections

/-!
# System — taking turns

One run of a client and its sessions that can be computed (`Machine.turn`).  The client goes on until
it waits for a frame; then what has been said arrives, and after that the session at the other end
goes on.  How the calls are answered is left to a `Course`.  What comes of it is a run (`turns_steps`).
-/

namespace UpdateFramework.System

open Libc Process

/-- How the calls of the client and of its sessions are answered, and the files of the server. -/
structure Course where
  client : ClientWorld → (o : ClientOp) → ClientOp.Res o × ClientWorld
  session : SessionWorld → (o : ServerOp) → ServerOp.Res o × SessionWorld
  files : FileSystem Bytes

/-- The answers are among those that may be given. -/
structure Course.Allowed (c : Course) (e : Roles) : Prop where
  client : ∀ w o, o ≠ .netConnectTcp → e.rules.may w o (c.client w o).1 (c.client w o).2
  session : ∀ w o, servingMay e.published w o (c.session w o).1 (c.session w o).2
  files : e.found c.files

/-- Nothing fails. -/
def Course.smooth (clientId : Bytes) (m : Manifest) (files : FileSystem Bytes) : Course where
  client := ClientWorld.answer
  session := SessionWorld.answer clientId m
  files := files

theorem Course.smooth_allowed {e : Roles} {m : Manifest} {files : FileSystem Bytes}
    (hfile : ∀ fs o, e.rules.file fs o (fs.ok o).1 (fs.ok o).2) (hlossy : e.rules.lossy)
    (hm : e.published m) (hfiles : e.found files) (clientId : Bytes) :
    (Course.smooth clientId m files).Allowed e :=
  ⟨fun w o _ => may_answer hfile hlossy w o, servingMay_answer hm clientId, hfiles⟩

/-- A call that waits for a frame. -/
def waits (w : ClientWorld) : ClientOp → Bool
  | .protoRecv _ _ => w.wire.inbox.isEmpty
  | _ => false

namespace Machine

/-- The call of the client is answered. -/
def called (c : Course) (s : Machine) :
    (o : ClientOp) → (ClientOp.Res o → ClientProg Client.CheckResult) → Machine
  | .netConnectTcp, k => { s with
      process := k (some 0)
      client := { s.client with wire := {} }
      line := some s.opened
      opened := s.opened + 1
      past := s.said }
  | o, k => { s with process := k (c.client s.client o).1, client := (c.client s.client o).2 }

/-- The first frame that was said on connection `k` and has not arrived. -/
def toServer? (s : Machine) (k : ℕ) (w : SessionWorld) : Option Frame :=
  ((s.said k).drop (w.wire.ins ++ w.wire.inbox).length).head?

/-- The first frame that was said to the client and has not arrived. -/
def toClient? (s : Machine) : Option Frame :=
  (s.replied.drop (s.client.wire.ins ++ s.client.wire.inbox).length).head?

/-- The session on connection `k` is at `p` and `w`, and has its turn. -/
def served (c : Course) (s : Machine) (k : ℕ) (p : ServerProg Bool) (w : SessionWorld) :
    Event × Machine :=
  match s.toClient?, s.toServer? k w, p with
  | some f, _, _ =>
    (.nothing, { s with client := { s.client with wire := s.client.wire.arrived f } })
  | none, some f, _ => (.nothing, s.withSession k p { w with wire := w.wire.arrived f })
  | none, none, .call o q => (.nothing, s.withSession k (q (c.session w o).1) (c.session w o).2)
  | none, none, _ => (.others, s)

/-- The other end of the client's connection has its turn. -/
def answered (e : Roles) (c : Course) (s : Machine) : Event × Machine :=
  match s.line with
  | none => (.others, s)
  | some k => match s.sessions k with
    | none => (.nothing, s.withSession k e.session ⟨c.files, {}⟩)
    | some (p, w) => s.served c k p w

/-- One step. -/
def turn (e : Roles) (c : Course) (s : Machine) : Event × Machine :=
  match s.process with
  | .call o k => if waits s.client o then s.answered e c else (.calls o, s.called c o k)
  | _ => s.answered e c

/-- `n` steps. -/
def turns (e : Roles) (c : Course) : ℕ → Machine → Machine
  | 0, s => s
  | n + 1, s => turns e c n (s.turn e c).2

end Machine

section Turns

variable {e : Roles} {c : Course} {s : Machine}

/-- What has not arrived comes after what has. -/
theorem prefix_of_head_drop {α : Type} {xs ys : List α} {y : α} (h : xs <+: ys)
    (hy : (ys.drop xs.length).head? = some y) : xs ++ [y] <+: ys := by
  obtain ⟨zs, rfl⟩ := h
  rw [List.drop_left] at hy
  obtain ⟨zs, rfl⟩ := List.head?_eq_some_iff.mp hy
  exact ⟨zs, by simp⟩

theorem step_idle (s : Machine) : Step e .others s s := .others (e.rules.others_refl _)

theorem called_step (hc : c.Allowed e) {o : ClientOp}
    {k : ClientOp.Res o → ClientProg Client.CheckResult} (hp : s.process = .call o k) :
    Step e (.calls o) s (s.called c o k) := by
  by_cases ho : o = .netConnectTcp
  · subst ho
    exact .connects 0 hp
  · have hcalled : s.called c o k =
        { s with process := k (c.client s.client o).1, client := (c.client s.client o).2 } := by
      cases o with
      | netConnectTcp => exact absurd rfl ho
      | _ => rfl
    rw [hcalled]
    exact .client hp ho (hc.client _ _ ho)

theorem served_step (hc : c.Allowed e) (hl : Linked s) {k : ℕ} {p : ServerProg Bool}
    {w : SessionWorld} (hs : s.sessions k = some (p, w)) :
    Step e (s.served c k p w).1 s (s.served c k p w).2 := by
  obtain ⟨-, hread⟩ := hl.server k p w hs
  unfold Machine.served
  cases hf : s.toClient? with
  | some f => exact .toClient (prefix_of_head_drop hl.client hf)
  | none =>
      cases hg : s.toServer? k w with
      | some f => exact .toServer hs (prefix_of_head_drop hread hg)
      | none =>
          cases p with
          | call o q => exact .session hs (hc.session w o)
          | ret _ | spin => exact step_idle s

theorem answered_step (hc : c.Allowed e) (hl : Linked s) :
    Step e (s.answered e c).1 s (s.answered e c).2 := by
  rw [Machine.answered]
  split
  next => exact step_idle s
  next k hline =>
    split
    next hs => exact .accepts (hl.line k hline) hs hc.files
    next p w hs => exact served_step hc hl hs

/-- A turn is a step. -/
theorem turn_step (hc : c.Allowed e) (hl : Linked s) :
    Step e (s.turn e c).1 s (s.turn e c).2 := by
  rw [Machine.turn]
  split
  next o k hp =>
    split
    next => exact answered_step hc hl
    next => exact called_step hc hp
  next => exact answered_step hc hl

end Turns

end UpdateFramework.System
