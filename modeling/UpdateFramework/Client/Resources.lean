import UpdateFramework.Client.Downloader

/-!
# Client — streams and buffers

Which streams are open and how many buffers are allocated (`Resources`), and how the pauses the user
asks for go (`Pausing`), along a run: `resourceEnv` gives every operation every response, except that
a stream that is opened was not open before.  `Careful` is what is proved of a part of the client:
it uses, closes and frees only what is there.  The parts that work on the version table, on the
resume file and on a digest leave the resources as they were.
-/

namespace UpdateFramework

open Libc Process

structure Resources where
  /-- The streams that are open, the last one opened first. -/
  streams : List Handle
  /-- The number of buffers that are allocated. -/
  buffers : ℕ
  deriving DecidableEq

/-- How the pauses go: none is open, one is, or one was when another connection was made. -/
inductive Pausing where
  | running | held | lost
  deriving DecidableEq

/-- The pauses once one more has been asked for. -/
def Pausing.asked : Pausing → Pausing
  | .running => .held
  | p => p

/-- What an operation and its response make of the resources. -/
def Resources.after (s : Resources) : Call clientInterface → Resources
  | ⟨.file (.fopen _ _), some h⟩ => { s with streams := h :: s.streams }
  | ⟨.file (.fclose h), _⟩ => { s with streams := s.streams.erase h }
  | ⟨.malloc _, r⟩ => if r = true then { s with buffers := s.buffers + 1 } else s
  | ⟨.free, _⟩ => { s with buffers := s.buffers - 1 }
  | _ => s

/-- A stream that is opened was not open. -/
def Resources.admits (s : Resources) : Call clientInterface → Prop
  | ⟨.file (.fopen _ _), some h⟩ => h ∉ s.streams
  | _ => True

/-- What an operation works on is there. -/
def Resources.uses (s : Resources) : ClientOp → Prop
  | .file (.fseeko h _) | .file (.fgets h _) | .file (.fread h _) | .file (.fputs h _)
  | .file (.fflush h) | .file (.fsync h) | .file (.fclose h) => h ∈ s.streams
  | .file (.fwrite h _) => h ∈ s.streams ∧ 0 < s.buffers
  | .protoRecv _ dataPayloadCap => dataPayloadCap = 0 ∨ 0 < s.buffers
  | .free => 0 < s.buffers
  | _ => True

/-- A pause begins when its request is taken, and ends when RESUME is sent. -/
def Pausing.after : Pausing → Call clientInterface → Pausing
  | .running, ⟨.consumePauseRequest, r⟩ => if r = true then .held else .running
  | .held, ⟨.protoSend f, r⟩ => if f.type = .resume ∧ r = true then .running else .held
  | .held, ⟨.netConnectTcp, _⟩ => .lost
  | s, _ => s

/-- The surroundings that keep account of the resources and the pauses. -/
def resourceEnv : Env clientInterface (Resources × Pausing) where
  may s o r s' := s.1.admits ⟨o, r⟩ ∧ s' = (s.1.after ⟨o, r⟩, s.2.after ⟨o, r⟩)

namespace Client

/-- From `s` on, the program uses only what is there, and ends in `Q`. -/
abbrev Careful {α : Type} (Q : α → Resources × Pausing → Prop) (p : ClientProg α)
    (s : Resources × Pausing) : Prop :=
  Safe resourceEnv (fun s o => s.1.uses o) Q p s

section Rules

variable {α : Type} {Q : α → Resources × Pausing → Prop} {s : Resources × Pausing}

theorem careful_ret {a : α} (h : Q a s) : Careful Q (.ret a) s := by
  rintro _ rfl
  exact h

theorem careful_call {o : ClientOp} {k : ClientOp.Res o → ClientProg α} (ho : s.1.uses o)
    (hk : ∀ r, s.1.admits ⟨o, r⟩ → Careful Q (k r) (s.1.after ⟨o, r⟩, s.2.after ⟨o, r⟩)) :
    Careful Q (.call o k) s := by
  rintro _ rfl
  refine ⟨ho, ?_⟩
  rintro r _ ⟨hr, rfl⟩
  exact hk r hr

/-- What leaves the resources and the pauses alone. -/
def leaves : ClientOp → Prop
  | .file (.fopen _ _) | .file (.fclose _) | .malloc _ | .free | .consumePauseRequest
  | .netConnectTcp => False
  | .protoSend f => f.type ≠ .resume
  | _ => True

theorem after_of_leaves {o : ClientOp} (ho : leaves o) (r : ClientOp.Res o)
    (s : Resources × Pausing) : (s.1.after ⟨o, r⟩, s.2.after ⟨o, r⟩) = s := by
  obtain ⟨resources, pausing⟩ := s
  cases o with
  | file o =>
      cases o with
      | fopen _ _ | fclose _ => exact ho.elim
      | _ =>
          cases pausing with
          | running | held | lost => rfl
  | malloc _ | free | consumePauseRequest | netConnectTcp => exact ho.elim
  | protoSend f =>
      cases pausing with
      | held =>
          refine Prod.ext rfl ?_
          exact if_neg fun h => ho h.1
      | running | lost => rfl
  | _ =>
      cases pausing with
      | running | held | lost => rfl

theorem careful_leaves {o : ClientOp} {k : ClientOp.Res o → ClientProg α} (ho : leaves o)
    (hu : s.1.uses o) (hk : ∀ r, Careful Q (k r) s) : Careful Q (.call o k) s := by
  refine careful_call hu fun r _ => ?_
  rw [after_of_leaves ho]
  exact hk r

/-- `s`, with one more stream open. -/
def opened (s : Resources × Pausing) (h : Handle) : Resources × Pausing :=
  ({ s.1 with streams := h :: s.1.streams }, s.2)

theorem mem_opened (s : Resources × Pausing) (h : Handle) : h ∈ (opened s h).1.streams :=
  List.mem_cons_self

theorem careful_fopen {p : Path} {m : Mode} {k : Option Handle → ClientProg α}
    (hnone : Careful Q (k none) s) (hsome : ∀ h, Careful Q (k (some h)) (opened s h)) :
    Careful Q (.call (ClientOp.file (.fopen p m)) k) s := by
  refine careful_call trivial fun r _ => ?_
  have hsame : s.2.after ⟨.file (.fopen p m), r⟩ = s.2 := by
    cases s.2 with
    | running | held | lost => rfl
  rw [hsame]
  cases r with
  | none => exact hnone
  | some h => exact hsome h

/-- The stream opened last is closed. -/
theorem careful_fclose {h : Handle} {k : Bool → ClientProg α} (hk : ∀ r, Careful Q (k r) s) :
    Careful Q (.call (ClientOp.file (.fclose h)) k) (opened s h) := by
  refine careful_call (mem_opened s h) fun r _ => ?_
  have hsame : (opened s h).2.after ⟨.file (.fclose h), r⟩ = s.2 := by
    change s.2.after ⟨.file (.fclose h), r⟩ = s.2
    cases s.2 with
    | running | held | lost => rfl
  have hback : (opened s h).1.after ⟨.file (.fclose h), r⟩ = s.1 := by
    change { s.1 with streams := (h :: s.1.streams).erase h } = s.1
    rw [List.erase_cons_head]
  rw [hsame, hback]
  exact hk r

/-- What every round keeps. -/
theorem careful_loop {γ : Type} {body : γ → ClientProg (γ ⊕ α)} (J : Resources × Pausing → Prop)
    (h : ∀ x t, J t → Careful (fun r t => r.elim (fun _ => J t) fun a => Q a t) (body x) t) (n : ℕ)
    (x : γ) (hs : J s) : Careful Q (Prog.iterate n body x) s := by
  refine safe_loop body trivial (fun _ => J) (fun y t ht => (h y t ht).post fun r u hu => ?_) n hs
  cases r with
  | inl y => exact hu
  | inr a => exact show Careful Q (.ret a) u from careful_ret hu

/-- A loop that leaves the resources alone. -/
theorem careful_iterate {γ : Type} {body : γ → ClientProg (γ ⊕ α)}
    (h : ∀ x, Careful (fun _ t => t = s) (body x) s) (n : ℕ) (x : γ) :
    Careful (fun _ t => t = s) (Prog.iterate n body x) s := by
  refine careful_loop (fun t => t = s) (fun y t ht => ?_) n x rfl
  rw [ht]
  refine (h y).post fun r u hu => ?_
  cases r with
  | inl y => exact hu
  | inr a => exact hu

theorem careful_then {β : Type} {p : ClientProg β} {f : β → ClientProg α}
    (hp : Careful (fun _ t => t = s) p s) (hf : ∀ b, Careful Q (f b) s) :
    Careful Q (p >>= f) s := by
  refine safe_bind.mpr (hp.post fun b t ht => ?_)
  subst ht
  exact hf b

end Rules

/-! ### Parts that close what they open -/

/-- The part leaves the resources and the pauses as they were. -/
def Tidy {α : Type} (p : ClientProg α) : Prop := ∀ s, Careful (fun _ t => t = s) p s

theorem sha256FileHex_tidy (bound : ℕ) (p : Path) : Tidy (file (sha256FileHex bound p)) := by
  intro s
  unfold sha256FileHex
  simp only [Prog.call_bind, Prog.ret_bind, file_call]
  refine careful_fopen (careful_ret rfl) fun fp => ?_
  simp only [file_bind, file_iterate, file_call, file_ret]
  refine careful_then (careful_iterate (fun ctx => ?_) _ _) fun ctx => ?_
  · unfold sha256FileRound
    simp only [Prog.call_bind, Prog.ret_bind, file_call]
    refine careful_leaves trivial (mem_opened s fp) fun r => ?_
    split
    · exact careful_ret rfl
    · exact careful_ret rfl
  · exact careful_fclose fun _ => careful_ret rfl

theorem printLines_tidy {fp : Handle} {s : Resources × Pausing} (hfp : fp ∈ s.1.streams)
    (lines : List Bytes) : Careful (fun _ t => t = s) (file (printLines fp lines)) s := by
  induction lines with
  | nil => exact careful_ret rfl
  | cons line lines ih => exact careful_leaves trivial hfp fun _ => ih

theorem writeResumeMetadata_tidy (cfg : ClientConfig) (v : Bytes) (offset totalSize : ℕ)
    (sha : Bytes) : Tidy (file (writeResumeMetadata cfg v offset totalSize sha)) := by
  intro s
  unfold writeResumeMetadata
  split
  · exact careful_ret rfl
  simp only [Prog.call_bind, Prog.ret_bind, file_call]
  refine careful_fopen (careful_ret rfl) fun fp => ?_
  simp only [file_bind, file_call, file_ret]
  refine careful_then (printLines_tidy (mem_opened s fp) _) fun _ => ?_
  exact careful_leaves trivial (mem_opened s fp) fun _ =>
    careful_leaves trivial (mem_opened s fp) fun _ => careful_fclose fun _ => careful_ret rfl

theorem putLines_tidy {fp : Handle} {s : Resources × Pausing} (hfp : fp ∈ s.1.streams)
    (lines : List Bytes) : Careful (fun _ t => t = s) (file (putLines fp lines)) s := by
  induction lines with
  | nil => exact careful_ret rfl
  | cons line lines ih =>
      refine careful_leaves trivial hfp fun ok => ?_
      cases ok with
      | true => exact ih
      | false => exact careful_ret rfl

theorem readTable_tidy (cfg : ClientConfig) (version : Bytes) :
    Tidy (file (readTable cfg version)) := by
  intro s
  unfold readTable
  simp only [Prog.call_bind, Prog.ret_bind, file_call]
  refine careful_fopen (careful_ret rfl) fun fp => ?_
  simp only [file_bind, file_iterate, file_call, file_ret]
  refine careful_then (careful_iterate (fun t => ?_) _ _) fun t => ?_
  · unfold tableRound fgetsText
    split
    · exact careful_ret rfl
    simp only [Prog.call_bind, file_call]
    refine careful_leaves trivial (mem_opened s fp) fun r => ?_
    cases r with
    | none => exact careful_ret rfl
    | some r =>
        simp only [Prog.ret_bind]
        split
        · exact careful_ret rfl
        · exact careful_ret rfl
        · split
          · exact careful_ret rfl
          · exact careful_ret rfl
  · exact careful_fclose fun _ => careful_ret rfl

theorem replaceTable_tidy (lines : List Bytes) : Tidy (file (replaceTable lines)) := by
  intro s
  have hunlink : Careful (fun _ t => t = s)
      (.call (ClientOp.file (.unlink .tableTmp)) fun _ => .ret false) s :=
    careful_leaves trivial trivial fun _ => careful_ret rfl
  -- with the stream closed, the temporary file takes the table's place or goes
  have hrename (ok : Bool) : Careful (fun _ t => t = s) (file (if ok = true then
      .call (FileOp.rename .tableTmp .table) fun r =>
        if r = true then .ret true else .call (FileOp.unlink .tableTmp) fun _ => .ret false
      else if false = true then .ret true
      else .call (FileOp.unlink .tableTmp) fun _ => .ret false)) s := by
    cases ok with
    | false => exact hunlink
    | true =>
        refine careful_leaves (o := .file (.rename .tableTmp .table)) trivial trivial
          fun renamed => ?_
        cases renamed with
        | true => exact careful_ret rfl
        | false => exact hunlink
  unfold replaceTable
  simp only [Prog.call_bind, Prog.ret_bind, file_call]
  refine careful_fopen (careful_ret rfl) fun fp => ?_
  simp only [file_bind]
  refine careful_then (putLines_tidy (mem_opened s fp) lines) fun rc => ?_
  cases rc with
  | false => exact careful_fclose fun _ => hrename false
  | true =>
      refine careful_leaves (o := .file (.fflush fp)) trivial (mem_opened s fp) fun flushed => ?_
      cases flushed with
      | false => exact careful_fclose fun _ => hrename false
      | true =>
          refine careful_leaves (o := .file (.fsync fp)) trivial (mem_opened s fp) fun synced => ?_
          exact careful_fclose fun closed => hrename (synced && closed)

theorem writeVersionFile_tidy (cfg : ClientConfig) (version : Bytes) :
    Tidy (file (writeVersionFile cfg version)) := by
  intro s
  unfold writeVersionFile
  split
  · exact careful_ret rfl
  simp only [Prog.call_bind, Prog.ret_bind, file_call]
  refine careful_leaves trivial trivial fun fd => ?_
  cases fd with
  | none => exact careful_ret rfl
  | some fd =>
      have hunlock (rc : Bool) : Careful (fun _ t => t = s)
          (.call (ClientOp.file (.unlock fd)) fun _ => .ret rc) s :=
        careful_leaves trivial trivial fun _ => careful_ret rfl
      simp only [file_bind]
      refine careful_then (readTable_tidy cfg version s) fun t => ?_
      cases t with
      | none => exact hunlock false
      | some t =>
          dsimp only
          split
          · rw [file_bind]
            exact careful_then (replaceTable_tidy _ s) hunlock
          · split
            · exact hunlock false
            · rw [file_bind]
              exact careful_then (replaceTable_tidy _ s) hunlock

theorem getCurrentVersion_tidy (bound : ℕ) (cfg : ClientConfig) :
    Tidy (file (getCurrentVersion bound cfg)) := by
  intro s
  unfold getCurrentVersion
  split
  · exact careful_ret rfl
  simp only [Prog.call_bind, Prog.ret_bind, file_call]
  refine careful_leaves trivial trivial fun fd => ?_
  cases fd with
  | none => exact careful_ret rfl
  | some fd =>
      simp only [file_call]
      refine careful_fopen (careful_leaves trivial trivial fun _ => careful_ret rfl) fun fp => ?_
      simp only [file_bind, file_iterate, file_call, file_ret]
      refine careful_then (careful_iterate (fun st => ?_) _ _) fun version => ?_
      · unfold versionRound fgetsText
        simp only [Prog.call_bind, file_call]
        refine careful_leaves trivial (mem_opened s fp) fun r => ?_
        cases r with
        | none => exact careful_ret rfl
        | some r =>
            simp only [Prog.ret_bind]
            split
            · exact careful_ret rfl
            · exact careful_ret rfl
            · exact careful_ret rfl
      · exact careful_fclose fun _ => careful_leaves trivial trivial fun _ => careful_ret rfl

end Client

end UpdateFramework
