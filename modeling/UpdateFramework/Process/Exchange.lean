import Mathlib.Order.GameAdd
import UpdateFramework.Process.Duet

/-!
# Process — two programs that exchange messages

The programs of two sides with what is on its way to each.  An operation may look whether a message is
there and miss one on its way, and a message to a side that has ended may be lost; so a step has luck
or has not.  Every run comes to an end (`Exchange.wellFounded`).
-/

namespace Process

variable {E F : Interface} {M α β σ τ : Type}

/-! ### What an operation does -/

inductive Act (M σ R : Type) where
  | does (r : R) (s : σ)
  /-- To a side that has ended, a message may be `lost`. -/
  | sends (m : M) (r : R) (s : σ) (lost : R × σ)
  /-- A message is taken; there is `gone` where none is left and the other side has ended. -/
  | takes (f : M → R × σ) (gone : R × σ)
  /-- Whether a message is there, which one on its way need not be. -/
  | asks (f : Bool → R × σ)
  /-- Goes on once a message is there. -/
  | awaits (r : R) (s : σ)

abbrev Actor (E : Interface) (M σ : Type) := σ → (o : E.Op) → Act M σ (E.Res o)

/-- A step with these messages in the channel: the response, the state, the messages that are left,
and those that are sent.  By luck a message that is there is found, and one to a side that has ended
is not lost. -/
def Act.move {R : Type} (ended lucky : Bool) :
    Act M σ R → List M → Option (R × σ × List M × List M)
  | .does r s, ms => some (r, s, ms, [])
  | .sends m r s lost, ms =>
    if ended && !lucky then some (lost.1, lost.2, ms, []) else some (r, s, ms, [m])
  | .takes f _, m :: ms => some ((f m).1, (f m).2, ms, [])
  | .takes _ gone, [] => if ended then some (gone.1, gone.2, [], []) else none
  | .asks f, ms => some ((f (lucky && !ms.isEmpty)).1, (f (lucky && !ms.isEmpty)).2, ms, [])
  | .awaits r s, ms => if ms.isEmpty then none else some (r, s, ms, [])

/-! ### The two sides -/

/-- `q` is what is left of `p` after its first call. -/
def Prog.Later (q p : Prog E α) : Prop := ∃ o k r, p = .call o k ∧ q = k r

theorem Prog.later_wf : WellFounded (Prog.Later : Prog E α → Prog E α → Prop) := by
  refine ⟨fun p => ?_⟩
  induction p with
  | ret a =>
      refine ⟨_, ?_⟩
      rintro _ ⟨o, k, r, h, -⟩
      cases h
  | call o k ih =>
      refine ⟨_, ?_⟩
      rintro _ ⟨o', k', r, h, rfl⟩
      cases h
      exact ih r
  | spin =>
      refine ⟨_, ?_⟩
      rintro _ ⟨o, k, r, h, -⟩
      cases h

def Prog.over : Prog E α → Bool
  | .ret _ => true
  | _ => false

theorem Prog.over_iff {p : Prog E α} : p.over = true ↔ ∃ a, p = .ret a := by
  cases p with
  | ret a => exact ⟨fun _ => ⟨a, rfl⟩, fun _ => rfl⟩
  | call o k =>
      constructor
      · intro h
        cases h
      · rintro ⟨a, h⟩
        cases h
  | spin =>
      constructor
      · intro h
        cases h
      · rintro ⟨a, h⟩
        cases h

structure Exchange (E F : Interface) (M α β σ τ : Type) where
  left : Prog E α
  leftState : σ
  right : Prog F β
  rightState : τ
  toLeft : List M
  toRight : List M
  /-- All messages so far, with who sent each. -/
  sent : Transcript M

namespace Exchange

variable {A : Actor E M σ} {B : Actor F M τ} {c d : Exchange E F M α β σ τ}

def start (p : Prog E α) (s : σ) (q : Prog F β) (t : τ) : Exchange E F M α β σ τ :=
  ⟨p, s, q, t, [], [], []⟩

inductive Step (A : Actor E M σ) (B : Actor F M τ) :
    Exchange E F M α β σ τ → Exchange E F M α β σ τ → Prop where
  | left {c : Exchange E F M α β σ τ} {o : E.Op} {k : E.Res o → Prog E α} {lucky : Bool}
      {r : E.Res o} {s : σ} {ms out : List M} (h : c.left = .call o k)
      (hm : (A c.leftState o).move c.right.over lucky c.toLeft = some (r, s, ms, out)) :
      Step A B c ⟨k r, s, c.right, c.rightState, ms, c.toRight ++ out, c.sent ++ said .left out⟩
  | right {c : Exchange E F M α β σ τ} {o : F.Op} {k : F.Res o → Prog F β} {lucky : Bool}
      {r : F.Res o} {t : τ} {ms out : List M} (h : c.right = .call o k)
      (hm : (B c.rightState o).move c.left.over lucky c.toRight = some (r, t, ms, out)) :
      Step A B c ⟨c.left, c.leftState, k r, t, c.toLeft ++ out, ms, c.sent ++ said .right out⟩

/-- Both programs have ended. -/
def Ended (c : Exchange E F M α β σ τ) : Prop := (∃ a, c.left = .ret a) ∧ ∃ b, c.right = .ret b

/-- A step gets on in one tree or in the other. -/
theorem Step.later (h : Step A B c d) :
    Prod.GameAdd Prog.Later Prog.Later (d.left, d.right) (c.left, c.right) := by
  cases h with
  | left h _ => exact .fst ⟨_, _, _, h, rfl⟩
  | right h _ => exact .snd ⟨_, _, _, h, rfl⟩

/-- There is no infinite run. -/
theorem wellFounded (A : Actor E M σ) (B : Actor F M τ) :
    WellFounded fun d c : Exchange E F M α β σ τ => Step A B c d := by
  have hwf := InvImage.wf (fun c : Exchange E F M α β σ τ => (c.left, c.right))
    (Prog.later_wf.prod_gameAdd Prog.later_wf)
  exact Subrelation.wf (fun h => h.later) hwf

/-! ### Executed runs -/

/-- The next step of a side, with luck or without. -/
def next (A : Actor E M σ) (B : Actor F M τ) (turn : Side × Bool) (c : Exchange E F M α β σ τ) :
    Option (Exchange E F M α β σ τ) :=
  match turn.1 with
  | .left => match c.left with
    | .call o k => ((A c.leftState o).move c.right.over turn.2 c.toLeft).map fun x =>
        ⟨k x.1, x.2.1, c.right, c.rightState, x.2.2.1, c.toRight ++ x.2.2.2,
          c.sent ++ said .left x.2.2.2⟩
    | _ => none
  | .right => match c.right with
    | .call o k => ((B c.rightState o).move c.left.over turn.2 c.toRight).map fun x =>
        ⟨c.left, c.leftState, k x.1, x.2.1, c.toLeft ++ x.2.2.2, x.2.2.1,
          c.sent ++ said .right x.2.2.2⟩
    | _ => none

theorem next_step {turn : Side × Bool} (h : next A B turn c = some d) : Step A B c d := by
  obtain ⟨side, lucky⟩ := turn
  cases side with
  | left =>
      simp only [next] at h
      split at h
      · rename_i o k hcall
        obtain ⟨⟨r, s, ms, out⟩, hm, rfl⟩ := Option.map_eq_some_iff.mp h
        exact .left hcall hm
      · cases h
  | right =>
      simp only [next] at h
      split at h
      · rename_i o k hcall
        obtain ⟨⟨r, t, ms, out⟩, hm, rfl⟩ := Option.map_eq_some_iff.mp h
        exact .right hcall hm
      · cases h

/-- Each side goes on for so many steps, with luck. -/
def inTurn (turns : List (Side × ℕ)) : List (Side × Bool) :=
  turns.flatMap fun turn => List.replicate turn.2 (turn.1, true)

/-- The states of the run in which the sides take these turns. -/
def taking (A : Actor E M σ) (B : Actor F M τ) :
    List (Side × Bool) → Exchange E F M α β σ τ → Option (List (Exchange E F M α β σ τ))
  | [], _ => some []
  | turn :: turns, c => (next A B turn c).bind fun d => (taking A B turns d).map (d :: ·)

theorem taking_chain {turns : List (Side × Bool)} {path : List (Exchange E F M α β σ τ)}
    (h : taking A B turns c = some path) : (c :: path).IsChain (Step A B) := by
  induction turns generalizing c path with
  | nil =>
      cases h
      exact .singleton c
  | cons turn turns ih =>
      obtain ⟨d, hd, hrest⟩ := Option.bind_eq_some_iff.mp h
      obtain ⟨path, hpath, rfl⟩ := Option.map_eq_some_iff.mp hrest
      exact List.isChain_cons_cons.mpr ⟨next_step hd, ih hpath⟩

end Exchange

end Process
