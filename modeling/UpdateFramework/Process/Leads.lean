import UpdateFramework.Process.Duet

/-!
# Process — the course of a program along a transcript

`Leads A me on p s T q t U` says that `p` at `s`, where its operations do what `A` says, comes to
`q` at `t` by saying and hearing what `T` has before `U`, with operations in `on` only.  What leads to
a program that keeps to its transcript keeps to its own (`Leads.plays`), so a stretch of a program
that has only one course is followed once, whatever is asked of the rest.
-/

namespace Process

variable {E : Interface} {M α β σ : Type}

inductive Leads (A : Agent E M σ) (me : Side) (on : E.Op → Prop) :
    Prog E α → σ → Transcript M → Prog E α → σ → Transcript M → Prop where
  | refl (p : Prog E α) (s : σ) (T : Transcript M) : Leads A me on p s T p s T
  | does {o : E.Op} {k : E.Res o → Prog E α} {r : E.Res o} {s s' t : σ} {T U : Transcript M}
      {q : Prog E α} (ho : on o) (h : A s o = .does r s') (hk : Leads A me on (k r) s' T q t U) :
      Leads A me on (.call o k) s T q t U
  | sends {o : E.Op} {k : E.Res o → Prog E α} {m : M} {r : E.Res o} {s s' t : σ}
      {T U : Transcript M} {q : Prog E α} (ho : on o) (h : A s o = .sends m r s')
      (hk : Leads A me on (k r) s' T q t U) : Leads A me on (.call o k) s ((me, m) :: T) q t U
  | takes {o : E.Op} {k : E.Res o → Prog E α} {f : M → E.Res o × σ} {m : M} {s t : σ}
      {T U : Transcript M} {q : Prog E α} (ho : on o) (h : A s o = .takes f)
      (hk : Leads A me on (k (f m).1) (f m).2 T q t U) :
      Leads A me on (.call o k) s ((me.other, m) :: T) q t U

section Rules

variable {A : Agent E M σ} {me : Side} {on : E.Op → Prop} {p p' q : Prog E α} {s s' t : σ}
  {T T' U : Transcript M}

theorem Leads.trans (h : Leads A me on p s T p' s' T') (k : Leads A me on p' s' T' q t U) :
    Leads A me on p s T q t U := by
  induction h with
  | refl => exact k
  | does ho h _ ih => exact .does ho h (ih k)
  | sends ho h _ ih => exact .sends ho h (ih k)
  | takes ho h _ ih => exact .takes ho h (ih k)

/-- The rest of the program waits. -/
theorem Leads.bind (h : Leads A me on p s T q t U) (f : α → Prog E β) :
    Leads A me on (p >>= f) s T (q >>= f) t U := by
  induction h with
  | refl => exact .refl ..
  | does ho h _ ih => exact .does ho h ih
  | sends ho h _ ih => exact .sends ho h ih
  | takes ho h _ ih => exact .takes ho h ih

theorem Leads.plays {Q : α → σ → Transcript M → List (Transcript M) → Prop}
    {Ts : List (Transcript M)} (h : Leads A me on p s T q t U) (hq : Plays A me Q q t U Ts) :
    Plays A me Q p s T Ts := by
  induction h with
  | refl => exact hq
  | does _ h _ ih => exact (plays_does h).mpr (ih hq)
  | sends _ h _ ih => exact (plays_sends h).mpr (ih hq)
  | takes _ h _ ih =>
      rw [Plays, h]
      exact ⟨_, _, rfl, ih hq⟩

/-- A transcript gets no longer. -/
theorem Leads.length_le (h : Leads A me on p s T q t U) : U.length ≤ T.length := by
  induction h with
  | refl => exact Nat.le_refl _
  | does _ _ _ ih => exact ih
  | sends _ _ _ ih => exact Nat.le_succ_of_le ih
  | takes _ _ _ ih => exact Nat.le_succ_of_le ih

end Rules

end Process
