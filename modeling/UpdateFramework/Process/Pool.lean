import Mathlib.Logic.Function.Basic
import UpdateFramework.Process.Program

/-!
# Process — threads over one state

Any number of threads run programs and share one state.  A step is one operation of one thread,
the start or the end of a program, or a drift of the state.  Each thread remembers what it has
called since its program started.

`Pool.Run.history` gives, of every thread in every reachable pool, that it is at a point of a
history of a program it may start; `Pool.Run.invariant` is the rule for invariants, which may use it,
and `Pool.Visits.invariant` the rule for what holds of a pool and the run that has led to it.
-/

namespace Process

variable {ι : Type} {E : Interface} {α σ : Type}

/-- What each thread is running, with what it has called so far, and the state they share. -/
structure Pool (ι : Type) (E : Interface) (α σ : Type) where
  threads : ι → Option (Prog E α × List (Call E))
  shared : σ

namespace Pool

/-- No thread runs. -/
def idle (s : σ) : Pool ι E α σ := ⟨fun _ => none, s⟩

/-- Every thread is at a point of a history of a program it may start. -/
def Follows (starts : ι → Prog E α → Prop) (c : Pool ι E α σ) : Prop :=
  ∀ i p tr, c.threads i = some (p, tr) → ∃ p₀, starts i p₀ ∧ History p₀ p tr

/-- Every call of every thread was answered as the surroundings allow in some state. -/
def Answered (env : Env E σ) (c : Pool ι E α σ) : Prop :=
  ∀ i p tr x, c.threads i = some (p, tr) → x ∈ tr → ∃ s s', env.may s x.1 x.2 s'

theorem answered_idle (env : Env E σ) (s : σ) : Answered env (idle s : Pool ι E α σ) := nofun

theorem follows_idle (starts : ι → Prog E α → Prop) (s : σ) : Follows starts (idle s) := nofun

variable [DecidableEq ι]

/-- Thread `i` goes over to `t`, and the state to `s`. -/
def set (c : Pool ι E α σ) (i : ι) (t : Option (Prog E α × List (Call E))) (s : σ) :
    Pool ι E α σ :=
  ⟨Function.update c.threads i t, s⟩

@[simp] theorem set_self (c : Pool ι E α σ) (i : ι) (t : Option (Prog E α × List (Call E)))
    (s : σ) : (c.set i t s).threads i = t :=
  Function.update_self ..

@[simp] theorem set_shared (c : Pool ι E α σ) (i : ι) (t : Option (Prog E α × List (Call E)))
    (s : σ) : (c.set i t s).shared = s := rfl

theorem set_ne (c : Pool ι E α σ) {i j : ι} (h : j ≠ i)
    (t : Option (Prog E α × List (Call E))) (s : σ) : (c.set i t s).threads j = c.threads j :=
  Function.update_of_ne h ..

/-- Thread `i` performs an operation. -/
def Acts (env : Env E σ) (i : ι) (c d : Pool ι E α σ) : Prop :=
  ∃ o k tr r s, c.threads i = some (.call o k, tr) ∧ env.may c.shared o r s ∧
    d = c.set i (some (k r, tr ++ [⟨o, r⟩])) s

inductive Step (env : Env E σ) (starts : ι → Prog E α → Prop) :
    Pool ι E α σ → Pool ι E α σ → Prop where
  | act {c d : Pool ι E α σ} {i : ι} (h : Acts env i c d) : Step env starts c d
  | start {c : Pool ι E α σ} {i : ι} {p : Prog E α} (h : starts i p) (hidle : c.threads i = none) :
      Step env starts c (c.set i (some (p, [])) c.shared)
  | finish {c : Pool ι E α σ} {i : ι} {a : α} {tr : List (Call E)}
      (h : c.threads i = some (.ret a, tr)) : Step env starts c (c.set i none c.shared)
  | drift {c : Pool ι E α σ} {s : σ} (h : env.drift c.shared s) :
      Step env starts c ⟨c.threads, s⟩

/-- A run of any length. -/
abbrev Run (env : Env E σ) (starts : ι → Prog E α → Prop) :
    Pool ι E α σ → Pool ι E α σ → Prop :=
  Relation.ReflTransGen (Step env starts)

/-- A run from `c`, with the pools it goes through. -/
inductive Visits (env : Env E σ) (starts : ι → Prog E α → Prop) (c : Pool ι E α σ) :
    List (Pool ι E α σ) → Pool ι E α σ → Prop where
  | start : Visits env starts c [c] c
  | step {run : List (Pool ι E α σ)} {d e : Pool ι E α σ} (h : Visits env starts c run d)
      (hs : Step env starts d e) : Visits env starts c (run ++ [e]) e

/-- A run in which thread `i` calls only where `G` allows it. -/
abbrev GuardedRun (env : Env E σ) (starts : ι → Prog E α → Prop) (G : Pool ι E α σ → ι → Prop) :
    Pool ι E α σ → Pool ι E α σ → Prop :=
  Relation.ReflTransGen fun c d => Step env starts c d ∧ ∀ i, Acts env i c d → G c i

section Rules

variable {env : Env E σ} {starts : ι → Prog E α → Prop} {c d : Pool ι E α σ}

theorem Follows.set (h : Follows starts c) {i : ι} {t : Option (Prog E α × List (Call E))} {s : σ}
    (ht : ∀ p tr, t = some (p, tr) → ∃ p₀, starts i p₀ ∧ History p₀ p tr) :
    Follows starts (c.set i t s) := by
  intro j p tr hj
  by_cases hji : j = i
  · subst hji
    rw [set_self] at hj
    exact ht p tr hj
  · rw [set_ne c hji] at hj
    exact h j p tr hj

theorem Follows.step (h : Follows starts c) (hs : Step env starts c d) : Follows starts d := by
  cases hs with
  | act ha =>
      obtain ⟨o, k, tr, r, s, hi, -, rfl⟩ := ha
      obtain ⟨p₀, hp₀, hrun⟩ := h _ _ _ hi
      refine h.set fun p tr' ht => ?_
      cases ht
      exact ⟨p₀, hp₀, hrun.tail (.op rfl)⟩
  | start hp hidle =>
      refine h.set fun p tr ht => ?_
      cases ht
      exact ⟨_, hp, .refl⟩
  | finish hi => exact h.set nofun
  | drift hd => exact h

theorem Answered.set (h : Answered env c) {i : ι} {t : Option (Prog E α × List (Call E))} {s : σ}
    (ht : ∀ p tr x, t = some (p, tr) → x ∈ tr → ∃ s s', env.may s x.1 x.2 s') :
    Answered env (c.set i t s) := by
  intro j p tr x hj hx
  by_cases hji : j = i
  · subst hji
    rw [set_self] at hj
    exact ht p tr x hj hx
  · rw [set_ne c hji] at hj
    exact h j p tr x hj hx

theorem Answered.step (h : Answered env c) (hs : Step env starts c d) : Answered env d := by
  cases hs with
  | act ha =>
      obtain ⟨o, k, tr, r, s, hi, hm, rfl⟩ := ha
      refine h.set fun p tr' x ht hx => ?_
      cases ht
      rcases List.mem_append.mp hx with hx | hx
      · exact h _ _ _ x hi hx
      · cases List.mem_singleton.mp hx
        exact ⟨_, _, hm⟩
  | start hp hidle =>
      refine h.set fun p tr x ht hx => ?_
      cases ht
      cases hx
  | finish hi => exact h.set nofun
  | drift hd => exact h

/-- What holds of a pool, and is kept by every step where the threads follow their programs. -/
theorem Run.invariant {I : Pool ι E α σ → Prop} (h : Run env starts c d)
    (hc : Follows starts c) (h₀ : I c)
    (hstep : ∀ {a b}, Follows starts a → I a → Step env starts a b → I b) :
    Follows starts d ∧ I d := by
  induction h with
  | refl => exact ⟨hc, h₀⟩
  | tail _ hs ih => exact ⟨ih.1.step hs, hstep ih.1 ih.2 hs⟩

/-- Every run goes through some pools. -/
theorem Run.visits (h : Run env starts c d) : ∃ run, Visits env starts c run d := by
  induction h with
  | refl => exact ⟨[c], .start⟩
  | tail _ hs ih =>
      obtain ⟨run, hrun⟩ := ih
      exact ⟨run ++ [_], hrun.step hs⟩

theorem Visits.last {run : List (Pool ι E α σ)} (h : Visits env starts c run d) :
    ∃ before, run = before ++ [d] := by
  cases h with
  | start => exact ⟨[], rfl⟩
  | step h hs => exact ⟨_, rfl⟩

/-- The same for what holds of a pool and the run that has led to it. -/
theorem Visits.invariant {I : List (Pool ι E α σ) → Pool ι E α σ → Prop}
    {run : List (Pool ι E α σ)} (h : Visits env starts c run d) (hc : Follows starts c)
    (h₀ : I [c] c) (hstep : ∀ {run a b}, Visits env starts c run a → Follows starts a → I run a →
      Step env starts a b → I (run ++ [b]) b) : Follows starts d ∧ I run d := by
  induction h with
  | start => exact ⟨hc, h₀⟩
  | step h hs ih => exact ⟨ih.1.step hs, hstep h ih.1 ih.2 hs⟩

/-- A thread that calls does not stay where it is. -/
theorem Acts.moves {i : ι} (h : Acts env i c d) : d.threads i ≠ c.threads i := by
  obtain ⟨o, k, tr, r, s, hi, -, rfl⟩ := h
  rw [set_self, hi]
  intro heq
  have htr : tr ++ [⟨o, r⟩] = tr := congrArg Prod.snd (Option.some.inj heq)
  exact List.cons_ne_nil _ _ (List.append_right_eq_self.mp htr)

/-- A step of thread `i` is no call of another one. -/
theorem Acts.eq_of_set {i j : ι} {t : Option (Prog E α × List (Call E))} {s : σ}
    (h : Acts env j c (c.set i t s)) : j = i := by
  by_contra hji
  exact h.moves (set_ne c hji t s)

section Guarded

variable [DecidableEq E.Op] {G : Pool ι E α σ → ι → Prop} {p q : Prog E α} {tr : List (Call E)}
  {i : ι} {s : σ}

omit [DecidableEq E.Op] in
theorem GuardedRun.run (h : GuardedRun env starts G c d) : Run env starts c d :=
  Relation.ReflTransGen.mono (fun _ _ hs => hs.1) _ _ h

/-- A thread goes on along calls that can be replayed and that are allowed. -/
theorem guardedRun_replay (starts : ι → Prog E α → Prop) {done : List (Call E)}
    (hi : c.threads i = some (p, done)) (hq : p.replay tr = some q)
    (hs : env.Allows c.shared tr s)
    (hG : ∀ before x after, tr = before ++ x :: after → ∀ k t, env.Allows c.shared before t →
      G (c.set i (some (.call x.1 k, done ++ before)) t) i) :
    GuardedRun env starts G c (c.set i (some (q, done ++ tr)) s) := by
  induction tr generalizing c p done with
  | nil =>
      obtain rfl : p = q := by cases p <;> exact Option.some.inj hq
      obtain rfl : c.shared = s := hs
      rw [List.append_nil, ← hi, set, Function.update_eq_self]
  | cons x tr ih =>
      obtain ⟨o, r⟩ := x
      obtain ⟨t, hm, hrest⟩ := hs
      cases p with
      | call o' k =>
          by_cases ho : o = o'
          · subst ho
            rw [Prog.replay, dif_pos rfl] at hq
            have hguard := hG [] ⟨o, r⟩ tr rfl k c.shared rfl
            rw [List.append_nil, ← hi, set, Function.update_eq_self] at hguard
            have hstep : Step env starts c (c.set i (some (k r, done ++ [⟨o, r⟩])) t) :=
              .act ⟨o, k, done, r, t, hi, hm, rfl⟩
            have hrun := ih (c := c.set i (some (k r, done ++ [⟨o, r⟩])) t) (set_self ..) hq hrest
              fun before x after htr k' u hu => ?_
            · rw [List.append_assoc, set, set, Function.update_idem] at hrun
              exact .head ⟨hstep, fun j hj => hj.eq_of_set ▸ hguard⟩ hrun
            · have hnext := hG (⟨o, r⟩ :: before) x after (congrArg (List.cons _) htr) k' u
                ⟨t, hm, hu⟩
              rwa [set, set, Function.update_idem, List.append_assoc]
          · rw [Prog.replay, dif_neg ho] at hq
            cases hq
      | ret a => cases hq
      | spin => cases hq

/-- A thread starts a program, and goes on the same way. -/
theorem guardedRun_start {starts : ι → Prog E α → Prop} (hidle : c.threads i = none)
    (hp : starts i p) (hq : p.replay tr = some q) (hs : env.Allows c.shared tr s)
    (hG : ∀ before x after, tr = before ++ x :: after → ∀ k t, env.Allows c.shared before t →
      G (c.set i (some (.call x.1 k, before)) t) i) :
    GuardedRun env starts G c (c.set i (some (q, tr)) s) := by
  have hnone : ∀ j, ¬ Acts env j c (c.set i (some (p, [])) c.shared) := by
    intro j hj
    obtain rfl := hj.eq_of_set
    obtain ⟨o, k, tr, r, s, hi, -⟩ := hj
    rw [hidle] at hi
    cases hi
  have hrun := guardedRun_replay (G := G) starts (c := c.set i (some (p, [])) c.shared)
    (set_self ..) hq hs fun before x after htr k t ht => by
      rw [set, set, Function.update_idem]
      exact hG before x after htr k t ht
  rw [set, set, Function.update_idem] at hrun
  exact .head ⟨.start hp hidle, fun j hj => absurd hj (hnone j)⟩ hrun

omit [DecidableEq E.Op] in
/-- A thread that has ended is idle from then on. -/
theorem guardedRun_finish {a : α} (hi : c.threads i = some (.ret a, tr)) :
    GuardedRun env starts G c (c.set i none c.shared) := by
  refine .single ⟨.finish hi, fun j hj => ?_⟩
  obtain rfl := hj.eq_of_set
  obtain ⟨o, k, tr', r, s, hcall, -⟩ := hj
  rw [hi] at hcall
  cases hcall

/-- A thread goes on to the end of its program. -/
theorem guardedRun_rest (starts : ι → Prog E α → Prop) {a : α} {done : List (Call E)}
    (hi : c.threads i = some (p, done)) (hq : p.replay tr = some (.ret a))
    (hs : env.Allows c.shared tr s)
    (hG : ∀ before x after, tr = before ++ x :: after → ∀ k t, env.Allows c.shared before t →
      G (c.set i (some (.call x.1 k, done ++ before)) t) i) :
    GuardedRun env starts G c (c.set i none s) := by
  have hend : GuardedRun env starts G (c.set i (some (.ret a, done ++ tr)) s)
      ((c.set i (some (.ret a, done ++ tr)) s).set i none s) := guardedRun_finish (set_self ..)
  have hrun := (guardedRun_replay starts hi hq hs hG).trans hend
  rwa [set, set, Function.update_idem] at hrun

/-- A thread that is idle runs a program from beginning to end. -/
theorem guardedRun_whole {a : α} (hidle : c.threads i = none) (hp : starts i p)
    (hq : p.replay tr = some (.ret a)) (hs : env.Allows c.shared tr s)
    (hG : ∀ before x after, tr = before ++ x :: after → ∀ k t, env.Allows c.shared before t →
      G (c.set i (some (.call x.1 k, before)) t) i) :
    GuardedRun env starts G c ⟨c.threads, s⟩ := by
  have hend : GuardedRun env starts G (c.set i (some (.ret a, tr)) s)
      ((c.set i (some (.ret a, tr)) s).set i none s) := guardedRun_finish (set_self ..)
  have hrun := (guardedRun_start hidle hp hq hs hG).trans hend
  rwa [set, set, Function.update_idem, ← hidle, Function.update_eq_self] at hrun

end Guarded

/-- A thread goes on along calls that can be replayed and that the surroundings allow. -/
theorem run_replay [DecidableEq E.Op] (starts : ι → Prog E α → Prop) {p q : Prog E α}
    {tr done : List (Call E)} {i : ι} {s : σ} (hi : c.threads i = some (p, done))
    (hq : p.replay tr = some q) (hs : env.Allows c.shared tr s) :
    Run env starts c (c.set i (some (q, done ++ tr)) s) :=
  (guardedRun_replay (G := fun _ _ => True) starts hi hq hs fun _ _ _ _ _ _ _ => trivial).run

/-- A thread starts a program, and goes on the same way. -/
theorem run_start [DecidableEq E.Op] {starts : ι → Prog E α → Prop} {p q : Prog E α}
    {tr : List (Call E)} {i : ι} {s : σ} (hidle : c.threads i = none) (hp : starts i p)
    (hq : p.replay tr = some q) (hs : env.Allows c.shared tr s) :
    Run env starts c (c.set i (some (q, tr)) s) :=
  (guardedRun_start (G := fun _ _ => True) hidle hp hq hs fun _ _ _ _ _ _ _ => trivial).run

/-- A thread goes on to the end of its program. -/
theorem run_rest [DecidableEq E.Op] (starts : ι → Prog E α → Prop) {p : Prog E α} {a : α}
    {tr done : List (Call E)} {i : ι} {s : σ} (hi : c.threads i = some (p, done))
    (hq : p.replay tr = some (.ret a)) (hs : env.Allows c.shared tr s) :
    Run env starts c (c.set i none s) :=
  (guardedRun_rest (G := fun _ _ => True) starts hi hq hs fun _ _ _ _ _ _ _ => trivial).run

/-- A thread that is idle runs a program from beginning to end. -/
theorem run_whole [DecidableEq E.Op] (starts : ι → Prog E α → Prop) {p : Prog E α} {a : α}
    {tr : List (Call E)} {i : ι} {s : σ} (hidle : c.threads i = none) (hp : starts i p)
    (hq : p.replay tr = some (.ret a)) (hs : env.Allows c.shared tr s) :
    Run env starts c ⟨c.threads, s⟩ :=
  (guardedRun_whole (G := fun _ _ => True) hidle hp hq hs fun _ _ _ _ _ _ _ => trivial).run

/-- The threads after a schedule of calls and responses written down beforehand. -/
def perform [DecidableEq E.Op] (threads : ι → Option (Prog E α × List (Call E))) :
    List (ι × Call E) → Option (ι → Option (Prog E α × List (Call E)))
  | [] => some threads
  | (i, x) :: sched =>
    match threads i with
    | none => none
    | some (p, tr) => (p.replay [x]).bind fun q =>
        perform (Function.update threads i (some (q, tr ++ [x]))) sched

/-- A schedule that the threads can follow, and the surroundings allow, is a run. -/
theorem run_perform [DecidableEq E.Op] (starts : ι → Prog E α → Prop) {sched : List (ι × Call E)}
    {threads : ι → Option (Prog E α × List (Call E))} {s : σ}
    (h : perform c.threads sched = some threads)
    (hs : env.Allows c.shared (sched.map Prod.snd) s) : Run env starts c ⟨threads, s⟩ := by
  induction sched generalizing c with
  | nil =>
      obtain rfl : c.threads = threads := Option.some.inj h
      obtain rfl : c.shared = s := hs
      exact .refl
  | cons step sched ih =>
      obtain ⟨i, o, r⟩ := step
      obtain ⟨t, hm, hrest⟩ := hs
      rw [perform] at h
      split at h
      · cases h
      rename_i p tr hi
      obtain ⟨q, hq, hsched⟩ := Option.bind_eq_some_iff.mp h
      have hallows : env.Allows c.shared [⟨o, r⟩] t := ⟨t, hm, rfl⟩
      have hfollow : perform (c.set i (some (q, tr ++ [⟨o, r⟩])) t).threads sched = some threads :=
        hsched
      exact (run_replay starts hi hq hallows).trans (ih hfollow hrest)

end Rules

end Pool

end Process
