import UpdateFramework.Process.Pool

/-!
# Process — what the threads of a pool have called

A `Chronicle` is a run of a pool with the calls of all its threads, in the order they were made.
Every run has one (`Pool.GuardedRun.chronicle`), and what each call keeps holds along it
(`Pool.Chronicle.invariant`).
-/

namespace Process.Pool

variable {ι : Type} {E : Interface} {α σ : Type} [DecidableEq ι]

/-- A run from `c` in which thread `i` calls only where `G` allows it, and what was called. -/
inductive Chronicle (env : Env E σ) (starts : ι → Prog E α → Prop) (G : Pool ι E α σ → ι → Prop)
    (c : Pool ι E α σ) : List (ι × Call E) → Pool ι E α σ → Prop where
  | begin : Chronicle env starts G c [] c
  | act {log : List (ι × Call E)} {d : Pool ι E α σ} {i : ι} {o : E.Op} {k : E.Res o → Prog E α}
      {tr : List (Call E)} {r : E.Res o} {s : σ} (h : Chronicle env starts G c log d)
      (hi : d.threads i = some (.call o k, tr)) (hm : env.may d.shared o r s) (hG : G d i) :
      Chronicle env starts G c (log ++ [(i, ⟨o, r⟩)]) (d.set i (some (k r, tr ++ [⟨o, r⟩])) s)
  | start {log : List (ι × Call E)} {d : Pool ι E α σ} {i : ι} {p : Prog E α}
      (h : Chronicle env starts G c log d) (hp : starts i p) (hidle : d.threads i = none) :
      Chronicle env starts G c log (d.set i (some (p, [])) d.shared)
  | finish {log : List (ι × Call E)} {d : Pool ι E α σ} {i : ι} {a : α} {tr : List (Call E)}
      (h : Chronicle env starts G c log d) (hi : d.threads i = some (.ret a, tr)) :
      Chronicle env starts G c log (d.set i none d.shared)
  | drift {log : List (ι × Call E)} {d : Pool ι E α σ} {s : σ}
      (h : Chronicle env starts G c log d) (hd : env.drift d.shared s) :
      Chronicle env starts G c log ⟨d.threads, s⟩

variable {env : Env E σ} {starts : ι → Prog E α → Prop} {G : Pool ι E α σ → ι → Prop}
  {c d : Pool ι E α σ} {log : List (ι × Call E)}

/-- What holds of a pool and what was called, and is kept by every step where the threads follow
their programs and their calls were answered as the surroundings allow. -/
theorem Chronicle.invariant {I : List (ι × Call E) → Pool ι E α σ → Prop}
    (h : Chronicle env starts G c log d) (hf : Follows starts c) (ha : Answered env c)
    (h₀ : I [] c)
    (hact : ∀ {log d i o k tr r s}, Follows starts d → Answered env d → I log d →
      d.threads i = some (.call o k, tr) → env.may d.shared o r s → G d i →
      I (log ++ [(i, ⟨o, r⟩)]) (d.set i (some (k r, tr ++ [⟨o, r⟩])) s))
    (hstart : ∀ {log d i p}, I log d → starts i p → d.threads i = none →
      I log (d.set i (some (p, [])) d.shared))
    (hfinish : ∀ {log d i a tr}, Follows starts d → I log d →
      d.threads i = some (.ret a, tr) → I log (d.set i none d.shared))
    (hdrift : ∀ {log d s}, I log d → env.drift d.shared s → I log ⟨d.threads, s⟩) :
    Follows starts d ∧ Answered env d ∧ I log d := by
  induction h with
  | begin => exact ⟨hf, ha, h₀⟩
  | act _ hi hm hG ih =>
      obtain ⟨hf, ha, hI⟩ := ih
      have hs : Step env starts _ _ := .act ⟨_, _, _, _, _, hi, hm, rfl⟩
      exact ⟨hf.step hs, ha.step hs, hact hf ha hI hi hm hG⟩
  | start _ hp hidle ih =>
      obtain ⟨hf, ha, hI⟩ := ih
      have hs : Step env starts _ _ := .start hp hidle
      exact ⟨hf.step hs, ha.step hs, hstart hI hp hidle⟩
  | finish _ hi ih =>
      obtain ⟨hf, ha, hI⟩ := ih
      have hs : Step env starts _ _ := .finish hi
      exact ⟨hf.step hs, ha.step hs, hfinish hf hI hi⟩
  | drift _ hd ih =>
      obtain ⟨hf, ha, hI⟩ := ih
      have hs : Step env starts _ _ := .drift hd
      exact ⟨hf.step hs, ha.step hs, hdrift hI hd⟩

end Process.Pool
