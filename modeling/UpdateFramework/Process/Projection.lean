import UpdateFramework.Process.Pool

/-!
# Process — some threads as a pool of their own

Some threads of a pool carry out, call for call, programs over another interface (`Carries`).  Seen
in this way they are a pool over that interface: whatever the one can reach, the other can
(`Pool.Run.project`).
-/

namespace Process.Pool

variable {ι κ χ : Type} {E F : Interface} {α β σ τ : Type}

/-- The threads at `place` carry out programs over `E`: `lift x p` carries out `p`, in one of several
ways, and `back` reads the calls of `p` off its own. -/
structure Carries (env : Env E σ) (starts : κ → Prog E α → Prop) (envF : Env F τ)
    (startsF : ι → Prog F β → Prop) (view : τ → σ) (place : κ → ι)
    (lift : χ → Prog E α → Prog F β) (back : Call F → Option (Call E)) : Prop where
  place_inj : Function.Injective place
  call : ∀ {x p o k}, lift x p = .call o k → ∃ o' k', p = .call o' k' ∧
    ∀ {r s s'}, envF.may s o r s' → ∃ r', back ⟨o, r⟩ = some ⟨o', r'⟩ ∧
      env.may (view s) o' r' (view s') ∧ k r = lift x (k' r')
  ret : ∀ {x p b}, lift x p = .ret b → ∃ a, p = .ret a
  start : ∀ {j q}, startsF (place j) q → ∃ x p, starts j p ∧ q = lift x p
  drift : ∀ {s s'}, envF.drift s s' → env.drift (view s) (view s')

/-- `c'` is what the threads at `place` are in `c`. -/
structure Projects (view : τ → σ) (place : κ → ι) (lift : χ → Prog E α → Prog F β)
    (back : Call F → Option (Call E)) (c : Pool ι F β τ) (c' : Pool κ E α σ) : Prop where
  shared : c'.shared = view c.shared
  threads : ∀ j, c.threads (place j) = none ∧ c'.threads j = none ∨
    ∃ x p tr, c.threads (place j) = some (lift x p, tr) ∧
      c'.threads j = some (p, tr.filterMap back)

section Steps

variable {env : Env E σ} {starts : κ → Prog E α → Prop} {envF : Env F τ}
  {startsF : ι → Prog F β → Prop} {view : τ → σ} {place : κ → ι}
  {lift : χ → Prog E α → Prog F β} {back : Call F → Option (Call E)}
  {c d : Pool ι F β τ} {c' : Pool κ E α σ}

theorem projects_idle (s : τ) :
    Projects view place lift back (idle s : Pool ι F β τ) (idle (view s) : Pool κ E α σ) :=
  ⟨rfl, fun _ => .inl ⟨rfl, rfl⟩⟩

variable [DecidableEq ι] [DecidableEq κ]

/-- A change of a thread at `place j`, on both sides. -/
theorem Projects.set (h : Projects view place lift back c c')
    (hinj : Function.Injective place) {j : κ} {t : Option (Prog F β × List (Call F))}
    {t' : Option (Prog E α × List (Call E))} {s : τ}
    (ht : t = none ∧ t' = none ∨
      ∃ x p tr, t = some (lift x p, tr) ∧ t' = some (p, tr.filterMap back)) :
    Projects view place lift back (c.set (place j) t s) (c'.set j t' (view s)) := by
  refine ⟨rfl, fun k => ?_⟩
  by_cases hkj : k = j
  · subst hkj
    rw [set_self, set_self]
    exact ht
  · rw [set_ne c (hinj.ne hkj), set_ne c' hkj]
    exact h.threads k

omit [DecidableEq κ] in
/-- A change of another thread. -/
theorem Projects.other (h : Projects view place lift back c c') {i : ι} (hi : ∀ j, place j ≠ i)
    {t : Option (Prog F β × List (Call F))} {s : τ} (hs : view s = view c.shared) :
    Projects view place lift back (c.set i t s) c' := by
  refine ⟨h.shared.trans hs.symm, fun k => ?_⟩
  rw [set_ne c (hi k)]
  exact h.threads k

/-- Each step is one of the projection, or none. -/
theorem Projects.step (hc : Carries env starts envF startsF view place lift back)
    (hother : ∀ {i d}, (∀ j, place j ≠ i) → Acts envF i c d → view d.shared = view c.shared)
    (h : Projects view place lift back c c') (hs : Step envF startsF c d) :
    ∃ d', Run env starts c' d' ∧ Projects view place lift back d d' := by
  have hwhere : ∀ i, (∃ j, i = place j) ∨ ∀ j, place j ≠ i := fun i =>
    (em (∃ j, i = place j)).imp id fun hn j hj => hn ⟨j, hj.symm⟩
  cases hs with
  | @act d i ha =>
      have hview := fun hi => hother (i := i) hi ha
      obtain ⟨o, k, tr, r, s, hi, hm, rfl⟩ := ha
      rcases hwhere i with ⟨j, rfl⟩ | hne
      · rcases h.threads j with ⟨hnone, -⟩ | ⟨x, p, tr', hj, hj'⟩
        · rw [hnone] at hi
          cases hi
        · rw [hj] at hi
          obtain ⟨hp, rfl⟩ := Prod.mk.inj (Option.some.inj hi)
          obtain ⟨o', k', rfl, hcall⟩ := hc.call hp
          obtain ⟨r', hback, hm', hk⟩ := hcall hm
          have hact : Step env starts c'
              (c'.set j (some (k' r', tr'.filterMap back ++ [⟨o', r'⟩])) (view s)) :=
            .act ⟨o', k', _, r', view s, hj', h.shared ▸ hm', rfl⟩
          refine ⟨_, .single hact, h.set hc.place_inj (.inr ⟨x, k' r', _, by rw [hk], ?_⟩)⟩
          rw [List.filterMap_append, List.filterMap_cons, hback, List.filterMap_nil]
      · exact ⟨c', .refl, h.other hne (hview hne)⟩
  | @start i q hq hidle =>
      rcases hwhere i with ⟨j, rfl⟩ | hne
      · obtain ⟨x, p, hp, rfl⟩ := hc.start hq
        rcases h.threads j with ⟨-, hnone⟩ | ⟨x, p, tr, hj, -⟩
        · have hstart : Step env starts c' (c'.set j (some (p, [])) c'.shared) := .start hp hnone
          rw [h.shared] at hstart
          exact ⟨_, .single hstart, h.set hc.place_inj (.inr ⟨x, p, [], rfl, rfl⟩)⟩
        · rw [hj] at hidle
          cases hidle
      · exact ⟨c', .refl, h.other hne rfl⟩
  | @finish i b tr hi =>
      rcases hwhere i with ⟨j, rfl⟩ | hne
      · rcases h.threads j with ⟨hnone, -⟩ | ⟨x, p, tr', hj, hj'⟩
        · rw [hnone] at hi
          cases hi
        · rw [hj] at hi
          obtain ⟨a, rfl⟩ := hc.ret (Prod.mk.inj (Option.some.inj hi)).1
          have hfinish : Step env starts c' (c'.set j none c'.shared) := .finish hj'
          rw [h.shared] at hfinish
          exact ⟨_, .single hfinish, h.set hc.place_inj (.inl ⟨rfl, rfl⟩)⟩
      · exact ⟨c', .refl, h.other hne rfl⟩
  | drift hd =>
      have hdrift : Step env starts c' ⟨c'.threads, view _⟩ := .drift (h.shared ▸ hc.drift hd)
      exact ⟨_, .single hdrift, rfl, h.threads⟩

end Steps

end Process.Pool
