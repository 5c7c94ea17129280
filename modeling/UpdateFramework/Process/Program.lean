import Mathlib.Logic.Relation
import Mathlib.Data.Nat.Notation

/-!
# Process — programs over an interface

A program is a tree of calls: it asks its surroundings to perform an operation, and goes on with
whatever response it is given.  The surroundings (`Env`) say, in each state, which responses an
operation may have and what the state is after it, and what may happen to the state while the
program is between two calls (`drift`).

`Safe env G Q p s` is the weakest precondition of `p` at `s`: every call a run of `p` from `s`
reaches satisfies the guard `G` in the state it is made in, and every result satisfies `Q`.  It
is defined by recursion on the tree, so it is proved by following the program text; what it says
about runs is `Safe.run`.

Loops are `iterate`, with a bound on the number of rounds.  A run that uses the bound up ends in
`spin`, still inside the loop: a statement about every bound is a statement about every finite
run of the unbounded loop.  Surroundings that do not let `spins` pass ask for a proof that the
bound is never used up.

`Env.any` gives every operation every response and remembers them: what is `Safe` there is true
of the program text alone, and of its runs anywhere (`Run.history`).  `Env.anyOf` limits the
responses.
-/

namespace Process

/-- The operations a program may call, and the type of each one's responses. -/
structure Interface where
  Op : Type
  Res : Op → Type

/-- A program over `E` with results in `α`. -/
inductive Prog (E : Interface) (α : Type) : Type where
  | ret (a : α)
  | call (o : E.Op) (k : E.Res o → Prog E α)
  /-- A loop whose bound is used up. -/
  | spin

variable {E F : Interface} {α β γ σ τ : Type}

namespace Prog

/-- Run `p`, then `f` at its result. -/
def bind : Prog E α → (α → Prog E β) → Prog E β
  | .ret a, f => f a
  | .call o k, f => .call o fun r => bind (k r) f
  | .spin, _ => .spin

instance : Monad (Prog E) where
  pure := .ret
  bind := bind

@[simp] theorem pure_eq (a : α) : (pure a : Prog E α) = .ret a := rfl

@[simp] theorem ret_bind (a : α) (f : α → Prog E β) : (Prog.ret a >>= f) = f a := rfl

@[simp] theorem call_bind (o : E.Op) (k : E.Res o → Prog E α) (f : α → Prog E β) :
    (Prog.call o k >>= f) = .call o fun r => k r >>= f := rfl

@[simp] theorem spin_bind (f : α → Prog E β) : ((.spin : Prog E α) >>= f) = .spin := rfl

theorem bind_ret (p : Prog E α) : (p >>= .ret) = p := by
  induction p with
  | ret a => rfl
  | call o k ih => exact congrArg (Prog.call o) (funext ih)
  | spin => rfl

@[simp] theorem bind_bind (p : Prog E α) (f : α → Prog E β) (g : β → Prog E γ) :
    (p >>= f >>= g) = p >>= fun a => f a >>= g := by
  induction p with
  | ret a => rfl
  | call o k ih => exact congrArg (Prog.call o) (funext ih)
  | spin => rfl

instance : LawfulMonad (Prog E) :=
  LawfulMonad.mk' (Prog E) bind_ret ret_bind bind_bind

/-- Perform one operation and return its response. -/
def perform (o : E.Op) : Prog E (E.Res o) := .call o .ret

@[simp] theorem perform_bind (o : E.Op) (f : E.Res o → Prog E β) :
    (perform o >>= f) = .call o f := rfl

/-- At most `n` rounds of a loop: `body` goes on with `.inl` and leaves with `.inr`. -/
def iterate : ℕ → (γ → Prog E (γ ⊕ α)) → γ → Prog E α
  | 0, _, _ => .spin
  | n + 1, body, x => body x >>= fun
    | .inl y => iterate n body y
    | .inr a => .ret a

/-- `p` with each operation carried out by a program over another interface. -/
def interp (h : (o : E.Op) → Prog F (E.Res o)) : Prog E α → Prog F α
  | .ret a => .ret a
  | .call o k => h o >>= fun r => interp h (k r)
  | .spin => .spin

@[simp] theorem interp_bind (h : (o : E.Op) → Prog F (E.Res o)) (p : Prog E α)
    (f : α → Prog E β) : interp h (p >>= f) = interp h p >>= fun a => interp h (f a) := by
  induction p with
  | ret a => rfl
  | call o k ih => simp [interp, ih]
  | spin => rfl

theorem interp_iterate (h : (o : E.Op) → Prog F (E.Res o)) (body : γ → Prog E (γ ⊕ α)) (n : ℕ)
    (x : γ) :
    interp h (iterate n body x) = iterate n (fun y => interp h (body y)) x := by
  induction n generalizing x with
  | zero => rfl
  | succ n ih =>
      rw [iterate, interp_bind, iterate]
      congr 1
      funext r
      cases r with
      | inl y => exact ih y
      | inr a => rfl

/-- The result of `p` when every operation has the one outcome `ok` gives it, if it has one and
no loop bound is used up. -/
def eval (ok : σ → (o : E.Op) → Option (E.Res o × σ)) : Prog E α → σ → Option (α × σ)
  | .ret a, s => some (a, s)
  | .call o k, s => match ok s o with
    | some (r, s') => eval ok (k r) s'
    | none => none
  | .spin, _ => none

theorem eval_bind (ok : σ → (o : E.Op) → Option (E.Res o × σ)) (p : Prog E α)
    (f : α → Prog E β) (s : σ) :
    eval ok (p >>= f) s = (eval ok p s).bind fun x => eval ok (f x.1) x.2 := by
  induction p generalizing s with
  | ret a => rfl
  | call o k ih =>
      simp only [call_bind, eval]
      cases ok s o with
      | none => rfl
      | some x => exact ih _ _
  | spin => rfl

end Prog

/-- What may happen around a program: the outcomes of each operation, and the changes others may
make between two operations. -/
structure Env (E : Interface) (σ : Type) where
  may : σ → (o : E.Op) → E.Res o → σ → Prop
  drift : σ → σ → Prop := Eq
  /-- Whether a loop may use up its bound. -/
  spins : Prop := True
  drift_refl : ∀ s, drift s s := by intro _; rfl
  drift_trans : ∀ {a b c}, drift a b → drift b c → drift a c := by
    intro _ _ _ h k; exact h.trans k

/-- Every call `p` makes satisfies `G`, and every result satisfies `Q`. -/
def Safe (env : Env E σ) (G : σ → E.Op → Prop) (Q : α → σ → Prop) : Prog E α → σ → Prop
  | .ret a, s => ∀ s', env.drift s s' → Q a s'
  | .call o k, s => ∀ s', env.drift s s' →
      G s' o ∧ ∀ r s'', env.may s' o r s'' → Safe env G Q (k r) s''
  | .spin, _ => env.spins

section Rules

variable {env : Env E σ} {G G' : σ → E.Op → Prop} {Q Q' : α → σ → Prop}

theorem Safe.drift {p : Prog E α} {s s' : σ} (h : Safe env G Q p s) (hd : env.drift s s') :
    Safe env G Q p s' := by
  cases p with
  | ret a => exact fun t ht => h t (env.drift_trans hd ht)
  | call o k => exact fun t ht => h t (env.drift_trans hd ht)
  | spin => exact h

theorem Safe.mono {p : Prog E α} {s : σ} (h : Safe env G Q p s)
    (hG : ∀ s o, G s o → G' s o) (hQ : ∀ a s, Q a s → Q' a s) : Safe env G' Q' p s := by
  induction p generalizing s with
  | ret a => exact fun t ht => hQ a t (h t ht)
  | call o k ih =>
      exact fun t ht => ⟨hG t o (h t ht).1, fun r u hu => ih r ((h t ht).2 r u hu)⟩
  | spin => exact h

theorem Safe.post {p : Prog E α} {s : σ} (h : Safe env G Q p s)
    (hQ : ∀ a s, Q a s → Q' a s) : Safe env G Q' p s :=
  h.mono (fun _ _ h => h) hQ

theorem Safe.and {p : Prog E α} {s : σ} (h : Safe env G Q p s) (h' : Safe env G' Q' p s) :
    Safe env (fun s o => G s o ∧ G' s o) (fun a s => Q a s ∧ Q' a s) p s := by
  induction p generalizing s with
  | ret a => exact fun t ht => ⟨h t ht, h' t ht⟩
  | call o k ih =>
      exact fun t ht => ⟨⟨(h t ht).1, (h' t ht).1⟩,
        fun r u hu => ih r ((h t ht).2 r u hu) ((h' t ht).2 r u hu)⟩
  | spin => exact h

/-- Sequencing: the rest of the program is the postcondition of its beginning. -/
theorem safe_bind {p : Prog E α} {f : α → Prog E β} {Q : β → σ → Prop} {s : σ} :
    Safe env G Q (p >>= f) s ↔ Safe env G (fun a => Safe env G Q (f a)) p s := by
  induction p generalizing s with
  | ret a =>
      exact ⟨fun h t ht => h.drift ht, fun h => h s (env.drift_refl s)⟩
  | call o k ih =>
      exact ⟨fun h t ht => ⟨(h t ht).1, fun r u hu => (ih r).mp ((h t ht).2 r u hu)⟩,
        fun h t ht => ⟨(h t ht).1, fun r u hu => (ih r).mpr ((h t ht).2 r u hu)⟩⟩
  | spin => exact Iff.rfl

/-- The loop rule: an invariant with the number of rounds left, which the body keeps, and from
which each way out gives `Q`. -/
theorem safe_iterate (body : γ → Prog E (γ ⊕ α)) (J : ℕ → γ → σ → Prop)
    (hzero : ∀ x s, J 0 x s → env.spins)
    (hbody : ∀ n x s, J (n + 1) x s →
      Safe env G (fun r s => r.elim (fun y => J n y s) (fun a => Safe env G Q (.ret a) s)) (body x) s)
    (n : ℕ) {x : γ} {s : σ} (h : J n x s) : Safe env G Q (Prog.iterate n body x) s := by
  induction n generalizing x s with
  | zero => exact hzero x s h
  | succ n ih =>
      refine safe_bind.mpr ((hbody n x s h).post fun r t ht => ?_)
      cases r with
      | inl y => exact ih ht
      | inr a => exact ht

/-- The loop rule where a bound may be used up: the invariant need not count. -/
theorem safe_loop (body : γ → Prog E (γ ⊕ α)) (hspins : env.spins) (J : γ → σ → Prop)
    (hbody : ∀ x s, J x s →
      Safe env G (fun r s => r.elim (fun y => J y s) (fun a => Safe env G Q (.ret a) s)) (body x) s)
    (n : ℕ) {x : γ} {s : σ} (h : J x s) : Safe env G Q (Prog.iterate n body x) s :=
  safe_iterate body (fun _ => J) (fun _ _ _ => hspins) (fun _ => hbody) n h

/-- `o` is answered by `r` in `env`, with what may happen before and after. -/
def Env.Answers (env : Env E σ) (s : σ) (o : E.Op) (r : E.Res o) (s' : σ) : Prop :=
  ∃ t t', env.drift s t ∧ env.may t o r t' ∧ env.drift t' s'

/-- A program over `E` carried out over `F`: if each operation, carried out in a state, has only
outcomes `E` allows in the image of that state, what is safe over `E` is safe over `F`.  `Inv` is
what the carrying out keeps. -/
theorem safe_interp {envF : Env F τ} {GF : τ → F.Op → Prop} (view : τ → σ) (Inv : τ → Prop)
    (hspins : env.spins → envF.spins)
    (hdrift : ∀ {a b}, Inv a → envF.drift a b → env.drift (view a) (view b) ∧ Inv b)
    {h : (o : E.Op) → Prog F (E.Res o)}
    (hop : ∀ t o, Inv t → (∀ s, env.drift (view t) s → G s o) →
      Safe envF GF (fun r u => env.Answers (view t) o r (view u) ∧ Inv u) (h o) t)
    {p : Prog E α} {t : τ} (ht : Inv t) (hp : Safe env G Q p (view t)) :
    Safe envF GF (fun a u => Q a (view u) ∧ Inv u) (Prog.interp h p) t := by
  induction p generalizing t with
  | ret a =>
      intro u hu
      obtain ⟨hd, hi⟩ := hdrift ht hu
      exact ⟨hp _ hd, hi⟩
  | call o k ih =>
      refine safe_bind.mpr ((hop t o ht fun s hs => (hp s hs).1).post ?_)
      rintro r u ⟨⟨s, s', hs, hm, hs'⟩, hu⟩
      exact ih r hu (((hp s hs).2 r s' hm).drift hs')
  | spin => exact hspins hp

/-- What the carrying out of every operation keeps, a program keeps. -/
theorem safe_interp_keeps {envF : Env F τ} {GF : τ → F.Op → Prop} (J : τ → Prop)
    (hspins : envF.spins) (hdrift : ∀ {a b}, J a → envF.drift a b → J b)
    {h : (o : E.Op) → Prog F (E.Res o)} (hop : ∀ t o, J t → Safe envF GF (fun _ => J) (h o) t)
    (p : Prog E α) {t : τ} (ht : J t) : Safe envF GF (fun _ => J) (Prog.interp h p) t := by
  induction p generalizing t with
  | ret a => exact fun u hu => hdrift ht hu
  | call o k ih => exact safe_bind.mpr ((hop t o ht).post fun r u hu => ih r hu)
  | spin => exact hspins

end Rules

/-- One step of a running program: an operation is performed, or the state drifts. -/
inductive Step (env : Env E σ) : Prog E α × σ → Prog E α × σ → Prop where
  | op {o : E.Op} {k : E.Res o → Prog E α} {r : E.Res o} {s s' : σ} (h : env.may s o r s') :
      Step env (.call o k, s) (k r, s')
  | drift {p : Prog E α} {s s' : σ} (h : env.drift s s') : Step env (p, s) (p, s')

/-- What one step can be. -/
theorem Step.inv {env : Env E σ} {p q : Prog E α} {s t : σ} (h : Step env (p, s) (q, t)) :
    (q = p ∧ env.drift s t) ∨
      ∃ (o : E.Op) (k : E.Res o → Prog E α) (r : E.Res o), p = .call o k ∧ q = k r ∧
        env.may s o r t := by
  obtain ⟨c, hc⟩ : ∃ c, c = (p, s) := ⟨_, rfl⟩
  obtain ⟨d, hd⟩ : ∃ d, d = (q, t) := ⟨_, rfl⟩
  rw [← hc, ← hd] at h
  cases h with
  | op hm =>
      cases hc
      cases hd
      exact .inr ⟨_, _, _, rfl, rfl, hm⟩
  | drift hdr =>
      cases hc
      cases hd
      exact .inl ⟨rfl, hdr⟩

/-- A run of any length. -/
abbrev Run (env : Env E σ) : Prog E α × σ → Prog E α × σ → Prop :=
  Relation.ReflTransGen (Step env)

section Runs

variable {env : Env E σ} {G : σ → E.Op → Prop} {Q : α → σ → Prop}

theorem Safe.step {c d : Prog E α × σ} (h : Safe env G Q c.1 c.2) (hs : Step env c d) :
    Safe env G Q d.1 d.2 := by
  cases hs with
  | op hm => exact (h _ (env.drift_refl _)).2 _ _ hm
  | drift hd => exact h.drift hd

/-- What is safe stays safe along every run. -/
theorem Safe.run {c d : Prog E α × σ} (h : Safe env G Q c.1 c.2) (hr : Run env c d) :
    Safe env G Q d.1 d.2 := by
  induction hr with
  | refl => exact h
  | tail _ hs ih => exact ih.step hs

theorem Safe.guard {o : E.Op} {k : E.Res o → Prog E α} {s : σ}
    (h : Safe env G Q (.call o k) s) : G s o :=
  (h s (env.drift_refl s)).1

theorem Safe.result {a : α} {s : σ} (h : Safe env G Q (.ret a) s) : Q a s :=
  h s (env.drift_refl s)

end Runs

/-- A run is a run in every surroundings that allow as much. -/
theorem Run.mono {env env' : Env E σ} (hmay : ∀ {s o r s'}, env.may s o r s' → env'.may s o r s')
    (hdrift : ∀ {s s'}, env.drift s s' → env'.drift s s') {c d : Prog E α × σ}
    (h : Run env c d) : Run env' c d := by
  induction h with
  | refl => exact .refl
  | tail _ hs ih =>
      cases hs with
      | op hm => exact ih.tail (.op (hmay hm))
      | drift hd => exact ih.tail (.drift (hdrift hd))

/-- A call and its response. -/
abbrev Call (E : Interface) := Σ o : E.Op, E.Res o

/-- `env`, remembering the operations performed and their responses. -/
def Env.traced (env : Env E σ) : Env E (σ × List (Call E)) where
  may x o r y := env.may x.1 o r y.1 ∧ y.2 = x.2 ++ [⟨o, r⟩]
  drift x y := env.drift x.1 y.1 ∧ y.2 = x.2
  spins := env.spins
  drift_refl x := ⟨env.drift_refl x.1, rfl⟩
  drift_trans h k := ⟨env.drift_trans h.1 k.1, k.2.trans h.2⟩

/-- `env`, limited to the states of `A`. -/
def Env.within (env : Env E σ) (A : σ → Prop) : Env E σ where
  may s o r s' := env.may s o r s' ∧ A s'
  drift s s' := env.drift s s' ∧ (A s → A s')
  spins := env.spins
  drift_refl s := ⟨env.drift_refl s, id⟩
  drift_trans h k := ⟨env.drift_trans h.1 k.1, k.2 ∘ h.2⟩

/-- Every response to every operation; the state is what was called and answered. -/
def Env.any (E : Interface) : Env E (List (Call E)) where
  may tr o r tr' := tr' = tr ++ [⟨o, r⟩]

theorem safe_any_call {G : List (Call E) → E.Op → Prop} {Q : α → List (Call E) → Prop} {o : E.Op}
    {k : E.Res o → Prog E α} {tr : List (Call E)} :
    Safe (Env.any E) G Q (.call o k) tr ↔
      G tr o ∧ ∀ r, Safe (Env.any E) G Q (k r) (tr ++ [⟨o, r⟩]) := by
  constructor
  · intro h
    exact ⟨(h tr rfl).1, fun r => (h tr rfl).2 r _ rfl⟩
  · rintro ⟨hG, hk⟩ _ rfl
    exact ⟨hG, fun r _ hr => hr ▸ hk r⟩

theorem safe_any_ret {G : List (Call E) → E.Op → Prop} {Q : α → List (Call E) → Prop} {a : α}
    {tr : List (Call E)} : Safe (Env.any E) G Q (.ret a) tr ↔ Q a tr :=
  ⟨fun h => h tr rfl, fun h _ ht => ht ▸ h⟩

/-- `c` is a point of a run of `p`, after the calls `tr`. -/
abbrev History (p : Prog E α) (c : Prog E α) (tr : List (Call E)) : Prop :=
  Run (Env.any E) (p, []) (c, tr)

/-- What is read off the calls and their responses, one after another. -/
def Env.folding (step : σ → Call E → σ) : Env E σ where
  may s o r s' := s' = step s ⟨o, r⟩

theorem safe_folding_call {step : σ → Call E → σ} {G : σ → E.Op → Prop} {Q : α → σ → Prop}
    {o : E.Op} {k : E.Res o → Prog E α} {s : σ} :
    Safe (Env.folding step) G Q (.call o k) s ↔
      G s o ∧ ∀ r, Safe (Env.folding step) G Q (k r) (step s ⟨o, r⟩) := by
  constructor
  · intro h
    exact ⟨(h s rfl).1, fun r => (h s rfl).2 r _ rfl⟩
  · rintro ⟨hG, hk⟩ _ rfl
    exact ⟨hG, fun r _ hr => hr ▸ hk r⟩

theorem safe_folding_ret {step : σ → Call E → σ} {G : σ → E.Op → Prop} {Q : α → σ → Prop} {a : α}
    {s : σ} : Safe (Env.folding step) G Q (.ret a) s ↔ Q a s :=
  ⟨fun h => h s rfl, fun h _ hs => hs ▸ h⟩

/-- What is safe where the calls are read off holds of every history. -/
theorem Safe.folded {step : σ → Call E → σ} {G : σ → E.Op → Prop} {Q : α → σ → Prop}
    {p c : Prog E α} {s : σ} {tr : List (Call E)} (h : Safe (Env.folding step) G Q p s)
    (hr : History p c tr) : Safe (Env.folding step) G Q c (tr.foldl step s) := by
  suffices hrun : ∀ d, Run (Env.any E) (p, []) d →
      Run (Env.folding step) (p, s) (d.1, d.2.foldl step s) from h.run (hrun _ hr)
  intro d hd
  induction hd with
  | refl => exact .refl
  | tail _ hs ih =>
      cases hs with
      | drift hd => exact hd ▸ ih
      | op hm =>
          refine ih.tail (.op ?_)
          rw [hm, List.foldl_append]
          rfl

/-- The responses `A` allows; the state is what was called and answered. -/
def Env.anyOf (A : Call E → Prop) : Env E (List (Call E)) where
  may tr o r tr' := A ⟨o, r⟩ ∧ tr' = tr ++ [⟨o, r⟩]

theorem Env.any_eq : Env.any E = Env.anyOf fun _ => True := by
  rw [Env.any, Env.anyOf]
  simp only [true_and]

section AnyOf

variable {A : Call E → Prop} {G : List (Call E) → E.Op → Prop} {Q : α → List (Call E) → Prop}

theorem safe_anyOf_call {o : E.Op} {k : E.Res o → Prog E α} {tr : List (Call E)} :
    Safe (Env.anyOf A) G Q (.call o k) tr ↔
      G tr o ∧ ∀ r, A ⟨o, r⟩ → Safe (Env.anyOf A) G Q (k r) (tr ++ [⟨o, r⟩]) := by
  constructor
  · intro h
    exact ⟨(h tr rfl).1, fun r hr => (h tr rfl).2 r _ ⟨hr, rfl⟩⟩
  · rintro ⟨hG, hk⟩ _ rfl
    refine ⟨hG, fun r _ hr => ?_⟩
    obtain ⟨hA, rfl⟩ := hr
    exact hk r hA

theorem safe_anyOf_ret {a : α} {tr : List (Call E)} :
    Safe (Env.anyOf A) G Q (.ret a) tr ↔ Q a tr :=
  ⟨fun h => h tr rfl, fun h _ ht => ht ▸ h⟩

/-- A history with only responses `A` allows. -/
theorem run_anyOf {p c : Prog E α} {tr : List (Call E)} (h : History p c tr)
    (hA : ∀ x ∈ tr, A x) : Run (Env.anyOf A) (p, []) (c, tr) := by
  suffices hrun : ∀ d, Run (Env.any E) (p, []) d → (∀ x ∈ d.2, A x) →
      Run (Env.anyOf A) (p, []) d from hrun _ h hA
  intro d hd
  induction hd with
  | refl => exact fun _ => .refl
  | tail _ hs ih =>
      intro hall
      cases hs with
      | drift hd => exact hd ▸ ih (hd ▸ hall)
      | op hm =>
          rw [hm] at hall
          refine (ih fun x hx => hall x (List.mem_append_left _ hx)).tail (.op ⟨?_, hm⟩)
          exact hall _ (List.mem_append_right _ (List.mem_singleton_self _))

/-- Whatever was called was guarded. -/
theorem Safe.anyOf_calls {p c : Prog E α} {tr : List (Call E)} (h : Safe (Env.anyOf A) G Q p [])
    (hr : Run (Env.anyOf A) (p, []) (c, tr)) {before : List (Call E)} {x : Call E}
    {after : List (Call E)} (ht : tr = before ++ x :: after) : G before x.1 := by
  obtain ⟨d, hd⟩ : ∃ d, d = (c, tr) := ⟨_, rfl⟩
  rw [← hd] at hr
  replace ht : d.2 = before ++ x :: after := hd ▸ ht
  clear hd
  induction hr generalizing after with
  | refl => simp at ht
  | tail hrun hs ih =>
      cases hs with
      | drift hd => exact ih (hd ▸ ht)
      | op hm =>
          -- the call made last, or one made before it
          rw [hm.2] at ht
          rcases List.eq_nil_or_concat after with rfl | ⟨after, y, rfl⟩
          · obtain ⟨hb, hx⟩ := List.append_inj' ht rfl
            obtain ⟨rfl, -⟩ := List.cons.inj hx
            exact hb ▸ (h.run hrun).guard
          · rw [List.concat_eq_append, ← List.cons_append, ← List.append_assoc] at ht
            exact ih (List.append_inj' ht rfl).1

end AnyOf

theorem Safe.any_calls {G : List (Call E) → E.Op → Prop} {Q : α → List (Call E) → Prop}
    {p c : Prog E α} {tr : List (Call E)} (h : Safe (Env.any E) G Q p []) (hr : History p c tr)
    {before : List (Call E)} {x : Call E} {after : List (Call E)} (ht : tr = before ++ x :: after) :
    G before x.1 := by
  rw [History, Env.any_eq] at hr
  rw [Env.any_eq] at h
  exact h.anyOf_calls hr ht

/-- A call answered by `r`. -/
theorem run_any_call {o : E.Op} {k : E.Res o → Prog E α} {tr : List (Call E)}
    {d : Prog E α × List (Call E)} (r : E.Res o)
    (h : Run (Env.any E) (k r, tr ++ [⟨o, r⟩]) d) : Run (Env.any E) (.call o k, tr) d :=
  .head (.op rfl) h

theorem run_any_after {c d : Prog E α × List (Call E)} (pre : List (Call E))
    (h : Run (Env.any E) c d) : Run (Env.any E) (c.1, pre ++ c.2) (d.1, pre ++ d.2) := by
  induction h with
  | refl => exact .refl
  | tail _ hs ih =>
      cases hs with
      | drift hd => exact hd ▸ ih
      | op hm => exact ih.tail (.op (by rw [hm]; exact (List.append_assoc ..).symm))

/-- Every call `p` can make satisfies `P`. -/
def Prog.Only (P : E.Op → Prop) : Prog E α → Prop
  | .ret _ => True
  | .call o k => P o ∧ ∀ r, Prog.Only P (k r)
  | .spin => True

section Only

variable {P P' : E.Op → Prop}

theorem Prog.Only.call {o : E.Op} {k : E.Res o → Prog E α} (ho : P o)
    (hk : ∀ r, (k r).Only P) : (Prog.call o k).Only P :=
  ⟨ho, hk⟩

theorem Prog.Only.mono (hP : ∀ o, P o → P' o) {p : Prog E α} (h : p.Only P) : p.Only P' := by
  induction p with
  | ret a => trivial
  | call o k ih => exact ⟨hP o h.1, fun r => ih r (h.2 r)⟩
  | spin => trivial

theorem Prog.Only.bind {p : Prog E α} {f : α → Prog E β} (hp : p.Only P)
    (hf : ∀ a, (f a).Only P) : (p >>= f).Only P := by
  induction p with
  | ret a => exact hf a
  | call o k ih => exact ⟨hp.1, fun r => ih r (hp.2 r)⟩
  | spin => trivial

theorem Prog.Only.iterate {body : γ → Prog E (γ ⊕ α)} (h : ∀ x, (body x).Only P) (n : ℕ) (x : γ) :
    (Prog.iterate n body x).Only P := by
  induction n generalizing x with
  | zero => trivial
  | succ n ih =>
      refine (h x).bind fun r => ?_
      cases r with
      | inl y => exact ih y
      | inr a => trivial

theorem Prog.Only.interp {h : (o : E.Op) → Prog F (E.Res o)} {P : F.Op → Prop}
    (hh : ∀ o, (h o).Only P) (p : Prog E α) : (Prog.interp h p).Only P := by
  induction p with
  | ret a => trivial
  | call o k ih => exact (hh o).bind ih
  | spin => trivial

/-- Whatever the responses are, the calls added to the history satisfy `P`. -/
theorem Prog.Only.safe {p : Prog E α} (h : p.Only P) (tr : List (Call E)) :
    Safe (Env.any E) (fun _ => P)
      (fun _ tr' => ∃ seg, tr' = tr ++ seg ∧ ∀ x ∈ seg, P x.1) p tr := by
  induction p generalizing tr with
  | ret a => exact safe_any_ret.mpr ⟨[], (List.append_nil tr).symm, nofun⟩
  | call o k ih =>
      refine safe_any_call.mpr ⟨h.1, fun r => (ih r (h.2 r) _).post ?_⟩
      rintro a tr' ⟨seg, rfl, hseg⟩
      refine ⟨⟨o, r⟩ :: seg, List.append_assoc .., fun x hx => ?_⟩
      rcases List.mem_cons.mp hx with rfl | hx
      · exact h.1
      · exact hseg x hx
  | spin => exact trivial

/-- Whatever is called along a history, or next, satisfies `P`. -/
theorem Prog.Only.history {p c : Prog E α} {tr : List (Call E)} (h : p.Only P)
    (hr : History p c tr) : (∀ x ∈ tr, P x.1) ∧ ∀ o k, c = .call o k → P o := by
  have hsafe := h.safe []
  refine ⟨fun x hx => ?_, ?_⟩
  · obtain ⟨before, after, ht⟩ := List.append_of_mem hx
    exact hsafe.any_calls hr ht
  · rintro o k rfl
    exact (hsafe.run hr).guard

end Only

/-- Go through `p` along calls and responses written down beforehand. -/
def Prog.replay [DecidableEq E.Op] : Prog E α → List (Call E) → Option (Prog E α)
  | p, [] => some p
  | .call o k, ⟨o', r⟩ :: tr => if h : o' = o then replay (k (h ▸ r)) tr else none
  | _, _ :: _ => none

theorem Prog.replay_append [DecidableEq E.Op] (p : Prog E α) (tr tr' : List (Call E)) :
    p.replay (tr ++ tr') = (p.replay tr).bind fun q => q.replay tr' := by
  induction tr generalizing p with
  | nil =>
      cases p with
      | _ => rfl
  | cons x tr ih =>
      cases p with
      | call o k =>
          rw [List.cons_append, Prog.replay, Prog.replay]
          split
          · exact ih _
          · rfl
      | _ => rfl

/-- What can be replayed, can be replayed up to any point. -/
theorem Prog.replay_isSome_left [DecidableEq E.Op] {p : Prog E α} {tr tr' : List (Call E)}
    (h : (p.replay (tr ++ tr')).isSome) : (p.replay tr).isSome := by
  rw [Prog.replay_append] at h
  exact Option.isSome_of_isSome_bind h

/-- What can be replayed is called. -/
theorem Prog.call_of_replay [DecidableEq E.Op] {p q : Prog E α} {o : E.Op} {r : E.Res o}
    {tr : List (Call E)} (h : p.replay (⟨o, r⟩ :: tr) = some q) : ∃ k, p = .call o k := by
  cases p with
  | call o' k =>
      by_cases ho : o = o'
      · subst ho
        exact ⟨k, rfl⟩
      · rw [Prog.replay, dif_neg ho] at h
        cases h
  | ret a => cases h
  | spin => cases h

/-- What can be replayed is a history. -/
theorem Prog.history_of_replay [DecidableEq E.Op] {p c : Prog E α} {tr : List (Call E)}
    (h : p.replay tr = some c) : History p c tr := by
  suffices hrun : ∀ done, Run (Env.any E) (p, done) (c, done ++ tr) from hrun []
  induction tr generalizing p with
  | nil =>
      intro done
      obtain rfl : p = c := by cases p <;> exact Option.some.inj h
      exact (List.append_nil done).symm ▸ .refl
  | cons x tr ih =>
      intro done
      cases p with
      | call o k =>
          obtain ⟨o', r⟩ := x
          by_cases ho : o' = o
          · subst ho
            rw [Prog.replay, dif_pos rfl] at h
            have hrest := ih h (done ++ [⟨o', r⟩])
            rw [List.append_assoc] at hrest
            exact run_any_call r hrest
          · rw [Prog.replay, dif_neg ho] at h
            cases h
      | ret a => cases h
      | spin => cases h

/-- What can be replayed comes to its last call. -/
theorem Prog.history_call_of_replay [DecidableEq E.Op] {p : Prog E α} {o : E.Op} {r : E.Res o}
    {tr : List (Call E)} (h : (p.replay (tr ++ [⟨o, r⟩])).isSome) :
    ∃ k, History p (.call o k) tr := by
  obtain ⟨q, hq⟩ := Option.isSome_iff_exists.mp h
  rw [Prog.replay_append] at hq
  obtain ⟨c, hc, hnext⟩ := Option.bind_eq_some_iff.mp hq
  obtain ⟨k, rfl⟩ := Prog.call_of_replay hnext
  exact ⟨k, Prog.history_of_replay hc⟩

/-- The calls can be made one after another, from `s` on. -/
def Env.Allows (env : Env E σ) : σ → List (Call E) → σ → Prop
  | s, [], s' => s = s'
  | s, ⟨o, r⟩ :: tr, s' => ∃ t, env.may s o r t ∧ Env.Allows env t tr s'

theorem Env.Allows.append {env : Env E σ} {s t u : σ} {tr tr' : List (Call E)}
    (h : env.Allows s tr t) (h' : env.Allows t tr' u) : env.Allows s (tr ++ tr') u := by
  induction tr generalizing s with
  | nil =>
      obtain rfl : s = t := h
      exact h'
  | cons x tr ih =>
      obtain ⟨v, hm, hrest⟩ := h
      exact ⟨v, hm, ih hrest⟩

/-- What is allowed can be remembered. -/
theorem Env.Allows.traced {env : Env E σ} {s t : σ} {tr : List (Call E)} (h : env.Allows s tr t)
    (done : List (Call E)) : env.traced.Allows (s, done) tr (t, done ++ tr) := by
  induction tr generalizing s done with
  | nil =>
      obtain rfl : s = t := h
      exact congrArg (Prod.mk s) (List.append_nil done).symm
  | cons x tr ih =>
      obtain ⟨u, hm, hrest⟩ := h
      refine ⟨(u, done ++ [x]), ⟨hm, rfl⟩, ?_⟩
      rw [List.append_cons done x tr]
      exact ih hrest (done ++ [x])

/-- What can be replayed, and is allowed, is a run. -/
theorem Env.Allows.run [DecidableEq E.Op] {env : Env E σ} {p q : Prog E α} {tr : List (Call E)}
    {s s' : σ} (h : env.Allows s tr s') (hq : p.replay tr = some q) : Run env (p, s) (q, s') := by
  induction tr generalizing p s with
  | nil =>
      obtain rfl : p = q := by cases p <;> exact Option.some.inj hq
      obtain rfl : s = s' := h
      exact .refl
  | cons x tr ih =>
      obtain ⟨o, r⟩ := x
      obtain ⟨t, hm, hrest⟩ := h
      cases p with
      | call o' k =>
          by_cases ho : o = o'
          · subst ho
            rw [Prog.replay, dif_pos rfl] at hq
            exact .head (.op hm) (ih hrest hq)
          · rw [Prog.replay, dif_neg ho] at hq
            cases hq
      | ret a => cases hq
      | spin => cases hq

/-- At most `n` calls of `p`, answered by `answer`. -/
def Prog.answered (answer : σ → (o : E.Op) → E.Res o × σ) :
    ℕ → Prog E α → σ × List (Call E) → Prog E α × σ × List (Call E)
  | n + 1, .call o k, (s, tr) =>
    answered answer n (k (answer s o).1) ((answer s o).2, tr ++ [⟨o, (answer s o).1⟩])
  | _, p, x => (p, x)

/-- Answers that are allowed make a run. -/
theorem Prog.run_answered {env : Env E σ} {answer : σ → (o : E.Op) → E.Res o × σ}
    (h : ∀ s o, env.may s o (answer s o).1 (answer s o).2) (n : ℕ) (p : Prog E α)
    (x : σ × List (Call E)) : Run env.traced (p, x) (p.answered answer n x) := by
  induction n generalizing p x with
  | zero => exact .refl
  | succ n ih =>
      obtain ⟨s, tr⟩ := x
      cases p with
      | call o k => exact .head (.op ⟨h s o, rfl⟩) (ih _ _)
      | ret a => exact .refl
      | spin => exact .refl

/-- The call a program makes next. -/
def Prog.next : Prog E α → Option E.Op
  | .call o _ => some o
  | _ => none

/-- The result of a program that has ended. -/
def Prog.returned : Prog E α → Option α
  | .ret a => some a
  | _ => none

theorem Prog.ret_of_returned {p : Prog E α} {a : α} (h : p.returned = some a) : p = .ret a := by
  cases p with
  | ret b =>
      cases h
      rfl
  | _ => cases h

theorem Prog.replay_ret [DecidableEq E.Op] {p : Prog E α} {tr : List (Call E)} {a : α}
    (h : (p.replay tr).bind returned = some a) : p.replay tr = some (.ret a) := by
  obtain ⟨q, hq, ha⟩ := Option.bind_eq_some_iff.mp h
  rw [hq, ret_of_returned ha]

/-- A result comes with the calls that led to it. -/
theorem Safe.any_history {G : List (Call E) → E.Op → Prop} {Q : α → List (Call E) → Prop}
    {p : Prog E α} {tr : List (Call E)} (h : Safe (Env.any E) G Q p tr) :
    Safe (Env.any E) G (fun a tr' => Q a tr' ∧ ∃ seg, tr' = tr ++ seg ∧ History p (.ret a) seg)
      p tr := by
  induction p generalizing tr with
  | ret a => exact safe_any_ret.mpr ⟨safe_any_ret.mp h, [], by simp, .refl⟩
  | call o k ih =>
      obtain ⟨hG, hk⟩ := safe_any_call.mp h
      refine safe_any_call.mpr ⟨hG, fun r => (ih r (hk r)).post ?_⟩
      rintro a tr' ⟨hQ, seg, rfl, hseg⟩
      refine ⟨hQ, ⟨o, r⟩ :: seg, by simp, ?_⟩
      exact (Relation.ReflTransGen.single (.op rfl)).trans (run_any_after [⟨o, r⟩] hseg)
  | spin => exact h

/-- A program each of whose operations is carried out by one operation over another interface.
`back` reads the operations carried out off a history. -/
theorem safe_interp_any {GE : List (Call E) → E.Op → Prop} {GF : List (Call F) → F.Op → Prop}
    {Q : α → List (Call E) → Prop} {h : (o : E.Op) → Prog F (E.Res o)} (f : E.Op → F.Op)
    (g : (o : E.Op) → F.Res (f o) → E.Res o) (back : Call F → Option (Call E))
    (hh : ∀ o, h o = .call (f o) fun r => .ret (g o r))
    (hback : ∀ o r, back ⟨f o, r⟩ = some ⟨o, g o r⟩) {tr : List (Call F)}
    (hG : ∀ seg o, (∀ x ∈ seg, ∃ o, x.1 = f o) → GE (seg.filterMap back) o → GF (tr ++ seg) (f o))
    {p : Prog E α} (hp : Safe (Env.any E) GE Q p []) :
    Safe (Env.any F) GF
      (fun a tr' => ∃ seg, tr' = tr ++ seg ∧ (∀ x ∈ seg, ∃ o, x.1 = f o) ∧
        Q a (seg.filterMap back)) (Prog.interp h p) tr := by
  suffices hfrom : ∀ seg : List (Call F), (∀ x ∈ seg, ∃ o, x.1 = f o) →
      Safe (Env.any E) GE Q p (seg.filterMap back) →
      Safe (Env.any F) GF
        (fun a tr' => ∃ seg, tr' = tr ++ seg ∧ (∀ x ∈ seg, ∃ o, x.1 = f o) ∧
          Q a (seg.filterMap back)) (Prog.interp h p) (tr ++ seg) by
    have hnil := hfrom [] nofun hp
    rwa [List.append_nil] at hnil
  clear hp
  induction p with
  | ret a => exact fun seg hseg hp => safe_any_ret.mpr ⟨seg, rfl, hseg, safe_any_ret.mp hp⟩
  | call o k ih =>
      intro seg hseg hp
      obtain ⟨hguard, hk⟩ := safe_any_call.mp hp
      rw [Prog.interp, hh, Prog.call_bind]
      refine safe_any_call.mpr ⟨hG seg o hseg hguard, fun r => ?_⟩
      have hnext := ih (g o r) (seg ++ [⟨f o, r⟩]) ?_ ?_
      · rwa [← List.append_assoc] at hnext
      · intro x hx
        rcases List.mem_append.mp hx with hx | hx
        · exact hseg x hx
        · exact ⟨o, List.mem_singleton.mp hx ▸ rfl⟩
      · rw [List.filterMap_append, List.filterMap_cons, hback]
        exact hk (g o r)
  | spin => exact fun _ _ _ => trivial

/-- Every run can be remembered. -/
theorem Run.exists_trace {env : Env E σ} {c d : Prog E α × σ} (h : Run env c d) :
    ∃ tr, Run env.traced (c.1, c.2, []) (d.1, d.2, tr) := by
  induction h with
  | refl => exact ⟨[], .refl⟩
  | tail _ hs ih =>
      obtain ⟨tr, htr⟩ := ih
      cases hs with
      | @op o k r s s' hm => exact ⟨tr ++ [⟨o, r⟩], htr.tail (.op ⟨hm, rfl⟩)⟩
      | drift hd => exact ⟨tr, htr.tail (.drift ⟨hd, rfl⟩)⟩

/-- What a run remembers is a history of the program text. -/
theorem Run.history {env : Env E σ} {p : Prog E α} {s : σ} {c : Prog E α × σ × List (Call E)}
    (h : Run env.traced (p, s, []) c) : Run (Env.any E) (p, []) (c.1, c.2.2) := by
  induction h with
  | refl => exact .refl
  | tail _ hs ih =>
      cases hs with
      | op hm => exact ih.tail (.op hm.2)
      | drift hd => exact hd.2 ▸ ih

/-! ### Where a history has come to -/

/-- A program that calls nothing stays where it is. -/
theorem history_stuck {p c : Prog E α} {tr : List (Call E)} (h : History p c tr)
    (hp : ∀ o k, p ≠ .call o k) : c = p ∧ tr = [] := by
  obtain ⟨d, hd⟩ : ∃ d, d = (c, tr) := ⟨_, rfl⟩
  rw [History, ← hd] at h
  suffices hstay : d.1 = p ∧ d.2 = [] by rwa [hd] at hstay
  clear hd
  induction h with
  | refl => exact ⟨rfl, rfl⟩
  | tail _ hs ih =>
      cases hs with
      | drift hd => exact hd ▸ ih
      | op hm => exact absurd ih.1.symm (hp _ _)

theorem history_ret {a : α} {c : Prog E α} {tr : List (Call E)} (h : History (.ret a) c tr) :
    c = .ret a ∧ tr = [] :=
  history_stuck h nofun

theorem history_call {o : E.Op} {k : E.Res o → Prog E α} {c : Prog E α} {tr : List (Call E)}
    (h : History (.call o k) c tr) :
    (c = .call o k ∧ tr = []) ∨ ∃ r seg, tr = ⟨o, r⟩ :: seg ∧ History (k r) c seg := by
  obtain ⟨d, hd⟩ : ∃ d, d = (c, tr) := ⟨_, rfl⟩
  rw [History, ← hd] at h
  suffices hpoint : (d.1 = .call o k ∧ d.2 = []) ∨
      ∃ r seg, d.2 = ⟨o, r⟩ :: seg ∧ History (k r) d.1 seg by rwa [hd] at hpoint
  clear hd
  induction h with
  | refl => exact .inl ⟨rfl, rfl⟩
  | tail _ hs ih =>
      cases hs with
      | drift hd => exact hd ▸ ih
      | op hm =>
          rw [hm]
          rcases ih with ⟨hp, ht⟩ | ⟨r, seg, ht, hrun⟩
          · cases hp
            obtain rfl : _ = [] := ht
            exact .inr ⟨_, [], rfl, .refl⟩
          · refine .inr ⟨r, seg ++ [_], ?_, hrun.tail (.op rfl)⟩
            exact congrArg (· ++ [_]) ht

/-- Before the first call. -/
theorem history_nil {p c : Prog E α} (h : History p c []) : c = p := by
  cases p with
  | call o k =>
      rcases history_call h with ⟨rfl, -⟩ | ⟨r, seg, ht, -⟩
      · rfl
      · cases ht
  | ret a => exact (history_stuck h nofun).1
  | spin => exact (history_stuck h nofun).1

/-- A history of `p >>= f` is one of `p`, or one of `f` after one of the whole of `p`. -/
theorem history_bind {p : Prog E α} {f : α → Prog E β} {c : Prog E β} {tr : List (Call E)}
    (h : History (p >>= f) c tr) : (∃ q, History p q tr ∧ c = q >>= f) ∨
      ∃ a tr₁ tr₂, tr = tr₁ ++ tr₂ ∧ History p (.ret a) tr₁ ∧ History (f a) c tr₂ := by
  induction p generalizing tr with
  | ret a => exact .inr ⟨a, [], tr, rfl, .refl, h⟩
  | call o k ih =>
      rcases history_call h with ⟨rfl, rfl⟩ | ⟨r, seg, rfl, hrun⟩
      · exact .inl ⟨_, .refl, rfl⟩
      · have cons : ∀ {q : Prog E α} {seg : List (Call E)}, History (k r) q seg →
            History (.call o k) q (⟨o, r⟩ :: seg) := fun hq =>
          run_any_call r (run_any_after [⟨o, r⟩] hq)
        rcases ih r hrun with ⟨q, hq, rfl⟩ | ⟨a, tr₁, tr₂, rfl, hp, hf⟩
        · exact .inl ⟨q, cons hq, rfl⟩
        · exact .inr ⟨a, ⟨o, r⟩ :: tr₁, tr₂, rfl, cons hp, hf⟩
  | spin =>
      obtain ⟨rfl, rfl⟩ := history_stuck h nofun
      exact .inl ⟨.spin, .refl, rfl⟩

end Process
