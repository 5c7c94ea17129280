import UpdateFramework.Process.Exchange
import UpdateFramework.Process.Leads

/-!
# Process — a side that may interrupt, and a side that holds

One side speaks at length, and the other may ask it to pause and later to resume, again and again.
The side that speaks looks for a request only now and then, and holds until it hears the end of the
pause; one that it has not found by the time it is done meets it where it waits for a verdict.

`Interrupts` says what the left may do, and `Holds` what the right does, each on its own and by
recursion on the tree, so that they are proved by following the program text.  Stretches without
requests are followed as those of any program (`Leads.interrupts`, `Leads.holds`).
-/

namespace Process

variable {E F : Interface} {M α β γ σ τ : Type}

/-! ### Requests -/

/-- The requests the left may make, its verdict on what the right has said, and what the right says
to that. -/
structure Interruption (M : Type) where
  pause : M → Bool
  resume : M → Bool
  verdict : M
  after : List M

namespace Interruption

variable (I : Interruption M)

/-- What is left of the transcript once the right has spoken. -/
def tail : Transcript M := (.left, I.verdict) :: said .right I.after

/-- The right is speaking, and may be asked to pause. -/
def Open (T : Transcript M) : Prop := ∃ m ms, T = said .right (m :: ms) ++ I.tail

/-- A message that is no request. -/
def main (x : Side × M) : Bool := x.1 ≠ .left || !(I.pause x.2 || I.resume x.2)

/-- The requests on their way, from whether the right is held to whether the left has paused. -/
inductive Between : Bool → Bool → List M → Prop where
  | none (b : Bool) : Between b b []
  | pause {b : Bool} {m : M} {ms : List M} (hm : I.pause m = true) (h : Between true b ms) :
      Between false b (m :: ms)
  | resume {b : Bool} {m : M} {ms : List M} (hm : I.resume m = true) (h : Between false b ms) :
      Between true b (m :: ms)

variable {I} {a b : Bool} {m : M} {ms ns : List M} {T U V : Transcript M}

theorem Between.snoc_pause (h : I.Between a false ms) (hm : I.pause m = true) :
    I.Between a true (ms ++ [m]) := by
  generalize hb : false = b at h
  induction h with
  | none b =>
      subst hb
      exact .pause hm (.none true)
  | pause hm' _ ih => exact .pause hm' (ih hb)
  | resume hm' _ ih => exact .resume hm' (ih hb)

theorem Between.snoc_resume (h : I.Between a true ms) (hm : I.resume m = true) :
    I.Between a false (ms ++ [m]) := by
  generalize hb : true = b at h
  induction h with
  | none b =>
      subst hb
      exact .resume hm (.none false)
  | pause hm' _ ih => exact .pause hm' (ih hb)
  | resume hm' _ ih => exact .resume hm' (ih hb)

theorem main_right (m : M) : I.main (.right, m) = true := rfl

theorem main_pause (hm : I.pause m = true) : I.main (.left, m) = false := by simp [main, hm]

theorem main_resume (hm : I.resume m = true) : I.main (.left, m) = false := by simp [main, hm]

theorem pause_of_main (h : I.main (.left, m) = true) : I.pause m = false := by
  simpa [main] using fun hp => (main_pause hp).symm.trans h

/-! ### What the transcript says next -/

theorem said_right_ne_left (h : said .right ms ++ U = (.left, m) :: V) :
    ms = [] ∧ U = (.left, m) :: V := by
  cases ms with
  | nil => exact ⟨rfl, h⟩
  | cons n ms => cases h

theorem said_left_ne_right (h : said .left ms ++ U = (.right, m) :: V) :
    ms = [] ∧ U = (.right, m) :: V := by
  cases ms with
  | nil => exact ⟨rfl, h⟩
  | cons n ms => cases h

/-- Where the right has more to say. -/
theorem said_right_cons (h : said .right ms ++ I.tail = (.right, m) :: U) :
    ∃ ms', ms = m :: ms' ∧ U = said .right ms' ++ I.tail := by
  cases ms with
  | nil => cases h
  | cons n ms =>
      cases h
      exact ⟨ms, rfl, rfl⟩

/-- Where the right is done. -/
theorem said_right_left (h : said .right ms ++ I.tail = (.left, m) :: U) :
    ms = [] ∧ m = I.verdict ∧ U = said .right I.after := by
  obtain ⟨rfl, h⟩ := said_right_ne_left h
  cases h
  exact ⟨rfl, rfl, rfl⟩

/-- What the right has said of it, and what it has not. -/
theorem said_right_split (h : said .right ms ++ U = said .right ns ++ I.tail) :
    ∃ rest, ns = ms ++ rest ∧ U = said .right rest ++ I.tail := by
  induction ms generalizing ns with
  | nil => exact ⟨ns, rfl, h⟩
  | cons m ms ih =>
      obtain ⟨ns', rfl, h'⟩ := said_right_cons (m := m) h.symm
      obtain ⟨rest, rfl, hU⟩ := ih h'
      exact ⟨rest, rfl, hU⟩

theorem said_right_inj (h : said .right ms ++ I.tail = said .right ns ++ I.tail) : ms = ns :=
  (List.map_inj_right fun _ _ h => (Prod.mk.inj h).2).mp (List.append_cancel_right h)

/-- The left has nothing to say in what the right says. -/
theorem not_left_mem_said : (.left, m) ∉ said .right ms := by
  intro h
  obtain ⟨n, -, hn⟩ := List.mem_map.mp h
  cases hn

theorem said_ne_tail (h : said .right ms = said .right ns ++ I.tail) : False := by
  have hm : ((.left : Side), I.verdict) ∈ said .right ms := by
    rw [h]
    exact List.mem_append_right _ List.mem_cons_self
  exact not_left_mem_said hm

end Interruption

/-! ### Each side on its own -/

/-- The left keeps to the transcript `T`, but for its requests: it may ask for a pause where the right
is speaking, and then does not listen until it has asked it to resume. -/
def Interrupts (A : Actor E M σ) (I : Interruption M) (R : α → σ → Transcript M → Bool → Prop) :
    Prog E α → σ → Transcript M → Bool → Prop
  | .ret a, s, T, paused => R a s T paused
  | .call o k, s, T, paused => match A s o with
    | .does r s' => Interrupts A I R (k r) s' T paused
    | .sends m r s' _ =>
      if paused then I.resume m = true ∧ Interrupts A I R (k r) s' T false
      else (∃ T', T = (.left, m) :: T' ∧ Interrupts A I R (k r) s' T' false) ∨
        (I.pause m = true ∧ I.Open T ∧ Interrupts A I R (k r) s' T true)
    | .takes f _ => paused = false ∧
      ∃ m T', T = (.right, m) :: T' ∧ Interrupts A I R (k (f m).1) (f m).2 T' false
    | .asks _ => False
    | .awaits _ _ => False
  | .spin, _, _, _ => False

/-- The left has heard everything, and has a result. -/
def Settled (Q : α → σ → Prop) (a : α) (s : σ) (T : Transcript M) (paused : Bool) : Prop :=
  paused = false ∧ T = [] ∧ Q a s

/-- How the right attends to requests: to none, to one it has seen, to one it holds for, and to the
end of that. -/
inductive Attention where
  | free | noticed | held | released
  deriving DecidableEq

/-- The right has heard a pause, and not the end of it. -/
def Attention.isHeld (h : Attention) : Bool := h = .held || h = .released

/-- The right comes to an end, and says nothing more. -/
def Quits (B : Actor F M τ) (Late : β → τ → Prop) : Prog F β → τ → Prop
  | .ret b, t => Late b t
  | .call o k, t => match B t o with
    | .does r t' => Quits B Late (k r) t'
    | _ => False
  | .spin, _ => False

/-- The right keeps to the transcript `U`, and holds where it sees a request.  Where it waits for the
verdict, a request makes it give up. -/
def Holds (B : Actor F M τ) (I : Interruption M) (R : β → τ → Transcript M → Attention → Prop)
    (Late : β → τ → Prop) : Prog F β → τ → Transcript M → Attention → Prop
  | .ret b, t, U, h => R b t U h
  | .call o k, t, U, h => match B t o with
    | .does r t' => Holds B I R Late (k r) t' U h
    | .sends m r t' _ =>
      h = .free ∧ ∃ U', U = (.right, m) :: U' ∧ Holds B I R Late (k r) t' U' .free
    | .takes f _ => match h with
      | .free => ∃ m U', U = (.left, m) :: U' ∧ Holds B I R Late (k (f m).1) (f m).2 U' .free ∧
          (U = I.tail → ∀ m', I.pause m' = true → Quits B Late (k (f m').1) (f m').2)
      | .noticed => ∀ m, I.pause m = true → Holds B I R Late (k (f m).1) (f m).2 U .held
      | .held => False
      | .released => ∀ m, I.resume m = true → Holds B I R Late (k (f m).1) (f m).2 U .free
    | .asks f => h = .free ∧ I.Open U ∧ Holds B I R Late (k (f false).1) (f false).2 U .free ∧
        Holds B I R Late (k (f true).1) (f true).2 U .noticed
    | .awaits r t' => h = .held ∧ Holds B I R Late (k r) t' U .released
  | .spin, _, _, _ => False

/-- The right has said everything, and has a result. -/
def Finished (Q : β → τ → Prop) (b : β) (t : τ) (U : Transcript M) (h : Attention) : Prop :=
  h = .free ∧ U = [] ∧ Q b t

/-! ### Rules -/

section Left

variable {A : Actor E M σ} {I : Interruption M} {R R' : α → σ → Transcript M → Bool → Prop} {s s' : σ}
  {T : Transcript M} {paused : Bool} {o : E.Op} {k : E.Res o → Prog E α} {r : E.Res o} {m : M}

theorem interrupts_call : Interrupts A I R (.call o k) s T paused = (match A s o with
    | .does r s' => Interrupts A I R (k r) s' T paused
    | .sends m r s' _ =>
      if paused then I.resume m = true ∧ Interrupts A I R (k r) s' T false
      else (∃ T', T = (.left, m) :: T' ∧ Interrupts A I R (k r) s' T' false) ∨
        (I.pause m = true ∧ I.Open T ∧ Interrupts A I R (k r) s' T true)
    | .takes f _ => paused = false ∧
      ∃ m T', T = (.right, m) :: T' ∧ Interrupts A I R (k (f m).1) (f m).2 T' false
    | .asks _ => False
    | .awaits _ _ => False) := by
  rw [Interrupts]

theorem interrupts_does (h : A s o = .does r s') :
    Interrupts A I R (.call o k) s T paused ↔ Interrupts A I R (k r) s' T paused := by
  rw [interrupts_call, h]

theorem interrupts_says {lost : E.Res o × σ} (h : A s o = .sends m r s' lost)
    (hk : Interrupts A I R (k r) s' T false) :
    Interrupts A I R (.call o k) s ((.left, m) :: T) false := by
  rw [interrupts_call, h]
  exact .inl ⟨T, rfl, hk⟩

theorem interrupts_pauses {lost : E.Res o × σ} (h : A s o = .sends m r s' lost)
    (hm : I.pause m = true) (hT : I.Open T) (hk : Interrupts A I R (k r) s' T true) :
    Interrupts A I R (.call o k) s T false := by
  rw [interrupts_call, h]
  exact .inr ⟨hm, hT, hk⟩

theorem interrupts_resumes {lost : E.Res o × σ} (h : A s o = .sends m r s' lost)
    (hm : I.resume m = true) (hk : Interrupts A I R (k r) s' T false) :
    Interrupts A I R (.call o k) s T true := by
  rw [interrupts_call, h]
  exact ⟨hm, hk⟩

theorem interrupts_hears {f : M → E.Res o × σ} {gone : E.Res o × σ} (h : A s o = .takes f gone)
    (hk : Interrupts A I R (k (f m).1) (f m).2 T false) :
    Interrupts A I R (.call o k) s ((.right, m) :: T) false := by
  rw [interrupts_call, h]
  exact ⟨rfl, m, T, rfl, hk⟩

theorem Interrupts.post {p : Prog E α} (h : Interrupts A I R p s T paused)
    (hR : ∀ a s T paused, R a s T paused → R' a s T paused) : Interrupts A I R' p s T paused := by
  induction p generalizing s T paused with
  | ret a => exact hR a s T paused h
  | call o k ih =>
      rw [interrupts_call] at h ⊢
      cases hact : A s o with
      | does r s' =>
          rw [hact] at h
          exact ih r h
      | sends m r s' lost =>
          rw [hact] at h
          cases paused with
          | true => exact ⟨h.1, ih r h.2⟩
          | false =>
              rcases h with ⟨T', hT, h⟩ | ⟨hm, hT, h⟩
              · exact .inl ⟨T', hT, ih r h⟩
              · exact .inr ⟨hm, hT, ih r h⟩
      | takes f gone =>
          rw [hact] at h
          obtain ⟨hp, m, T', hT, h⟩ := h
          exact ⟨hp, m, T', hT, ih _ h⟩
      | asks f =>
          rw [hact] at h
          exact h.elim
      | awaits r s' =>
          rw [hact] at h
          exact h.elim
  | spin => exact h.elim

theorem interrupts_bind {p : Prog E γ} {f : γ → Prog E α}
    (h : Interrupts A I (fun c s T paused => Interrupts A I R (f c) s T paused) p s T paused) :
    Interrupts A I R (p >>= f) s T paused := by
  induction p generalizing s T paused with
  | ret c => exact h
  | call o k ih =>
      rw [Prog.call_bind, interrupts_call]
      rw [interrupts_call] at h
      cases hact : A s o with
      | does r s' =>
          rw [hact] at h
          exact ih r h
      | sends m r s' lost =>
          rw [hact] at h
          cases paused with
          | true => exact ⟨h.1, ih r h.2⟩
          | false =>
              rcases h with ⟨T', hT, h⟩ | ⟨hm, hT, h⟩
              · exact .inl ⟨T', hT, ih r h⟩
              · exact .inr ⟨hm, hT, ih r h⟩
      | takes f gone =>
          rw [hact] at h
          obtain ⟨hp, m, T', hT, h⟩ := h
          exact ⟨hp, m, T', hT, ih _ h⟩
      | asks f =>
          rw [hact] at h
          exact h.elim
      | awaits r s' =>
          rw [hact] at h
          exact h.elim
  | spin => exact h.elim

/-- The loop rule: an invariant with the number of rounds left, which the body keeps. -/
theorem interrupts_iterate (body : γ → Prog E (γ ⊕ α))
    (J : ℕ → γ → σ → Transcript M → Bool → Prop) (hzero : ∀ x s T paused, ¬ J 0 x s T paused)
    (hbody : ∀ n x s T paused, J (n + 1) x s T paused →
      Interrupts A I (fun r s T paused => r.elim (fun y => J n y s T paused) fun a => R a s T paused)
        (body x) s T paused)
    (n : ℕ) {x : γ} (h : J n x s T paused) :
    Interrupts A I R (Prog.iterate n body x) s T paused := by
  induction n generalizing x s T paused with
  | zero => exact absurd h (hzero x s T paused)
  | succ n ih =>
      refine interrupts_bind ((hbody n x s T paused h).post fun r s T paused hr => ?_)
      cases r with
      | inl y => exact ih hr
      | inr a => exact hr

end Left

section Right

variable {B : Actor F M τ} {I : Interruption M} {R R' : β → τ → Transcript M → Attention → Prop}
  {Late Late' : β → τ → Prop} {t t' : τ} {U : Transcript M} {h : Attention} {o : F.Op}
  {k : F.Res o → Prog F β} {r : F.Res o} {m : M}

theorem quits_call : Quits B Late (.call o k) t = (match B t o with
    | .does r t' => Quits B Late (k r) t'
    | _ => False) := by
  rw [Quits]

theorem Quits.post {q : Prog F β} (hq : Quits B Late q t) (hL : ∀ b t, Late b t → Late' b t) :
    Quits B Late' q t := by
  induction q generalizing t with
  | ret b => exact hL b t hq
  | call o k ih =>
      rw [quits_call] at hq ⊢
      cases hact : B t o with
      | does r t' =>
          rw [hact] at hq
          exact ih r hq
      | sends | takes | asks | awaits =>
          rw [hact] at hq
          exact hq.elim
  | spin => exact hq.elim

theorem quits_bind {q : Prog F γ} {f : γ → Prog F β}
    (hq : Quits B (fun c t => Quits B Late (f c) t) q t) : Quits B Late (q >>= f) t := by
  induction q generalizing t with
  | ret c => exact hq
  | call o k ih =>
      rw [Prog.call_bind, quits_call]
      rw [quits_call] at hq
      cases hact : B t o with
      | does r t' =>
          rw [hact] at hq
          exact ih r hq
      | sends | takes | asks | awaits =>
          rw [hact] at hq
          exact hq.elim
  | spin => exact hq.elim

theorem holds_call : Holds B I R Late (.call o k) t U h = (match B t o with
    | .does r t' => Holds B I R Late (k r) t' U h
    | .sends m r t' _ =>
      h = .free ∧ ∃ U', U = (.right, m) :: U' ∧ Holds B I R Late (k r) t' U' .free
    | .takes f _ => match h with
      | .free => ∃ m U', U = (.left, m) :: U' ∧ Holds B I R Late (k (f m).1) (f m).2 U' .free ∧
          (U = I.tail → ∀ m', I.pause m' = true → Quits B Late (k (f m').1) (f m').2)
      | .noticed => ∀ m, I.pause m = true → Holds B I R Late (k (f m).1) (f m).2 U .held
      | .held => False
      | .released => ∀ m, I.resume m = true → Holds B I R Late (k (f m).1) (f m).2 U .free
    | .asks f => h = .free ∧ I.Open U ∧ Holds B I R Late (k (f false).1) (f false).2 U .free ∧
        Holds B I R Late (k (f true).1) (f true).2 U .noticed
    | .awaits r t' => h = .held ∧ Holds B I R Late (k r) t' U .released) := by
  rw [Holds]

theorem holds_does (hact : B t o = .does r t') :
    Holds B I R Late (.call o k) t U h ↔ Holds B I R Late (k r) t' U h := by
  rw [holds_call, hact]

theorem holds_says {lost : F.Res o × τ} (hact : B t o = .sends m r t' lost)
    (hk : Holds B I R Late (k r) t' U .free) :
    Holds B I R Late (.call o k) t ((.right, m) :: U) .free := by
  rw [holds_call, hact]
  exact ⟨rfl, U, rfl, hk⟩

theorem holds_hears {f : M → F.Res o × τ} {gone : F.Res o × τ} (hact : B t o = .takes f gone)
    (hU : (.left, m) :: U ≠ I.tail) (hk : Holds B I R Late (k (f m).1) (f m).2 U .free) :
    Holds B I R Late (.call o k) t ((.left, m) :: U) .free := by
  rw [holds_call, hact]
  exact ⟨m, U, rfl, hk, fun htail => absurd htail hU⟩

/-- The verdict, or a request that comes too late. -/
theorem holds_judged {f : M → F.Res o × τ} {gone : F.Res o × τ} (hact : B t o = .takes f gone)
    (hk : Holds B I R Late (k (f I.verdict).1) (f I.verdict).2 (said .right I.after) .free)
    (hlate : ∀ m, I.pause m = true → Quits B Late (k (f m).1) (f m).2) :
    Holds B I R Late (.call o k) t I.tail .free := by
  rw [holds_call, hact]
  exact ⟨I.verdict, _, rfl, hk, fun _ => hlate⟩

theorem holds_notices {f : M → F.Res o × τ} {gone : F.Res o × τ} (hact : B t o = .takes f gone)
    (hk : ∀ m, I.pause m = true → Holds B I R Late (k (f m).1) (f m).2 U .held) :
    Holds B I R Late (.call o k) t U .noticed := by
  rw [holds_call, hact]
  exact hk

theorem holds_resumes {f : M → F.Res o × τ} {gone : F.Res o × τ} (hact : B t o = .takes f gone)
    (hk : ∀ m, I.resume m = true → Holds B I R Late (k (f m).1) (f m).2 U .free) :
    Holds B I R Late (.call o k) t U .released := by
  rw [holds_call, hact]
  exact hk

theorem holds_asks {f : Bool → F.Res o × τ} (hact : B t o = .asks f) (hU : I.Open U)
    (hunseen : Holds B I R Late (k (f false).1) (f false).2 U .free)
    (hseen : Holds B I R Late (k (f true).1) (f true).2 U .noticed) :
    Holds B I R Late (.call o k) t U .free := by
  rw [holds_call, hact]
  exact ⟨rfl, hU, hunseen, hseen⟩

theorem holds_awaits (hact : B t o = .awaits r t') (hk : Holds B I R Late (k r) t' U .released) :
    Holds B I R Late (.call o k) t U .held := by
  rw [holds_call, hact]
  exact ⟨rfl, hk⟩

theorem Holds.post {q : Prog F β} (hq : Holds B I R Late q t U h)
    (hR : ∀ b t U h, R b t U h → R' b t U h) (hL : ∀ b t, Late b t → Late' b t) :
    Holds B I R' Late' q t U h := by
  induction q generalizing t U h with
  | ret b => exact hR b t U h hq
  | call o k ih =>
      rw [holds_call] at hq ⊢
      cases hact : B t o with
      | does r t' =>
          rw [hact] at hq
          exact ih r hq
      | sends m r t' lost =>
          rw [hact] at hq
          obtain ⟨hh, U', hU, hq⟩ := hq
          exact ⟨hh, U', hU, ih r hq⟩
      | takes f gone =>
          rw [hact] at hq
          cases h with
          | free =>
              obtain ⟨m, U', hU, hq, hlate⟩ := hq
              exact ⟨m, U', hU, ih _ hq, fun htail m' hm' => (hlate htail m' hm').post hL⟩
          | noticed => exact fun m hm => ih _ (hq m hm)
          | held => exact hq.elim
          | released => exact fun m hm => ih _ (hq m hm)
      | asks f =>
          rw [hact] at hq
          exact ⟨hq.1, hq.2.1, ih _ hq.2.2.1, ih _ hq.2.2.2⟩
      | awaits r t' =>
          rw [hact] at hq
          exact ⟨hq.1, ih r hq.2⟩
  | spin => exact hq.elim

theorem holds_bind {q : Prog F γ} {f : γ → Prog F β}
    (hq : Holds B I (fun c t U h => Holds B I R Late (f c) t U h)
      (fun c t => Quits B Late (f c) t) q t U h) : Holds B I R Late (q >>= f) t U h := by
  induction q generalizing t U h with
  | ret c => exact hq
  | call o k ih =>
      rw [Prog.call_bind, holds_call]
      rw [holds_call] at hq
      cases hact : B t o with
      | does r t' =>
          rw [hact] at hq
          exact ih r hq
      | sends m r t' lost =>
          rw [hact] at hq
          obtain ⟨hh, U', hU, hq⟩ := hq
          exact ⟨hh, U', hU, ih r hq⟩
      | takes g gone =>
          rw [hact] at hq
          cases h with
          | free =>
              obtain ⟨m, U', hU, hq, hlate⟩ := hq
              exact ⟨m, U', hU, ih _ hq, fun htail m' hm' => quits_bind (hlate htail m' hm')⟩
          | noticed => exact fun m hm => ih _ (hq m hm)
          | held => exact hq.elim
          | released => exact fun m hm => ih _ (hq m hm)
      | asks g =>
          rw [hact] at hq
          exact ⟨hq.1, hq.2.1, ih _ hq.2.2.1, ih _ hq.2.2.2⟩
      | awaits r t' =>
          rw [hact] at hq
          exact ⟨hq.1, ih r hq.2⟩
  | spin => exact hq.elim

/-- The loop rule: an invariant with the number of rounds left, which the body keeps. -/
theorem holds_iterate (body : γ → Prog F (γ ⊕ β))
    (J : ℕ → γ → τ → Transcript M → Attention → Prop) (hzero : ∀ x t U h, ¬ J 0 x t U h)
    (hbody : ∀ n x t U h, J (n + 1) x t U h →
      Holds B I (fun r t U h => r.elim (fun y => J n y t U h) fun b => R b t U h)
        (fun _ _ => False) (body x) t U h)
    (n : ℕ) {x : γ} (hJ : J n x t U h) : Holds B I R Late (Prog.iterate n body x) t U h := by
  induction n generalizing x t U h with
  | zero => exact absurd hJ (hzero x t U h)
  | succ n ih =>
      refine holds_bind ((hbody n x t U h hJ).post (fun r t U h hr => ?_) fun _ _ => False.elim)
      cases r with
      | inl y => exact ih hr
      | inr b => exact hr

end Right

/-! ### Stretches without requests -/

/-- Where nobody asks for anything, `B` does what `A` does, with `e` for the states. -/
def Mirrors (A : Agent E M σ) (B : Actor E M τ) (e : σ → τ) (on : E.Op → Prop) : Prop :=
  ∀ s o, on o → match A s o with
    | .does r s' => B (e s) o = .does r (e s')
    | .sends m r s' => ∃ lost, B (e s) o = .sends m r (e s') lost
    | .takes f => ∃ gone, B (e s) o = .takes (fun m => ((f m).1, e (f m).2)) gone
    | .polls _ | .opens _ _ => True

section Mirrors

variable {A : Agent E M σ} {B : Actor E M τ} {e : σ → τ} {on : E.Op → Prop} {I : Interruption M}
  {p q : Prog E α} {s t : σ} {T U : Transcript M}

theorem Leads.interrupts {R : α → τ → Transcript M → Bool → Prop} (hB : Mirrors A B e on)
    (h : Leads A .left on p s T q t U) (hq : Interrupts B I R q (e t) U false) :
    Interrupts B I R p (e s) T false := by
  induction h with
  | refl => exact hq
  | @does o k r s s' _ _ _ _ ho hact _ ih =>
      have hmirror := hB s o ho
      rw [hact] at hmirror
      exact (interrupts_does hmirror).mpr (ih hq)
  | @sends o k m r s s' _ _ _ _ ho hact _ ih =>
      have hmirror := hB s o ho
      rw [hact] at hmirror
      obtain ⟨lost, hmirror⟩ := hmirror
      exact interrupts_says hmirror (ih hq)
  | @takes o k f m s _ _ _ _ ho hact _ ih =>
      have hmirror := hB s o ho
      rw [hact] at hmirror
      obtain ⟨gone, hmirror⟩ := hmirror
      exact interrupts_hears hmirror (ih hq)

/-- What the right hears before it has spoken, and after the verdict, is no verdict. -/
theorem Leads.holds {R : α → τ → Transcript M → Attention → Prop} {Late : α → τ → Prop}
    (hB : Mirrors A B e on) (h : Leads A .right on p s T q t U)
    (hlen : T.length < I.tail.length ∨ I.tail.length ≤ U.length)
    (hq : Holds B I R Late q (e t) U .free) : Holds B I R Late p (e s) T .free := by
  induction h with
  | refl => exact hq
  | @does o k r s s' _ _ _ _ ho hact _ ih =>
      have hmirror := hB s o ho
      rw [hact] at hmirror
      exact (holds_does hmirror).mpr (ih hlen hq)
  | @sends o k m r s s' _ _ _ _ ho hact _ ih =>
      have hmirror := hB s o ho
      rw [hact] at hmirror
      obtain ⟨lost, hmirror⟩ := hmirror
      exact holds_says hmirror (ih (hlen.imp_left fun hlt => Nat.lt_of_succ_lt hlt) hq)
  | @takes o k f m s _ T' _ _ ho hact hk ih =>
      have hmirror := hB s o ho
      rw [hact] at hmirror
      obtain ⟨gone, hmirror⟩ := hmirror
      refine holds_hears hmirror ?_ (ih (hlen.imp_left fun hlt => Nat.lt_of_succ_lt hlt) hq)
      intro htail
      have hlength := congrArg List.length htail
      rw [List.length_cons] at hlength
      have hle := hk.length_le
      rw [List.length_cons] at hlen
      omega

end Mirrors

end Process
