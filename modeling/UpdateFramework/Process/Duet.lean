import UpdateFramework.Process.Program

/-!
# Process — two programs in conversation

Two programs, each over its own interface and with a state of its own, send messages to each other
over two channels that keep them in order.  An `Agent` says what each operation of a program does:
it works on the program's state, sends a message, takes one, asks whether one is there, or opens a
conversation, for which the program on the other side starts afresh.  It may do so at any time: a
program on the other side that has not ended is then left `behind`.

A transcript is the messages of a conversation in one order, with the side that sends each.  `Plays`
says that a program, on its own, keeps to given transcripts; it is defined by recursion on the tree,
so it is proved by following the program text.  Two programs that keep to the same transcripts agree
in every order of their steps (`Agreed.step`), as long as none is left behind: what is sent is what
the transcripts say, no side waits in vain (`Agreed.progress`), and the results are those each has on
its own (`Agreed.ended`).  Steps come to an end in any case (`Duet.wellFounded`).
-/

namespace Process

variable {E F : Interface} {M α β γ σ τ : Type}

/-- What an operation does, with its response and the state after it. -/
inductive Deed (M σ R : Type) where
  | does (r : R) (s : σ)
  | sends (m : M) (r : R) (s : σ)
  | takes (f : M → R × σ)
  /-- Whether a message is there. -/
  | polls (f : Bool → R × σ)
  /-- A conversation is opened. -/
  | opens (r : R) (s : σ)

/-- What the operations of a program do. -/
abbrev Agent (E : Interface) (M σ : Type) := σ → (o : E.Op) → Deed M σ (E.Res o)

/-- A step with these messages in the channel: the response, the state, the messages that are left,
and those that are sent. -/
def Deed.move {R : Type} : Deed M σ R → List M → Option (R × σ × List M × List M)
  | .does r s, ms => some (r, s, ms, [])
  | .sends m r s, ms => some (r, s, ms, [m])
  | .takes f, m :: ms => some ((f m).1, (f m).2, ms, [])
  | .takes _, [] => none
  | .polls f, ms => some ((f !ms.isEmpty).1, (f !ms.isEmpty).2, ms, [])
  | .opens _ _, _ => none

inductive Side where
  | left
  | right
  deriving DecidableEq

def Side.other : Side → Side
  | .left => .right
  | .right => .left

theorem Side.other_ne (d : Side) : d.other ≠ d := by cases d <;> decide

/-- The messages of a conversation, with who sends each. -/
abbrev Transcript (M : Type) := List (Side × M)

/-- Nothing is left to be sent. -/
theorem not_sender_nil (d : Side) : ∀ x ∈ ([] : Transcript M), x.1 ≠ d :=
  fun _ hx => absurd hx List.not_mem_nil

/-- The messages one side sends. -/
def said (d : Side) (ms : List M) : Transcript M := ms.map fun m => (d, m)

@[simp] theorem said_nil (d : Side) : said d ([] : List M) = [] := rfl

@[simp] theorem said_cons (d : Side) (m : M) (ms : List M) :
    said d (m :: ms) = (d, m) :: said d ms := rfl

@[simp] theorem said_append (d : Side) (ms ns : List M) :
    said d (ms ++ ns) = said d ms ++ said d ns := List.map_append

/-! ### One program and its transcripts -/

/-- `p` keeps to the transcript `T`, and to those of `Ts` in the conversations it opens. -/
def Plays (A : Agent E M σ) (me : Side)
    (Q : α → σ → Transcript M → List (Transcript M) → Prop) :
    Prog E α → σ → Transcript M → List (Transcript M) → Prop
  | .ret a, s, T, Ts => Q a s T Ts
  | .call o k, s, T, Ts => match A s o with
    | .does r s' => Plays A me Q (k r) s' T Ts
    | .sends m r s' => ∃ T', T = (me, m) :: T' ∧ Plays A me Q (k r) s' T' Ts
    | .takes f => ∃ m T', T = (me.other, m) :: T' ∧ Plays A me Q (k (f m).1) (f m).2 T' Ts
    -- nothing is there, as it is the turn of this side
    | .polls f => (∃ m T', T = (me, m) :: T') ∧ Plays A me Q (k (f false).1) (f false).2 T Ts
    | .opens r s' => (∀ x ∈ T, x.1 ≠ me) ∧
        ∃ T' Ts', Ts = T' :: Ts' ∧ Plays A me Q (k r) s' T' Ts'
  | .spin, _, _, _ => False

section Rules

variable {A : Agent E M σ} {me : Side} {Q Q' : α → σ → Transcript M → List (Transcript M) → Prop}
  {s s' : σ} {T : Transcript M} {Ts : List (Transcript M)} {o : E.Op} {k : E.Res o → Prog E α}
  {r : E.Res o}

theorem plays_does (h : A s o = .does r s') :
    Plays A me Q (.call o k) s T Ts ↔ Plays A me Q (k r) s' T Ts := by
  rw [Plays, h]

theorem plays_sends {m : M} (h : A s o = .sends m r s') :
    Plays A me Q (.call o k) s ((me, m) :: T) Ts ↔ Plays A me Q (k r) s' T Ts := by
  rw [Plays, h]
  constructor
  · rintro ⟨T', hT, hp⟩
    cases hT
    exact hp
  · exact fun hp => ⟨T, rfl, hp⟩

theorem plays_opens {U : Transcript M} (h : A s o = .opens r s') (hT : ∀ x ∈ T, x.1 ≠ me) :
    Plays A me Q (.call o k) s T (U :: Ts) ↔ Plays A me Q (k r) s' U Ts := by
  rw [Plays, h]
  constructor
  · rintro ⟨-, T', Ts', hTs, hp⟩
    cases hTs
    exact hp
  · exact fun hp => ⟨hT, U, Ts, rfl, hp⟩

theorem Plays.post {p : Prog E α} (h : Plays A me Q p s T Ts)
    (hQ : ∀ a s T Ts, Q a s T Ts → Q' a s T Ts) : Plays A me Q' p s T Ts := by
  induction p generalizing s T Ts with
  | ret a => exact hQ a s T Ts h
  | call o k ih =>
      rw [Plays] at h ⊢
      cases hd : A s o with
      | does r s' =>
          rw [hd] at h
          exact ih r h
      | sends m r s' =>
          rw [hd] at h
          obtain ⟨T', hT, hp⟩ := h
          exact ⟨T', hT, ih r hp⟩
      | takes f =>
          rw [hd] at h
          obtain ⟨m, T', hT, hp⟩ := h
          exact ⟨m, T', hT, ih _ hp⟩
      | polls f =>
          rw [hd] at h
          exact ⟨h.1, ih _ h.2⟩
      | opens r s' =>
          rw [hd] at h
          obtain ⟨hT, T', Ts', hTs, hp⟩ := h
          exact ⟨hT, T', Ts', hTs, ih r hp⟩
  | spin => exact h

theorem plays_bind {p : Prog E γ} {f : γ → Prog E α} : Plays A me Q (p >>= f) s T Ts ↔
    Plays A me (fun c s T Ts => Plays A me Q (f c) s T Ts) p s T Ts := by
  induction p generalizing s T Ts with
  | ret a => exact Iff.rfl
  | call o k ih =>
      rw [Prog.call_bind, Plays, Plays]
      cases A s o with
      | does r s' => exact ih r
      | sends m r s' => exact exists_congr fun T' => and_congr_right fun _ => ih r
      | takes f => exact exists_congr fun m => exists_congr fun T' => and_congr_right fun _ => ih _
      | polls f => exact and_congr_right fun _ => ih _
      | opens r s' =>
          exact and_congr_right fun _ => exists_congr fun T' => exists_congr fun Ts' =>
            and_congr_right fun _ => ih r
  | spin => exact Iff.rfl

/-- A step of a program that keeps to its transcript, where what is in the channel is what the
transcript says comes next. -/
theorem Plays.move {ms ms' out : List M} {V : Transcript M} (h : Plays A me Q (.call o k) s T Ts)
    (hT : T = said me.other ms ++ V) (hm : (A s o).move ms = some (r, s', ms', out)) :
    ∃ T', Plays A me Q (k r) s' T' Ts ∧
      ((out = [] ∧ ms' = ms ∧ T = T') ∨
        (∃ m, out = [m] ∧ ms = [] ∧ ms' = [] ∧ T = (me, m) :: T') ∨
        ∃ m, out = [] ∧ ms = m :: ms' ∧ T = (me.other, m) :: T') := by
  have hturn : ∀ {m T'}, T = (me, m) :: T' → ms = [] := by
    intro m T' hmine
    cases ms with
    | nil => rfl
    | cons m' ms =>
        rw [hT, said_cons, List.cons_append] at hmine
        exact absurd (congrArg Prod.fst (List.cons.inj hmine).1) me.other_ne
  rw [Plays] at h
  cases hd : A s o with
  | does r' t =>
      rw [hd] at h hm
      cases hm
      exact ⟨T, h, .inl ⟨rfl, rfl, rfl⟩⟩
  | sends m r' t =>
      rw [hd] at h hm
      cases hm
      obtain ⟨T', hmine, hp⟩ := h
      have hms := hturn hmine
      exact ⟨T', hp, .inr (.inl ⟨m, rfl, hms, hms, hmine⟩)⟩
  | takes f =>
      rw [hd] at h hm
      cases ms with
      | nil => cases hm
      | cons m ms =>
          cases hm
          obtain ⟨m', T', htheirs, hp⟩ := h
          rw [hT, said_cons, List.cons_append] at htheirs
          cases htheirs
          exact ⟨_, hp, .inr (.inr ⟨m, rfl, rfl, hT⟩)⟩
  | polls f =>
      rw [hd] at h hm
      obtain ⟨⟨m, T', hmine⟩, hp⟩ := h
      cases hturn hmine
      cases hm
      exact ⟨T, hp, .inl ⟨rfl, rfl, rfl⟩⟩
  | opens r' t =>
      rw [hd] at hm
      cases hm

/-- The loop rule: an invariant with the number of rounds left, which the body keeps. -/
theorem plays_iterate (body : γ → Prog E (γ ⊕ α))
    (J : ℕ → γ → σ → Transcript M → List (Transcript M) → Prop)
    (hzero : ∀ x s T Ts, ¬ J 0 x s T Ts)
    (hbody : ∀ n x s T Ts, J (n + 1) x s T Ts →
      Plays A me (fun r s T Ts => r.elim (fun y => J n y s T Ts) fun a => Q a s T Ts)
        (body x) s T Ts)
    (n : ℕ) {x : γ} (h : J n x s T Ts) : Plays A me Q (Prog.iterate n body x) s T Ts := by
  induction n generalizing x s T Ts with
  | zero => exact absurd h (hzero x s T Ts)
  | succ n ih =>
      refine plays_bind.mpr ((hbody n x s T Ts h).post fun r s T Ts hr => ?_)
      cases r with
      | inl y => exact ih hr
      | inr a => exact hr

end Rules

/-! ### Two programs -/

/-- What both programs have come to, and what is on its way between them. -/
structure Duet (E F : Interface) (M α β σ τ : Type) where
  left : Prog E α
  leftState : σ
  /-- None before the first conversation. -/
  right : Option (Prog F β)
  rightState : τ
  toLeft : List M
  toRight : List M
  /-- All messages so far, with who sent each. -/
  sent : Transcript M
  /-- The programs on the right that had not ended when the next conversation was opened. -/
  behind : List (Prog F β)

namespace Duet

variable {A : Agent E M σ} {B : Agent F M τ} {program : Prog F β} {c d : Duet E F M α β σ τ}

/-- Nobody is in a conversation yet. -/
def start (p : Prog E α) (s : σ) (t : τ) : Duet E F M α β σ τ := ⟨p, s, none, t, [], [], [], []⟩

/-- The program on the right, if there is one, has ended. -/
def Rests (c : Duet E F M α β σ τ) : Prop := ∀ q, c.right = some q → ∃ b, q = .ret b

/-- The program on the right, where it has not ended. -/
def unfinished (c : Duet E F M α β σ τ) : List (Prog F β) :=
  match c.right with
  | none | some (.ret _) => []
  | some q => [q]

theorem unfinished_nil : c.unfinished = [] ↔ c.Rests := by
  unfold unfinished Rests
  constructor
  · intro h q hq
    cases q with
    | ret b => exact ⟨b, rfl⟩
    | call o k =>
        rw [hq] at h
        cases h
    | spin =>
        rw [hq] at h
        cases h
  · intro h
    cases hq : c.right with
    | none => rfl
    | some q =>
        obtain ⟨b, rfl⟩ := h q hq
        rfl

/-- A step of one program.  The one on the left opens a conversation without waiting for the one on
the right to end. -/
inductive Step (A : Agent E M σ) (B : Agent F M τ) (program : Prog F β) :
    Duet E F M α β σ τ → Duet E F M α β σ τ → Prop where
  | left {c : Duet E F M α β σ τ} {o : E.Op} {k : E.Res o → Prog E α} {r : E.Res o} {s : σ}
      {ms out : List M} (h : c.left = .call o k)
      (hm : (A c.leftState o).move c.toLeft = some (r, s, ms, out)) :
      Step A B program c ⟨k r, s, c.right, c.rightState, ms, c.toRight ++ out,
        c.sent ++ said .left out, c.behind⟩
  | right {c : Duet E F M α β σ τ} {o : F.Op} {k : F.Res o → Prog F β} {r : F.Res o} {t : τ}
      {ms out : List M} (h : c.right = some (.call o k))
      (hm : (B c.rightState o).move c.toRight = some (r, t, ms, out)) :
      Step A B program c ⟨c.left, c.leftState, some (k r), t, c.toLeft ++ out, ms,
        c.sent ++ said .right out, c.behind⟩
  | opens {c : Duet E F M α β σ τ} {o : E.Op} {k : E.Res o → Prog E α} {r : E.Res o} {s : σ}
      (h : c.left = .call o k) (ho : A c.leftState o = .opens r s) :
      Step A B program c ⟨k r, s, some program, c.rightState, [], [], c.sent,
        c.behind ++ c.unfinished⟩

/-- A run of any length. -/
abbrev Run (A : Agent E M σ) (B : Agent F M τ) (program : Prog F β) :
    Duet E F M α β σ τ → Duet E F M α β σ τ → Prop :=
  Relation.ReflTransGen (Step A B program)

/-- Nothing is taken from those left behind. -/
theorem Step.behind (h : Step A B program c d) : c.behind <+: d.behind := by
  cases h with
  | left h hm => exact List.prefix_refl _
  | right h hm => exact List.prefix_refl _
  | opens h ho => exact List.prefix_append ..

/-- Both programs have ended. -/
def Ended (c : Duet E F M α β σ τ) : Prop := (∃ a, c.left = .ret a) ∧ c.Rests

/-- Both programs wait for a message, and none is on its way. -/
def Deadlocked (A : Agent E M σ) (B : Agent F M τ) (c : Duet E F M α β σ τ) : Prop :=
  (∃ o k f, c.left = .call o k ∧ A c.leftState o = .takes f) ∧ c.toLeft = [] ∧
    (∃ o k f, c.right = some (.call o k) ∧ B c.rightState o = .takes f) ∧ c.toRight = []

/-- Every run from `c` comes to an end. -/
abbrev Finite (A : Agent E M σ) (B : Agent F M τ) (program : Prog F β)
    (c : Duet E F M α β σ τ) : Prop :=
  Acc (fun d c => Step A B program c d) c

/-- A step gets on in one tree or in the other. -/
theorem finite_of_children
    (hleft : ∀ o k r (d : Duet E F M α β σ τ), c.left = .call o k → d.left = k r →
      Finite A B program d)
    (hright : ∀ o k r (d : Duet E F M α β σ τ), c.right = some (.call o k) → d.left = c.left →
      d.right = some (k r) → Finite A B program d) : Finite A B program c := by
  refine ⟨c, fun d hd => ?_⟩
  cases hd with
  | left h hm => exact hleft _ _ _ _ h rfl
  | right h hm => exact hright _ _ _ _ h rfl rfl
  | opens h ho => exact hleft _ _ _ _ h rfl

theorem finite_of_left {p : Prog E α}
    (hleft : ∀ o k r (d : Duet E F M α β σ τ), p = .call o k → d.left = k r →
      Finite A B program d) (hp : c.left = p) : Finite A B program c := by
  cases hq : c.right with
  | none =>
      refine finite_of_children (fun o k r d h hd => hleft o k r d (hp ▸ h) hd) ?_
      intro o k r d h
      rw [hq] at h
      cases h
  | some q =>
      induction q generalizing c with
      | call o k ih =>
          refine finite_of_children (fun o k r d h hd => hleft o k r d (hp ▸ h) hd) ?_
          intro o' k' r d h hd hd'
          rw [hq] at h
          cases h
          exact ih r (hd.trans hp) hd'
      | ret b =>
          refine finite_of_children (fun o k r d h hd => hleft o k r d (hp ▸ h) hd) ?_
          intro o k r d h
          rw [hq] at h
          cases h
      | spin =>
          refine finite_of_children (fun o k r d h hd => hleft o k r d (hp ▸ h) hd) ?_
          intro o k r d h
          rw [hq] at h
          cases h

/-- There is no infinite run. -/
theorem wellFounded (A : Agent E M σ) (B : Agent F M τ) (program : Prog F β) :
    WellFounded fun d c : Duet E F M α β σ τ => Step A B program c d := by
  suffices hall : ∀ (p : Prog E α) (c : Duet E F M α β σ τ), c.left = p → Finite A B program c from
    ⟨fun c => hall c.left c rfl⟩
  intro p
  induction p with
  | call o k ih =>
      intro c hc
      refine finite_of_left (fun o' k' r d h hd => ?_) hc
      cases h
      exact ih r d hd
  | ret a => exact fun c => finite_of_left nofun
  | spin => exact fun c => finite_of_left nofun

/-! ### Agreement -/

/-- The program on the right keeps to one transcript after another, each time from its beginning. -/
def Serves (B : Agent F M τ) (program : Prog F β) (Q : β → τ → Prop) :
    List (Transcript M) → τ → Prop
  | [], _ => True
  | T :: Ts, t => Plays B .right
      (fun b t U _ => U = [] ∧ (Ts = [] → Q b t) ∧ Serves B program Q Ts t) program t T []

/-- Both programs keep to the same transcripts.  The one on the left is at `T` and the one on the
right at `U`, and what is between them is on its way; `Ts` are the conversations to come, of those
that were to come in the beginning. -/
structure Agreed (A : Agent E M σ) (B : Agent F M τ) (program : Prog F β) (P : Side × M → Prop)
    (Q : α → σ → Prop) (Q' : β → τ → Prop) (all : List (Transcript M)) (c : Duet E F M α β σ τ)
    (T U : Transcript M) (Ts : List (Transcript M)) : Prop where
  left : Plays A .left (fun a s T Ts => Q a s ∧ (∀ x ∈ T, x.1 ≠ .left) ∧ Ts = [])
    c.left c.leftState T Ts
  before : c.right = none → T = [] ∧ U = [] ∧ Ts = all ∧ Serves B program Q' Ts c.rightState
  fewer : ∀ q, c.right = some q → Ts.length < all.length
  right : ∀ q, c.right = some q →
    Plays B .right (fun b t U _ => U = [] ∧ (Ts = [] → Q' b t) ∧ Serves B program Q' Ts t)
      q c.rightState U []
  aligned : (U = said .left c.toRight ++ T ∧ c.toLeft = []) ∨
    (T = said .right c.toLeft ++ U ∧ c.toRight = [])
  sent : ∀ x ∈ c.sent, P x
  coming : ∀ V ∈ T :: U :: Ts, ∀ x ∈ V, P x

section Agreement

variable {P : Side × M → Prop} {Q : α → σ → Prop} {Q' : β → τ → Prop} {T U : Transcript M}
  {Ts all : List (Transcript M)}

theorem agreed_start {p : Prog E α} {s : σ} {t : τ}
    (hleft : Plays A .left (fun a s T Ts => Q a s ∧ (∀ x ∈ T, x.1 ≠ .left) ∧ Ts = []) p s [] Ts)
    (hright : Serves B program Q' Ts t) (hP : ∀ V ∈ Ts, ∀ x ∈ V, P x) :
    Agreed A B program P Q Q' Ts (start p s t) [] [] Ts where
  left := hleft
  before _ := ⟨rfl, rfl, rfl, hright⟩
  fewer := nofun
  right := nofun
  aligned := .inl ⟨rfl, rfl⟩
  sent := nofun
  coming V hV := by
    rcases List.mem_cons.mp hV with rfl | hV
    · exact nofun
    rcases List.mem_cons.mp hV with rfl | hV
    · exact nofun
    · exact hP V hV

/-- What is coming in the channel to the left comes next in the transcript, and in the one to the
right. -/
theorem Agreed.next (h : Agreed A B program P Q Q' all c T U Ts) :
    (∃ V, T = said .right c.toLeft ++ V) ∧ ∃ V, U = said .left c.toRight ++ V := by
  rcases h.aligned with ⟨hU, hnone⟩ | ⟨hT, hnone⟩
  · exact ⟨⟨T, by rw [hnone, said_nil, List.nil_append]⟩, T, hU⟩
  · exact ⟨⟨U, hT⟩, U, by rw [hnone, said_nil, List.nil_append]⟩

theorem Agreed.coming_of (h : Agreed A B program P Q Q' all c T U Ts) {T' U' : Transcript M}
    (hT : ∀ x ∈ T', x ∈ T) (hU : ∀ x ∈ U', x ∈ U) : ∀ V ∈ T' :: U' :: Ts, ∀ x ∈ V, P x := by
  intro V hV x hx
  rcases List.mem_cons.mp hV with rfl | hV
  · exact h.coming T List.mem_cons_self x (hT x hx)
  rcases List.mem_cons.mp hV with rfl | hV
  · exact h.coming U (List.mem_cons_of_mem _ List.mem_cons_self) x (hU x hx)
  · exact h.coming V (List.mem_cons_of_mem _ (List.mem_cons_of_mem _ hV)) x hx

theorem Agreed.sent_append (h : Agreed A B program P Q Q' all c T U Ts) {d : Side} {out : List M}
    (hout : ∀ m ∈ out, (d, m) ∈ T ∨ (d, m) ∈ U) : ∀ x ∈ c.sent ++ said d out, P x := by
  intro x hx
  rcases List.mem_append.mp hx with hx | hx
  · exact h.sent x hx
  · obtain ⟨m, hm, rfl⟩ := List.mem_map.mp hx
    rcases hout m hm with hT | hU
    · exact h.coming T List.mem_cons_self _ hT
    · exact h.coming U (List.mem_cons_of_mem _ List.mem_cons_self) _ hU

/-- A step that leaves nobody behind. -/
theorem Agreed.step (h : Agreed A B program P Q Q' all c T U Ts) (hs : Step A B program c d)
    (hb : d.behind = []) : ∃ T U Ts, Agreed A B program P Q Q' all d T U Ts := by
  cases hs with
  | @left o k r s ms out hcall hm =>
      obtain ⟨V, hV⟩ := h.next.1
      have hplays := h.left
      rw [hcall] at hplays
      obtain ⟨T', hp, ⟨rfl, rfl, rfl⟩ | ⟨m, rfl, hnone, rfl, hT⟩ | ⟨m, rfl, hms, hT⟩⟩ :=
        hplays.move hV hm
      · refine ⟨T, U, Ts, hp, h.before, h.fewer, h.right, ?_, h.sent_append nofun, h.coming⟩
        rw [List.append_nil]
        exact h.aligned
      · refine ⟨T', U, Ts, hp, fun hr => ?_, h.fewer, h.right, .inl ⟨?_, rfl⟩, h.sent_append ?_, ?_⟩
        · rw [(h.before hr).1] at hT
          cases hT
        · rw [said_append, List.append_assoc, said_cons, said_nil, List.singleton_append, ← hT]
          rcases h.aligned with ⟨hU, -⟩ | ⟨hT', hnone'⟩
          · exact hU
          · rw [hT', hnone, hnone', said_nil, said_nil, List.nil_append, List.nil_append]
        · intro m' hm'
          cases List.mem_singleton.mp hm'
          exact .inl (hT ▸ List.mem_cons_self)
        · exact h.coming_of (fun x hx => hT ▸ List.mem_cons_of_mem _ hx) fun x hx => hx
      · refine ⟨T', U, Ts, hp, fun hr => ?_, h.fewer, h.right, .inr ?_, h.sent_append nofun, ?_⟩
        · rw [(h.before hr).1] at hT
          cases hT
        · rcases h.aligned with ⟨-, hnone⟩ | ⟨hT', hnone⟩
          · rw [hnone] at hms
            cases hms
          · rw [hT, hms, said_cons, List.cons_append] at hT'
            exact ⟨(List.cons.inj hT').2, by rw [hnone, List.append_nil]⟩
        · exact h.coming_of (fun x hx => hT ▸ List.mem_cons_of_mem _ hx) fun x hx => hx
  | @right o k r t ms out hcall hm =>
      obtain ⟨V, hV⟩ := h.next.2
      have hright : ∀ {U' : Transcript M}, Plays B .right (fun b t U _ =>
            U = [] ∧ (Ts = [] → Q' b t) ∧ Serves B program Q' Ts t) (k r) t U' [] →
          ∀ q, some (k r) = some q → Plays B .right (fun b t U _ =>
            U = [] ∧ (Ts = [] → Q' b t) ∧ Serves B program Q' Ts t) q t U' [] :=
        fun hp q hq => Option.some.inj hq ▸ hp
      have hfewer : ∀ q, some (k r) = some q → Ts.length < all.length :=
        fun _ _ => h.fewer _ hcall
      obtain ⟨U', hp, ⟨rfl, rfl, rfl⟩ | ⟨m, rfl, hnone, rfl, hU⟩ | ⟨m, rfl, hms, hU⟩⟩ :=
        (h.right _ hcall).move hV hm
      · refine ⟨T, U, Ts, h.left, nofun, hfewer, hright hp, ?_, h.sent_append nofun, h.coming⟩
        rw [List.append_nil]
        exact h.aligned
      · refine ⟨T, U', Ts, h.left, nofun, hfewer, hright hp, .inr ⟨?_, rfl⟩, h.sent_append ?_, ?_⟩
        · rw [said_append, List.append_assoc, said_cons, said_nil, List.singleton_append, ← hU]
          rcases h.aligned with ⟨hU', hnone'⟩ | ⟨hT, -⟩
          · rw [hU', hnone, hnone', said_nil, said_nil, List.nil_append, List.nil_append]
          · exact hT
        · intro m' hm'
          cases List.mem_singleton.mp hm'
          exact .inr (hU ▸ List.mem_cons_self)
        · exact h.coming_of (fun x hx => hx) fun x hx => hU ▸ List.mem_cons_of_mem _ hx
      · refine ⟨T, U', Ts, h.left, nofun, hfewer, hright hp, .inl ?_, h.sent_append nofun, ?_⟩
        · rcases h.aligned with ⟨hU', hnone⟩ | ⟨-, hnone⟩
          · rw [hU, hms, said_cons, List.cons_append] at hU'
            exact ⟨(List.cons.inj hU').2, by rw [hnone, List.append_nil]⟩
          · rw [hnone] at hms
            cases hms
        · exact h.coming_of (fun x hx => hx) fun x hx => hU ▸ List.mem_cons_of_mem _ hx
  | opens hcall ho =>
      have hr : c.Rests := unfinished_nil.mp (List.append_eq_nil_iff.mp hb).2
      have hplays := h.left
      rw [hcall, Plays, ho] at hplays
      obtain ⟨-, T', Ts', rfl, hp⟩ := hplays
      have hserves : Serves B program Q' (T' :: Ts') c.rightState := by
        cases hq : c.right with
        | none => exact (h.before hq).2.2.2
        | some q =>
            obtain ⟨b, rfl⟩ := hr q hq
            exact (h.right _ hq).2.2
      have hfewer : Ts'.length < all.length := by
        cases hq : c.right with
        | none =>
            rw [← (h.before hq).2.2.1]
            exact Nat.lt_succ_self _
        | some q => exact Nat.lt_of_succ_lt (h.fewer q hq)
      refine ⟨T', T', Ts', hp, nofun, fun _ _ => hfewer, fun q hq => Option.some.inj hq ▸ hserves,
        .inl ⟨rfl, rfl⟩, h.sent, fun V hV => ?_⟩
      refine h.coming V (List.mem_cons_of_mem _ (List.mem_cons_of_mem _ ?_))
      rcases List.mem_cons.mp hV with rfl | hV
      · exact List.mem_cons_self
      · exact hV

theorem Agreed.run (h : Agreed A B program P Q Q' all c T U Ts) (hr : Run A B program c d)
    (hb : d.behind = []) : ∃ T U Ts, Agreed A B program P Q Q' all d T U Ts := by
  induction hr with
  | refl => exact ⟨T, U, Ts, h⟩
  | tail _ hs ih =>
      obtain ⟨T', U', Ts', ih⟩ := ih (List.prefix_nil.mp (hb ▸ hs.behind))
      exact ih.step hs hb

/-- Where one conversation was to come, a step leaves nobody behind. -/
theorem Agreed.behind (h : Agreed A B program P Q Q' all c T U Ts) (hs : Step A B program c d)
    (hone : all.length ≤ 1) (hb : c.behind = []) : d.behind = [] := by
  cases hs with
  | left h hm => exact hb
  | right h hm => exact hb
  | opens hcall ho =>
      have hplays := h.left
      rw [hcall, Plays, ho] at hplays
      obtain ⟨-, T', Ts', rfl, -⟩ := hplays
      refine List.append_eq_nil_iff.mpr ⟨hb, unfinished_nil.mpr fun q hq => ?_⟩
      have hlt := h.fewer q hq
      rw [List.length_cons] at hlt
      omega

theorem Agreed.run_once (h : Agreed A B program P Q Q' all c T U Ts) (hr : Run A B program c d)
    (hone : all.length ≤ 1) (hb : c.behind = []) : d.behind = [] := by
  induction hr with
  | refl => exact hb
  | tail hrun hs ih =>
      obtain ⟨T', U', Ts', h'⟩ := h.run hrun ih
      exact h'.behind hs hone ih

/-- An operation that cannot be done now waits for a message, or to open a conversation. -/
theorem deed_move_none {R : Type} {x : Deed M σ R} {ms : List M} (h : x.move ms = none) :
    (∃ f, x = .takes f ∧ ms = []) ∨ ∃ r s, x = .opens r s := by
  cases x with
  | does r s => cases h
  | sends m r s => cases h
  | takes f =>
      cases ms with
      | nil => exact .inl ⟨f, rfl, rfl⟩
      | cons m ms => cases h
  | polls f => cases h
  | opens r s => exact .inr ⟨r, s, rfl⟩

/-- The program on the right rests, gets on, or waits for what the left is to send. -/
theorem Agreed.right_gets_on (h : Agreed A B program P Q Q' all c T U Ts) :
    (c.Rests ∧ U = []) ∨ (∃ d, Step A B program c d ∧ d.behind = c.behind) ∨
      (c.toRight = [] ∧ ∃ m U', U = (.left, m) :: U') := by
  cases hq : c.right with
  | none =>
      refine .inl ⟨fun q hq' => ?_, (h.before hq).2.1⟩
      rw [hq] at hq'
      cases hq'
  | some q =>
      have hplays := h.right q hq
      cases q with
      | ret b =>
          refine .inl ⟨fun q' hq' => ⟨b, ?_⟩, hplays.1⟩
          rw [hq] at hq'
          exact (Option.some.inj hq').symm
      | call o k =>
          right
          cases hm : (B c.rightState o).move c.toRight with
          | some x => exact .inl ⟨_, .right hq hm, rfl⟩
          | none =>
              rw [Plays] at hplays
              rcases deed_move_none hm with ⟨f, hf, hnone⟩ | ⟨r, t, hopens⟩
              · rw [hf] at hplays
                obtain ⟨m, U', hU, -⟩ := hplays
                exact .inr ⟨hnone, m, U', hU⟩
              · rw [hopens] at hplays
                obtain ⟨-, T', Ts', hTs, -⟩ := hplays
                cases hTs
      | spin => exact hplays.elim

/-- What the left is to send comes before what the right has sent since. -/
theorem Agreed.left_speaks (h : Agreed A B program P Q Q' all c T U Ts) {m : M} {U' : Transcript M}
    (hnone : c.toRight = []) (hU : U = (.left, m) :: U') : (.left, m) ∈ T ∧
      (c.toLeft = [] → T = U) := by
  rcases h.aligned with ⟨hT, -⟩ | ⟨hT, -⟩
  · rw [hnone, said_nil, List.nil_append] at hT
    exact ⟨hT ▸ hU ▸ List.mem_cons_self, fun _ => hT.symm⟩
  · refine ⟨hT ▸ List.mem_append_right _ (hU ▸ List.mem_cons_self), fun hl => ?_⟩
    rw [hT, hl, said_nil, List.nil_append]

/-- Two programs that agree get on until both have ended, and leave nobody behind. -/
theorem Agreed.progress (h : Agreed A B program P Q Q' all c T U Ts) :
    c.Ended ∨ ∃ d, Step A B program c d ∧ d.behind = c.behind := by
  rcases h.right_gets_on with ⟨hrests, hU⟩ | hstep | ⟨hnone, m, U', hU⟩
  · have hplays := h.left
    cases hp : c.left with
    | ret a => exact .inl ⟨⟨a, hp⟩, hrests⟩
    | call o k =>
        right
        rw [hp, Plays] at hplays
        cases hm : (A c.leftState o).move c.toLeft with
        | some x => exact ⟨_, .left hp hm, rfl⟩
        | none =>
            rcases deed_move_none hm with ⟨f, hf, hl⟩ | ⟨r, s, hopens⟩
            · -- nothing is on its way to the left, and the right has nothing more to send
              rw [hf] at hplays
              obtain ⟨m, T', hT, -⟩ := hplays
              rcases h.aligned with ⟨hU', -⟩ | ⟨hT', -⟩
              · rw [hU, hT] at hU'
                cases List.append_eq_nil_iff.mp hU'.symm |>.2
              · rw [hU, hl, said_nil, List.nil_append, hT] at hT'
                cases hT'
            · refine ⟨_, .opens hp hopens, ?_⟩
              rw [unfinished_nil.mpr hrests, List.append_nil]
    | spin =>
        rw [hp] at hplays
        exact hplays.elim
  · exact .inr hstep
  · obtain ⟨hmem, heq⟩ := h.left_speaks hnone hU
    have hplays := h.left
    cases hp : c.left with
    | ret a =>
        rw [hp] at hplays
        exact absurd rfl (hplays.2.1 _ hmem)
    | call o k =>
        right
        rw [hp, Plays] at hplays
        cases hm : (A c.leftState o).move c.toLeft with
        | some x => exact ⟨_, .left hp hm, rfl⟩
        | none =>
            rcases deed_move_none hm with ⟨f, hf, hl⟩ | ⟨r, s, hopens⟩
            · rw [hf] at hplays
              obtain ⟨m', T', hT, -⟩ := hplays
              have hheads := (hT.symm.trans (heq hl)).trans hU
              cases hheads
            · rw [hopens] at hplays
              exact absurd rfl (hplays.1 _ hmem)
    | spin =>
        rw [hp] at hplays
        exact hplays.elim

/-- The results are those each program has on its own. -/
theorem Agreed.ended (h : Agreed A B program P Q Q' all c T U Ts) (he : c.Ended) :
    (∃ a, c.left = .ret a ∧ Q a c.leftState) ∧
      (all ≠ [] → ∃ b, c.right = some (.ret b) ∧ Q' b c.rightState) := by
  obtain ⟨⟨a, ha⟩, hrests⟩ := he
  have hleft := h.left
  rw [ha] at hleft
  obtain ⟨hQ, -, hTs⟩ := hleft
  refine ⟨⟨a, ha, hQ⟩, fun hne => ?_⟩
  cases hq : c.right with
  | none => exact absurd ((h.before hq).2.2.1.symm.trans hTs) hne
  | some q =>
      obtain ⟨b, rfl⟩ := hrests q hq
      exact ⟨b, rfl, (h.right _ hq).2.1 hTs⟩

/-- Programs that wait for each other in vain do not get on. -/
theorem Deadlocked.stuck (h : Deadlocked A B c) :
    ¬ (c.Ended ∨ ∃ d, Step A B program c d ∧ d.behind = c.behind) := by
  obtain ⟨⟨o, k, f, hp, hf⟩, hl, ⟨o', k', f', hq, hf'⟩, hr⟩ := h
  rintro (⟨⟨a, ha⟩, -⟩ | ⟨d, hs, -⟩)
  · rw [hp] at ha
    cases ha
  · cases hs with
    | left hcall hm =>
        rw [hp] at hcall
        cases hcall
        rw [hf, hl] at hm
        cases hm
    | right hcall hm =>
        rw [hq] at hcall
        cases hcall
        rw [hf', hr] at hm
        cases hm
    | opens hcall ho =>
        rw [hp] at hcall
        cases hcall
        rw [hf] at ho
        cases ho

/-- Two programs that agree can end, in every order of their steps. -/
theorem Agreed.finishes (h : Agreed A B program P Q Q' all c T U Ts) (hb : c.behind = []) :
    ∃ d, Run A B program c d ∧ d.behind = [] ∧ d.Ended := by
  obtain ⟨d, hd⟩ : ∃ d, d = c := ⟨c, rfl⟩
  have hfinite := (wellFounded A B program).apply d
  induction hfinite generalizing c T U Ts with
  | intro d _ ih =>
      subst hd
      rcases h.progress with hended | ⟨e, hs, he⟩
      · exact ⟨d, .refl, hb, hended⟩
      · have heb := he.trans hb
        obtain ⟨T', U', Ts', h'⟩ := h.step hs heb
        obtain ⟨e', hr, hb', hended⟩ := ih e hs h' heb rfl
        exact ⟨e', .head hs hr, hb', hended⟩

/-- **Two programs that keep to the same transcripts agree**, in every order of their steps in which
none is left behind: what is sent is in the transcripts, they never wait for each other in vain, they
can always go on until both have ended, which they must come to, and there the results are those each
has on its own. -/
theorem agree {p : Prog E α} {s : σ} {t : τ}
    (hleft : Plays A .left (fun a s T Ts => Q a s ∧ (∀ x ∈ T, x.1 ≠ .left) ∧ Ts = []) p s [] Ts)
    (hright : Serves B program Q' Ts t) (hP : ∀ V ∈ Ts, ∀ x ∈ V, P x)
    (hr : Run A B program (start p s t) c) (hb : c.behind = []) :
    (∀ x ∈ c.sent, P x) ∧ ¬ Deadlocked A B c ∧ Finite A B program c ∧
      (∃ d, Run A B program c d ∧ d.behind = [] ∧ d.Ended) ∧
      (c.Ended → (∃ a, c.left = .ret a ∧ Q a c.leftState) ∧
        (Ts ≠ [] → ∃ b, c.right = some (.ret b) ∧ Q' b c.rightState)) := by
  obtain ⟨T, U, Ts', h⟩ := (agreed_start hleft hright hP).run hr hb
  exact ⟨h.sent, fun hd => hd.stuck h.progress, (wellFounded A B program).apply c, h.finishes hb,
    h.ended⟩

/-- In one conversation none is left behind. -/
theorem behind_nil {p : Prog E α} {s : σ} {t : τ} {V : Transcript M}
    (hleft : Plays A .left (fun a s T Ts => Q a s ∧ (∀ x ∈ T, x.1 ≠ .left) ∧ Ts = []) p s [] [V])
    (hright : Serves B program Q' [V] t) (hr : Run A B program (start p s t) c) : c.behind = [] :=
  (agreed_start (P := fun _ => True) hleft hright fun _ _ _ _ => trivial).run_once hr (Nat.le_refl 1) rfl

end Agreement

end Duet

end Process
