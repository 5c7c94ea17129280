import UpdateFramework.Process.Interruption

/-!
# Process — a conversation that can be interrupted

One side may interrupt the other.  As long as no request for a pause is on its way to a right that has
spoken (`Crossed`), the two never wait for each other in vain, and but for the requests they say what
they would have said without them (`Joined`).  A right that meets one there gives up (`Missed`).  So a
conversation that ends has ended as it would have without requests exactly if no request has crossed
(`interruptible_iff`).
-/

namespace Process

variable {E F : Interface} {M α β σ τ : Type}

/-- What the right says of it. -/
def fromRight (T : Transcript M) : Transcript M := T.filter fun x => x.1 = .right

theorem append_said_nil (T : Transcript M) (d : Side) : T ++ said d [] = T := List.append_nil T

@[simp] theorem fromRight_append (T U : Transcript M) :
    fromRight (T ++ U) = fromRight T ++ fromRight U :=
  List.filter_append ..

@[simp] theorem fromRight_said (ms : List M) : fromRight (said .right ms) = said .right ms := by
  simp [fromRight, said]

@[simp] theorem fromRight_left (ms : List M) : fromRight (said .left ms) = [] := by
  simp [fromRight, said]

theorem fromRight_tail {I : Interruption M} :
    fromRight (said .right [] ++ I.tail) = said .right I.after := by
  rw [said_nil, List.nil_append, Interruption.tail]
  exact fromRight_said I.after

/-- The right makes no requests. -/
theorem fromRight_main {I : Interruption M} (T : Transcript M) :
    fromRight (T.filter I.main) = fromRight T := by
  rw [fromRight, fromRight, List.filter_filter]
  refine List.filter_congr fun x _ => ?_
  obtain ⟨d, m⟩ := x
  cases d with
  | left => simp
  | right => simp [Interruption.main]

namespace Exchange

variable {A : Actor E M σ} {B : Actor F M τ} {c d : Exchange E F M α β σ τ}

/-! ### The two together -/

/-- Where the sides are in the transcript, with what is between them: the left at `T`, the right at
`U`, and what nobody has said yet is `coming`. -/
inductive Position (I : Interruption M) (toLeft toRight : List M) (T U : Transcript M) (paused : Bool)
    (h : Attention) (coming : Transcript M) : Prop where
  /-- What is on its way is from the left. -/
  | leftAhead (hl : toLeft = []) (hU : U = said .left toRight ++ T) (hp : paused = false)
      (hh : h = .free) (hc : coming = T)
  | rightAhead (hr : toRight = []) (hT : T = said .right toLeft ++ U) (hp : paused = false)
      (hh : h = .free) (hc : coming = U)
  /-- The right is speaking: what the left said before is on its way, and requests are. -/
  | speaking (before requests rest : List M) (hr : toRight = before ++ requests)
      (hT : T = said .right (toLeft ++ rest) ++ I.tail)
      (hU : U = said .left before ++ (said .right rest ++ I.tail))
      (hq : I.Between h.isHeld paused requests) (hp : paused = true → toLeft ++ rest ≠ [])
      (hb : before ≠ [] → toLeft = [] ∧ rest ≠ [] ∧ h = .free) (hh : h ≠ .free → rest ≠ [])
      (hw : h = .noticed ∨ h = .released → requests ≠ [])
      (hc : coming = said .right rest ++ I.tail)
  /-- The verdict is on its way, with requests before it. -/
  | judged (requests : List M) (hl : toLeft = []) (hr : toRight = requests ++ [I.verdict])
      (hT : T = said .right I.after) (hU : U = I.tail) (hq : I.Between false false requests)
      (hp : paused = false) (hh : h = .free) (hc : coming = T)

section Position

variable {I : Interruption M} {toLeft toRight : List M} {T U : Transcript M} {paused : Bool}
  {h : Attention} {coming : Transcript M} {m m' : M}

theorem Position.left_says (hpos : Position I toLeft toRight ((.left, m) :: T) U false h coming) :
    ∃ coming', coming = (.left, m) :: coming' ∧
      Position I toLeft (toRight ++ [m]) T U false h coming' := by
  cases hpos with
  | leftAhead hl hU hp hh hc =>
      refine ⟨T, hc, .leftAhead hl ?_ rfl hh rfl⟩
      rw [hU, said_append, List.append_assoc]
      rfl
  | rightAhead hr hT hp hh hc =>
      obtain ⟨rfl, rfl⟩ := Interruption.said_right_ne_left hT.symm
      refine ⟨T, hc, .leftAhead rfl ?_ rfl hh rfl⟩
      rw [hr]
      rfl
  | speaking before requests rest hr hT hU hq hp hb hh hw hc =>
      obtain ⟨hnone, rfl, rfl⟩ := Interruption.said_right_left hT.symm
      obtain ⟨rfl, rfl⟩ := List.append_eq_nil_iff.mp hnone
      -- what was said before has arrived, as the right has said everything
      have hbefore : before = [] := by
        by_contra hne
        exact (hb hne).2.1 rfl
      have hfree : h = .free := by
        by_contra hne
        exact hh hne rfl
      subst hbefore hfree
      refine ⟨_, hc, .judged requests rfl ?_ rfl hU hq rfl rfl rfl⟩
      rw [hr]
      rfl
  | judged requests hl hr hT hU hq hp hh hc =>
      exact absurd (hT ▸ List.mem_cons_self) Interruption.not_left_mem_said

theorem Position.left_pauses (hpos : Position I toLeft toRight T U false h coming) (hT : I.Open T)
    (hm : I.pause m = true) : Position I toLeft (toRight ++ [m]) T U true h coming := by
  obtain ⟨m₀, ms, hopen⟩ := hT
  cases hpos with
  | leftAhead hl hU hp hh hc =>
      subst hl hh
      have hT : T = said .right ([] ++ m₀ :: ms) ++ I.tail := hopen
      exact .speaking toRight [m] (m₀ :: ms) rfl hT (hopen ▸ hU) (.pause hm (.none true)) (by simp)
        (by simp) (by simp) (by simp) (hopen ▸ hc)
  | rightAhead hr hT hp hh hc =>
      subst hr hh
      obtain ⟨rest, hrest, hU⟩ := Interruption.said_right_split (hT.symm.trans hopen)
      refine .speaking [] [m] rest rfl (hrest ▸ hopen) hU (.pause hm (.none true)) ?_ (by simp)
        (by simp) (by simp) (hU ▸ hc)
      intro _
      rw [← hrest]
      exact List.cons_ne_nil _ _
  | speaking before requests rest hr hT hU hq hp hb hh hw hc =>
      have hrest := Interruption.said_right_inj (hT.symm.trans hopen)
      refine .speaking before (requests ++ [m]) rest ?_ hT hU (hq.snoc_pause hm) ?_ hb hh (by simp) hc
      · rw [hr, List.append_assoc]
      · intro _
        rw [hrest]
        exact List.cons_ne_nil _ _
  | judged requests hl hr hT hU hq hp hh hc =>
      exact (Interruption.said_ne_tail (hT.symm.trans hopen)).elim

theorem Position.left_resumes (hpos : Position I toLeft toRight T U true h coming)
    (hm : I.resume m = true) : Position I toLeft (toRight ++ [m]) T U false h coming := by
  cases hpos with
  | leftAhead hl hU hp hh hc => cases hp
  | rightAhead hr hT hp hh hc => cases hp
  | speaking before requests rest hr hT hU hq hp hb hh hw hc =>
      refine .speaking before (requests ++ [m]) rest ?_ hT hU (hq.snoc_resume hm) (by simp) hb hh
        (by simp) hc
      rw [hr, List.append_assoc]
  | judged requests hl hr hT hU hq hp hh hc => cases hp

theorem Position.left_hears
    (hpos : Position I (m :: toLeft) toRight ((.right, m') :: T) U false h coming) :
    m' = m ∧ Position I toLeft toRight T U false h coming := by
  cases hpos with
  | leftAhead hl hU hp hh hc => cases hl
  | rightAhead hr hT hp hh hc =>
      cases hT
      exact ⟨rfl, .rightAhead hr rfl rfl hh hc⟩
  | speaking before requests rest hr hT hU hq hp hb hh hw hc =>
      cases hT
      have hbefore : before = [] := by
        by_contra hne
        cases (hb hne).1
      subst hbefore
      exact ⟨rfl, .speaking [] requests rest hr rfl hU hq (by simp) (by simp) hh hw hc⟩
  | judged requests hl hr hT hU hq hp hh hc => cases hl

theorem Position.right_says (hpos : Position I toLeft toRight T ((.right, m) :: U) paused .free coming) :
    ∃ coming', coming = (.right, m) :: coming' ∧
      Position I (toLeft ++ [m]) toRight T U paused .free coming' := by
  cases hpos with
  | leftAhead hl hU hp hh hc =>
      obtain ⟨rfl, rfl⟩ := Interruption.said_left_ne_right hU.symm
      subst hl
      exact ⟨U, hc, .rightAhead rfl rfl hp rfl rfl⟩
  | rightAhead hr hT hp hh hc =>
      refine ⟨U, hc, .rightAhead hr ?_ hp rfl rfl⟩
      rw [hT, said_append, List.append_assoc]
      rfl
  | speaking before requests rest hr hT hU hq hp hb hh hw hc =>
      obtain ⟨rfl, hrest⟩ := Interruption.said_left_ne_right hU.symm
      obtain ⟨rest', rfl, rfl⟩ := Interruption.said_right_cons hrest
      refine ⟨_, hc, .speaking [] requests rest' hr ?_ rfl hq (by simp) (by simp) (by simp) (by simp)
        rfl⟩
      rw [hT, List.append_assoc]
      rfl
  | judged requests hl hr hT hU hq hp hh hc => cases hU

/-- What the right hears is what it waits for, or a request that comes too late. -/
theorem Position.right_hears
    (hpos : Position I toLeft (m :: toRight) T ((.left, m') :: U) paused .free coming) :
    (m' = m ∧ Position I toLeft toRight T U paused .free coming) ∨
      ((.left, m') :: U = I.tail ∧ I.pause m = true ∧ coming <:+ I.tail) := by
  cases hpos with
  | leftAhead hl hU hp hh hc =>
      cases hU
      exact .inl ⟨rfl, .leftAhead hl rfl hp rfl hc⟩
  | rightAhead hr hT hp hh hc => cases hr
  | speaking before requests rest hr hT hU hq hp hb hh hw hc =>
      cases before with
      | nil =>
          obtain ⟨rfl, rfl, rfl⟩ := Interruption.said_right_left hU.symm
          subst hr
          rw [List.append_nil] at hT hp
          cases hq with
          | pause hm hq => exact .inr ⟨rfl, hm, hc ▸ List.suffix_refl _⟩
      | cons n before =>
          cases hU
          obtain ⟨rfl, rfl⟩ := List.cons.inj hr
          obtain ⟨hl, hrest, -⟩ := hb (List.cons_ne_nil _ _)
          exact .inl ⟨rfl, .speaking before requests rest rfl hT rfl hq hp
            (fun _ => ⟨hl, hrest, rfl⟩) (by simp) (by simp) hc⟩
  | judged requests hl hr hT hU hq hp hh hc =>
      cases requests with
      | nil =>
          obtain ⟨rfl, rfl⟩ := List.cons.inj hr
          cases hU
          exact .inl ⟨rfl, .rightAhead rfl (by rw [hT, hl]; rfl) hp rfl (hc.trans hT)⟩
      | cons n requests =>
          obtain ⟨rfl, rfl⟩ := List.cons.inj hr
          cases hq with
          | pause hm hq =>
              refine .inr ⟨hU, hm, ?_⟩
              rw [hc, hT]
              exact List.suffix_cons ..

/-- While the right attends to a request, there is nothing but requests on the way to it. -/
theorem Position.attending (hpos : Position I toLeft toRight T U paused h coming) (hh : h ≠ .free) :
    I.Between h.isHeld paused toRight ∧ (h = .noticed ∨ h = .released → toRight ≠ []) ∧
      ∀ (h' : Attention) (requests : List M), I.Between h'.isHeld paused requests →
        (h' = .noticed ∨ h' = .released → requests ≠ []) →
          Position I toLeft requests T U paused h' coming := by
  cases hpos with
  | leftAhead _ _ _ hfree _ => exact absurd hfree hh
  | rightAhead _ _ _ hfree _ => exact absurd hfree hh
  | judged _ _ _ _ _ _ _ hfree _ => exact absurd hfree hh
  | speaking before requests rest hr hT hU hq hp hb hrest hw hc =>
      have hbefore : before = [] := by
        by_contra hne
        exact hh (hb hne).2.2
      subst hbefore hr
      exact ⟨hq, hw, fun h' requests hq' hw' =>
        .speaking [] requests rest rfl hT hU hq' hp (by simp) (fun _ => hrest hh) hw' hc⟩

theorem Position.right_notices (hpos : Position I toLeft (m :: toRight) T U paused .noticed coming) :
    I.pause m = true ∧ Position I toLeft toRight T U paused .held coming := by
  obtain ⟨hq, -, hgo⟩ := hpos.attending (by simp)
  cases hq with
  | pause hm hq => exact ⟨hm, hgo .held toRight hq (by simp)⟩

theorem Position.right_resumes (hpos : Position I toLeft (m :: toRight) T U paused .released coming) :
    I.resume m = true ∧ Position I toLeft toRight T U paused .free coming := by
  obtain ⟨hq, -, hgo⟩ := hpos.attending (by simp)
  cases hq with
  | resume hm hq => exact ⟨hm, hgo .free toRight hq (by simp)⟩

theorem Position.right_waits (hpos : Position I toLeft toRight T U paused .held coming)
    (hne : toRight ≠ []) : Position I toLeft toRight T U paused .released coming := by
  obtain ⟨hq, -, hgo⟩ := hpos.attending (by simp)
  exact hgo .released toRight hq fun _ => hne

theorem Position.right_sees (hpos : Position I toLeft toRight T U paused .free coming)
    (hU : I.Open U) (hne : toRight ≠ []) : Position I toLeft toRight T U paused .noticed coming := by
  obtain ⟨m, ms, hopen⟩ := hU
  cases hpos with
  | leftAhead hl hU hp hh hc =>
      exact absurd (Interruption.said_left_ne_right (hU.symm.trans hopen)).1 hne
  | rightAhead hr hT hp hh hc => exact absurd hr hne
  | speaking before requests rest hr hT hU hq hp hb hh hw hc =>
      obtain ⟨rfl, hrest⟩ := Interruption.said_left_ne_right (hU.symm.trans hopen)
      have hspoken : rest = m :: ms := Interruption.said_right_inj hrest
      subst hspoken hr
      exact .speaking [] _ _ rfl hT hU hq hp (by simp) (by simp) (fun _ => hne) hc
  | judged requests hl hr hT hU hq hp hh hc => cases hU.symm.trans hopen

/-- Once the right has nothing more to hear or to say, all has been said. -/
theorem Position.over (hpos : Position I toLeft toRight T [] paused h coming) :
    toRight = [] ∧ T = said .right toLeft ∧ coming = [] ∧ paused = false := by
  cases hpos with
  | leftAhead hl hU hp hh hc =>
      obtain ⟨hr, rfl⟩ := List.append_eq_nil_iff.mp hU.symm
      rw [said, List.map_eq_nil_iff] at hr
      exact ⟨hr, by rw [hl]; rfl, hc, hp⟩
  | rightAhead hr hT hp hh hc => exact ⟨hr, hT.trans (List.append_nil _), hc, hp⟩
  | speaking before requests rest hr hT hU hq hp hb hh hw hc =>
      have htail := (List.append_eq_nil_iff.mp (List.append_eq_nil_iff.mp hU.symm).2).2
      cases htail
  | judged requests hl hr hT hU hq hp hh hc => cases hU

/-- The sides do not wait for each other. -/
theorem Position.not_both_wait (hpos : Position I [] [] ((.right, m) :: T) ((.left, m') :: U) false h
    coming) : False := by
  cases hpos with
  | leftAhead hl hU hp hh hc => cases hU
  | rightAhead hr hT hp hh hc => cases hT
  | speaking before requests rest hr hT hU hq hp hb hh hw hc =>
      obtain ⟨rfl, rfl⟩ := List.append_eq_nil_iff.mp hr.symm
      obtain ⟨rfl, -⟩ := Interruption.said_right_left hU.symm
      cases hT
  | judged requests hl hr hT hU hq hp hh hc => cases (List.append_eq_nil_iff.mp hr.symm).2

/-- What the right waits for has not been said yet, if it is not on its way. -/
theorem Position.left_to_speak
    (hpos : Position I toLeft [] T ((.left, m) :: U) paused .free coming) : (.left, m) ∈ T := by
  cases hpos with
  | leftAhead hl hU hp hh hc =>
      have hT : (.left, m) :: U = T := hU
      exact hT ▸ List.mem_cons_self
  | rightAhead hr hT hp hh hc =>
      rw [hT]
      exact List.mem_append_right _ List.mem_cons_self
  | speaking before requests rest hr hT hU hq hp hb hh hw hc =>
      obtain ⟨rfl, rfl⟩ := List.append_eq_nil_iff.mp hr.symm
      obtain ⟨rfl, rfl, -⟩ := Interruption.said_right_left hU.symm
      rw [hT]
      exact List.mem_append_right _ List.mem_cons_self
  | judged requests hl hr hT hU hq hp hh hc => cases (List.append_eq_nil_iff.mp hr.symm).2

/-- Nobody attends to requests where there are none. -/
theorem Position.free_of_silence (hpos : Position I toLeft [] T U false h coming) : h = .free := by
  by_contra hh
  obtain ⟨hq, hw, -⟩ := hpos.attending hh
  cases h with
  | free => exact hh rfl
  | noticed => exact hw (.inl rfl) rfl
  | released => exact hw (.inr rfl) rfl
  | held => cases hq

/-- Once the left has heard everything, the right has nothing to say. -/
theorem Position.right_silent
    (hpos : Position I toLeft toRight [] ((.right, m) :: U) paused h coming) : False := by
  cases hpos with
  | leftAhead hl hU hp hh hc => cases (Interruption.said_left_ne_right hU.symm).2
  | rightAhead hr hT hp hh hc => cases (List.append_eq_nil_iff.mp hT.symm).2
  | speaking before requests rest hr hT hU hq hp hb hh hw hc =>
      cases (List.append_eq_nil_iff.mp hT.symm).2
  | judged requests hl hr hT hU hq hp hh hc => cases hU

/-- Where the right has spoken, a pause on its way is the next it hears. -/
theorem Position.pause_first (hpos : Position I toLeft toRight T U paused h coming)
    (hU : ∀ x ∈ U, I.main x = true) (hspoken : coming <:+ I.tail) (hm : m ∈ toRight)
    (hpause : I.pause m = true) :
    h = .free ∧ U = I.tail ∧ fromRight coming = said .right I.after ∧
      ∃ n ns, toRight = n :: ns ∧ I.pause n = true := by
  -- what is no request is not a pause
  have hno : ∀ {n}, (.left, n) ∈ U → n ≠ m := by
    rintro n hn rfl
    rw [Interruption.pause_of_main (hU _ hn)] at hpause
    cases hpause
  have hfirst : ∀ {b : Bool} {requests : List M}, I.Between false b requests → m ∈ requests →
      ∃ n ns, requests = n :: ns ∧ I.pause n = true := by
    intro b requests hq hin
    cases hq with
    | none => cases hin
    | pause hn hq => exact ⟨_, _, rfl, hn⟩
  cases hpos with
  | leftAhead hl hU' hp hh hc =>
      refine absurd rfl (hno (n := m) ?_)
      rw [hU']
      exact List.mem_append_left _ (List.mem_map_of_mem hm)
  | rightAhead hr hT hp hh hc =>
      rw [hr] at hm
      cases hm
  | speaking before requests rest hr hT hU' hq hp hb hh hw hc =>
      have hrest : rest = [] := by
        rw [hc] at hspoken
        have hle := hspoken.length_le
        rw [List.length_append, said, List.length_map] at hle
        exact List.eq_nil_of_length_eq_zero (by omega)
      subst hrest
      have hbefore : before = [] := by
        by_contra hne
        exact (hb hne).2.1 rfl
      have hfree : h = .free := by
        by_contra hne
        exact hh hne rfl
      subst hbefore hfree hr
      refine ⟨rfl, hU', ?_, hfirst hq hm⟩
      rw [hc]
      exact fromRight_tail
  | judged requests hl hr hT hU' hq hp hh hc =>
      rw [hr] at hm ⊢
      rcases List.mem_append.mp hm with hm | hm
      · obtain ⟨n, ns, rfl, hn⟩ := hfirst hq hm
        exact ⟨hh, hU', by rw [hc, hT, fromRight_said], n, _, rfl, hn⟩
      · refine absurd (List.mem_singleton.mp hm).symm (hno ?_)
        rw [hU']
        exact List.mem_cons_self

end Position

/-! ### Together -/

/-- What holds of both sides where no request has crossed: they are at `T` and at `U` of the
transcript `all`. -/
structure Joined (A : Actor E M σ) (B : Actor F M τ) (I : Interruption M) (Q : α → σ → Prop)
    (Q' Late : β → τ → Prop) (all : Transcript M) (c : Exchange E F M α β σ τ)
    (T U coming : Transcript M) (paused : Bool) (h : Attention) : Prop where
  left : Interrupts A I (Settled Q) c.left c.leftState T paused
  right : Holds B I (Finished Q') Late c.right c.rightState U h
  position : Position I c.toLeft c.toRight T U paused h coming
  main : ∀ x ∈ U, I.main x = true
  sent : c.sent.filter I.main ++ coming = all

/-- A pause is on its way to a right that has spoken. -/
def Crossed (I : Interruption M) (all : Transcript M) (c : Exchange E F M α β σ τ) : Prop :=
  (∃ rest, rest <:+ I.tail ∧ c.sent.filter I.main ++ rest = all) ∧
    ∃ m ∈ c.toRight, I.pause m = true

section Joined

variable {I : Interruption M} {Q : α → σ → Prop} {Q' Late : β → τ → Prop}
  {all T U coming : Transcript M} {paused : Bool} {h : Attention}

/-- What is said next, if it is no request, is what is coming. -/
theorem sent_main {sent : Transcript M} {x : Side × M}
    (h : sent.filter I.main ++ x :: coming = all) (hx : I.main x = true) :
    (sent ++ [x]).filter I.main ++ coming = all := by
  rw [List.filter_append, List.filter_cons_of_pos hx, List.filter_nil, List.append_assoc]
  exact h

theorem sent_request {sent : Transcript M} {x : Side × M}
    (h : sent.filter I.main ++ coming = all) (hx : I.main x = false) :
    (sent ++ [x]).filter I.main ++ coming = all := by
  rw [List.filter_append, List.filter_cons_of_neg (by rw [hx]; exact Bool.false_ne_true),
    List.filter_nil, List.append_nil]
  exact h

/-- A right that has ended has said everything, and left nothing to be said. -/
theorem Joined.right_over (hj : Joined A B I Q Q' Late all c T U coming paused h)
    (hover : c.right.over = true) : T = said .right c.toLeft ∧ paused = false := by
  obtain ⟨b, hb⟩ := Prog.over_iff.mp hover
  have hright := hj.right
  rw [hb] at hright
  obtain ⟨-, rfl, -⟩ := hright
  exact ⟨hj.position.over.2.1, hj.position.over.2.2.2⟩

/-- A left that has ended has heard everything. -/
theorem Joined.left_over (hj : Joined A B I Q Q' Late all c T U coming paused h)
    (hover : c.left.over = true) : T = [] ∧ paused = false := by
  obtain ⟨a, ha⟩ := Prog.over_iff.mp hover
  have hleft := hj.left
  rw [ha] at hleft
  exact ⟨hleft.2.1, hleft.1⟩

theorem Joined.left_step (hj : Joined A B I Q Q' Late all c T U coming paused h)
    (hall : ∀ x ∈ all, I.main x = true) {o : E.Op} {k : E.Res o → Prog E α} {lucky : Bool}
    {r : E.Res o} {s : σ} {ms out : List M} (hcall : c.left = .call o k)
    (hm : (A c.leftState o).move c.right.over lucky c.toLeft = some (r, s, ms, out)) :
    ∃ T U coming paused h, Joined A B I Q Q' Late all
      ⟨k r, s, c.right, c.rightState, ms, c.toRight ++ out, c.sent ++ said .left out⟩
      T U coming paused h := by
  have hl := hj.left
  rw [hcall, interrupts_call] at hl
  cases hact : A c.leftState o with
  | does r' s' =>
      rw [hact] at hl hm
      cases hm
      refine ⟨T, U, coming, paused, h, hl, hj.right, ?_, hj.main, ?_⟩
      · rw [List.append_nil]
        exact hj.position
      · rw [append_said_nil]
        exact hj.sent
  | sends m r' s' lost =>
      rw [hact] at hl hm
      -- the right is there, as there is something to say to it
      have hthere : c.right.over = false := by
        by_contra hover
        obtain ⟨hT, hp⟩ := hj.right_over (Bool.of_not_eq_false hover)
        subst hp
        rcases hl with ⟨T', hT', -⟩ | ⟨-, ⟨n, ns, hopen⟩, -⟩
        · exact Interruption.not_left_mem_said (hT ▸ hT' ▸ List.mem_cons_self)
        · exact Interruption.said_ne_tail (hT.symm.trans hopen)
      rw [hthere, Act.move, Bool.false_and, if_neg Bool.false_ne_true] at hm
      cases hm
      cases paused with
      | true =>
          obtain ⟨hres, hl⟩ := hl
          exact ⟨T, U, coming, false, h, hl, hj.right, hj.position.left_resumes hres, hj.main,
            sent_request hj.sent (Interruption.main_resume hres)⟩
      | false =>
          rcases hl with ⟨T', rfl, hl⟩ | ⟨hpause, hopen, hl⟩
          · obtain ⟨coming', rfl, hpos'⟩ := hj.position.left_says
            have hmain := hall _ (hj.sent ▸ List.mem_append_right _ List.mem_cons_self)
            exact ⟨T', U, coming', false, h, hl, hj.right, hpos', hj.main, sent_main hj.sent hmain⟩
          · exact ⟨T, U, coming, true, h, hl, hj.right, hj.position.left_pauses hopen hpause, hj.main,
              sent_request hj.sent (Interruption.main_pause hpause)⟩
  | takes f gone =>
      rw [hact] at hl hm
      obtain ⟨rfl, m', T', rfl, hl⟩ := hl
      cases hms : c.toLeft with
      | cons m ms' =>
          rw [hms] at hm
          cases hm
          have hpos := hj.position
          rw [hms] at hpos
          obtain ⟨rfl, hpos'⟩ := hpos.left_hears
          refine ⟨T', U, coming, false, h, hl, hj.right, ?_, hj.main, ?_⟩
          · rw [List.append_nil]
            exact hpos'
          · rw [append_said_nil]
            exact hj.sent
      | nil =>
          rw [hms, Act.move] at hm
          cases hover : c.right.over with
          | false =>
              rw [hover] at hm
              cases hm
          | true =>
              have hT := (hj.right_over hover).1
              rw [hms] at hT
              cases hT
  | asks f =>
      rw [hact] at hl
      exact hl.elim
  | awaits r' s' =>
      rw [hact] at hl
      exact hl.elim

/-- What the right does, where no request has crossed. -/
theorem Joined.right_step (hj : Joined A B I Q Q' Late all c T U coming paused h)
    (hclear : ¬ Crossed I all c) {o : F.Op} {k : F.Res o → Prog F β} {lucky : Bool} {r : F.Res o}
    {t : τ} {ms out : List M} (hcall : c.right = .call o k)
    (hm : (B c.rightState o).move c.left.over lucky c.toRight = some (r, t, ms, out)) :
    ∃ T U coming paused h, Joined A B I Q Q' Late all
      ⟨c.left, c.leftState, k r, t, c.toLeft ++ out, ms, c.sent ++ said .right out⟩
      T U coming paused h := by
  have hr := hj.right
  rw [hcall, holds_call] at hr
  -- a step in which nothing is said or heard
  have hquiet : ∀ {U' h'}, Holds B I (Finished Q') Late (k r) t U' h' → U' = U →
      ms = c.toRight → out = [] → Position I c.toLeft c.toRight T U paused h' coming →
      ∃ T U coming paused h, Joined A B I Q Q' Late all
        ⟨c.left, c.leftState, k r, t, c.toLeft ++ out, ms, c.sent ++ said .right out⟩
        T U coming paused h := by
    rintro U' h' hk rfl rfl rfl hpos
    refine ⟨T, U', coming, paused, h', hj.left, hk, ?_, hj.main, ?_⟩
    · rw [List.append_nil]
      exact hpos
    · rw [append_said_nil]
      exact hj.sent
  -- one in which something is heard
  have hheard : ∀ {U' h'}, Holds B I (Finished Q') Late (k r) t U' h' → (∀ x ∈ U', x ∈ U) →
      out = [] → Position I c.toLeft ms T U' paused h' coming →
      ∃ T U coming paused h, Joined A B I Q Q' Late all
        ⟨c.left, c.leftState, k r, t, c.toLeft ++ out, ms, c.sent ++ said .right out⟩
        T U coming paused h := by
    rintro U' h' hk hU' rfl hpos
    refine ⟨T, U', coming, paused, h', hj.left, hk, ?_, fun x hx => hj.main x (hU' x hx), ?_⟩
    · rw [List.append_nil]
      exact hpos
    · rw [append_said_nil]
      exact hj.sent
  cases hact : B c.rightState o with
  | does r' t' =>
      rw [hact] at hr hm
      cases hm
      exact hquiet hr rfl rfl rfl hj.position
  | sends m r' t' lost =>
      rw [hact] at hr hm
      obtain ⟨rfl, U', rfl, hr⟩ := hr
      -- the left is there, as it has not heard everything
      have hthere : c.left.over = false := by
        by_contra hover
        obtain ⟨rfl, -⟩ := hj.left_over (Bool.of_not_eq_false hover)
        exact hj.position.right_silent
      rw [hthere, Act.move, Bool.false_and, if_neg Bool.false_ne_true] at hm
      cases hm
      obtain ⟨coming', rfl, hpos'⟩ := hj.position.right_says
      exact ⟨T, U', coming', paused, .free, hj.left, hr, hpos',
        fun x hx => hj.main x (List.mem_cons_of_mem _ hx),
        sent_main hj.sent (Interruption.main_right m)⟩
  | takes f gone =>
      rw [hact] at hr hm
      cases hms : c.toRight with
      | nil =>
          -- a left that has ended has nothing more to say
          rw [hms, Act.move] at hm
          have hpos := hj.position
          rw [hms] at hpos
          cases hover : c.left.over with
          | false =>
              rw [hover] at hm
              cases hm
          | true =>
              obtain ⟨rfl, rfl⟩ := hj.left_over hover
              cases hpos.free_of_silence
              obtain ⟨m', U', rfl, -⟩ := hr
              cases hpos.left_to_speak
      | cons m ms' =>
          rw [hms] at hm
          cases hm
          have hpos := hj.position
          rw [hms] at hpos
          cases h with
          | free =>
              obtain ⟨m', U', rfl, hr, -⟩ := hr
              rcases hpos.right_hears with ⟨rfl, hpos'⟩ | ⟨-, hpause, hspoken⟩
              · exact hheard hr (fun x hx => List.mem_cons_of_mem _ hx) rfl hpos'
              · refine absurd ⟨⟨coming, hspoken, hj.sent⟩, m, ?_, hpause⟩ hclear
                rw [hms]
                exact List.mem_cons_self
          | noticed =>
              obtain ⟨hpause, hpos'⟩ := hpos.right_notices
              exact hheard (hr m hpause) (fun x hx => hx) rfl hpos'
          | held => exact hr.elim
          | released =>
              obtain ⟨hresume, hpos'⟩ := hpos.right_resumes
              exact hheard (hr m hresume) (fun x hx => hx) rfl hpos'
  | asks f =>
      rw [hact] at hr hm
      obtain ⟨rfl, hopen, hunseen, hseen⟩ := hr
      rw [Act.move] at hm
      cases hsees : lucky && !c.toRight.isEmpty with
      | false =>
          rw [hsees] at hm
          cases hm
          exact hquiet hunseen rfl rfl rfl hj.position
      | true =>
          rw [hsees] at hm
          cases hm
          have hne : c.toRight ≠ [] := by
            intro hnil
            rw [hnil] at hsees
            simp at hsees
          exact hquiet hseen rfl rfl rfl (hj.position.right_sees hopen hne)
  | awaits r' t' =>
      rw [hact] at hr hm
      obtain ⟨rfl, hr⟩ := hr
      cases hms : c.toRight with
      | nil =>
          rw [hms] at hm
          cases hm
      | cons m ms' =>
          have hne : c.toRight ≠ [] := by
            rw [hms]
            exact List.cons_ne_nil _ _
          rw [Act.move, hms, if_neg (by simp)] at hm
          cases hm
          exact hquiet hr rfl hms.symm rfl (hj.position.right_waits hne)

/-- A step leaves the sides together, where no request has crossed. -/
theorem Joined.step (hall : ∀ x ∈ all, I.main x = true) (hclear : ¬ Crossed I all c)
    (hj : Joined A B I Q Q' Late all c T U coming paused h) (hs : Step A B c d) :
    ∃ T U coming paused h, Joined A B I Q Q' Late all d T U coming paused h := by
  cases hs with
  | left hcall hm => exact hj.left_step hall hcall hm
  | right hcall hm => exact hj.right_step hclear hcall hm

/-! ### Waiting -/

/-- An operation that cannot be done now waits for a message. -/
theorem act_stuck {R : Type} {x : Act M σ R} {ended : Bool} {ms : List M}
    (h : x.move ended true ms = none) :
    ms = [] ∧ ((∃ r s, x = .awaits r s) ∨ (ended = false ∧ ∃ f gone, x = .takes f gone)) := by
  cases x with
  | does r s => cases h
  | sends m r s lost =>
      rw [Act.move] at h
      split at h
      · cases h
      · cases h
  | asks f => cases h
  | takes f gone =>
      cases ms with
      | nil =>
          cases ended with
          | false => exact ⟨rfl, .inr ⟨rfl, f, gone, rfl⟩⟩
          | true => cases h
      | cons m ms => cases h
  | awaits r s =>
      cases ms with
      | nil => exact ⟨rfl, .inl ⟨r, s, rfl⟩⟩
      | cons m ms => cases h

/-- A left that cannot go on waits for the right, which has not ended. -/
theorem Joined.left_stuck (hj : Joined A B I Q Q' Late all c T U coming paused h) :
    c.left.over = true ∨ (∃ d, Step A B c d) ∨
      (c.toLeft = [] ∧ c.right.over = false ∧ paused = false ∧ ∃ m T', T = (.right, m) :: T') := by
  have hl := hj.left
  cases hp : c.left with
  | ret a => exact .inl rfl
  | call o k =>
      right
      cases hm : (A c.leftState o).move c.right.over true c.toLeft with
      | some x => exact .inl ⟨_, .left hp hm⟩
      | none =>
          rw [hp, interrupts_call] at hl
          obtain ⟨hnone, ⟨r, s', hact⟩ | ⟨hended, f, gone, hact⟩⟩ := act_stuck hm
          · rw [hact] at hl
            exact hl.elim
          · rw [hact] at hl
            obtain ⟨hpaused, m, T', hT, -⟩ := hl
            exact .inr ⟨hnone, hended, hpaused, m, T', hT⟩
  | spin =>
      rw [hp] at hl
      exact hl.elim

/-- A right that cannot go on waits for a request, or for what the left is to say. -/
theorem Joined.right_stuck (hj : Joined A B I Q Q' Late all c T U coming paused h) :
    c.right.over = true ∨ (∃ d, Step A B c d) ∨
      (c.toRight = [] ∧ (h ≠ .free ∨ c.left.over = false ∧ ∃ m U', U = (.left, m) :: U')) := by
  have hr := hj.right
  cases hq : c.right with
  | ret b => exact .inl rfl
  | call o k =>
      right
      cases hm : (B c.rightState o).move c.left.over true c.toRight with
      | some x => exact .inl ⟨_, .right hq hm⟩
      | none =>
          rw [hq, holds_call] at hr
          obtain ⟨hnone, ⟨r, t', hact⟩ | ⟨hended, f, gone, hact⟩⟩ := act_stuck hm
          · rw [hact] at hr
            exact .inr ⟨hnone, .inl (by rw [hr.1]; decide)⟩
          · rw [hact] at hr
            by_cases hfree : h = .free
            · subst hfree
              obtain ⟨m, U', hU, -⟩ := hr
              exact .inr ⟨hnone, .inr ⟨hended, m, U', hU⟩⟩
            · exact .inr ⟨hnone, .inl hfree⟩
  | spin =>
      rw [hq] at hr
      exact hr.elim

/-- The two get on until both have ended. -/
theorem Joined.progress (hj : Joined A B I Q Q' Late all c T U coming paused h) :
    c.Ended ∨ ∃ d, Step A B c d := by
  have hpos := hj.position
  rcases hj.left_stuck with hp | hstep | ⟨hl, hthere, rfl, m, T', rfl⟩
  · obtain ⟨-, rfl⟩ := hj.left_over hp
    rcases hj.right_stuck with hq | hstep | ⟨hr, hh | ⟨hthere, -⟩⟩
    · exact .inl ⟨Prog.over_iff.mp hp, Prog.over_iff.mp hq⟩
    · exact .inr hstep
    · rw [hr] at hpos
      exact absurd hpos.free_of_silence hh
    · rw [hp] at hthere
      cases hthere
  · exact .inr hstep
  · rcases hj.right_stuck with hq | hstep | ⟨hr, hh | ⟨-, m', U', rfl⟩⟩
    · rw [hq] at hthere
      cases hthere
    · exact .inr hstep
    · rw [hr] at hpos
      exact absurd hpos.free_of_silence hh
    · rw [hl, hr] at hpos
      exact hpos.not_both_wait.elim

/-- Both have ended as they would have without requests, and have said what they would have said; all
has been heard. -/
structure Undisturbed (I : Interruption M) (Q : α → σ → Prop) (Q' : β → τ → Prop)
    (all : Transcript M) (c : Exchange E F M α β σ τ) : Prop where
  sent : c.sent.filter I.main = all
  left : ∃ a, c.left = .ret a ∧ Q a c.leftState
  right : ∃ b, c.right = .ret b ∧ Q' b c.rightState
  toLeft : c.toLeft = []
  toRight : c.toRight = []

/-- The results, where no request has crossed. -/
theorem Joined.ended (hj : Joined A B I Q Q' Late all c T U coming paused h) (he : c.Ended) :
    Undisturbed I Q Q' all c := by
  obtain ⟨⟨a, ha⟩, b, hb⟩ := he
  have hl := hj.left
  have hr := hj.right
  rw [ha] at hl
  rw [hb] at hr
  obtain ⟨-, rfl, hQ⟩ := hl
  obtain ⟨-, rfl, hQ'⟩ := hr
  obtain ⟨htoRight, htoLeft, rfl, -⟩ := hj.position.over
  have hsent := hj.sent
  rw [List.append_nil] at hsent
  exact ⟨hsent, ⟨a, ha, hQ⟩, ⟨b, hb, hQ'⟩, List.map_eq_nil_iff.mp htoLeft.symm, htoRight⟩

/-! ### Apart -/

/-- What the right has said is what the transcript says before the verdict. -/
def Spoken (I : Interruption M) (all : Transcript M) (c : Exchange E F M α β σ τ) : Prop :=
  fromRight c.sent ++ said .right I.after = fromRight all

/-- A right that is about to hear a pause instead of the verdict, or has heard one. -/
inductive Missed (B : Actor F M τ) (I : Interruption M) (Q' Late : β → τ → Prop)
    (all : Transcript M) (c : Exchange E F M α β σ τ) : Prop where
  | waits (m : M) (ms : List M)
      (hr : Holds B I (Finished Q') Late c.right c.rightState I.tail .free)
      (hms : c.toRight = m :: ms) (hm : I.pause m = true) (hspoken : Spoken I all c)
  | quits (hr : Quits B Late c.right c.rightState) (hspoken : Spoken I all c)

/-- A request that has crossed will be missed. -/
theorem Joined.missed (hj : Joined A B I Q Q' Late all c T U coming paused h)
    (hcrossed : Crossed I all c) : Missed B I Q' Late all c := by
  obtain ⟨⟨rest, hrest, hsent⟩, m, hm, hpause⟩ := hcrossed
  have hcoming : coming = rest := List.append_cancel_left (hj.sent.trans hsent.symm)
  obtain ⟨rfl, rfl, hafter, n, ns, hns, hn⟩ :=
    hj.position.pause_first hj.main (hcoming ▸ hrest) hm hpause
  refine .waits n ns hj.right hns hn ?_
  rw [Spoken, ← hj.sent, fromRight_append, fromRight_main, hafter]

theorem Missed.step (hc : Missed B I Q' Late all c) (hs : Step A B c d) :
    Missed B I Q' Late all d := by
  cases hs with
  | @left o k lucky r s ms out hcall hm =>
      have hsaid : ∀ hspoken : Spoken I all c, Spoken I all
          (⟨k r, s, c.right, c.rightState, ms, c.toRight ++ out, c.sent ++ said .left out⟩ :
            Exchange E F M α β σ τ) := by
        intro hspoken
        rw [Spoken, fromRight_append, fromRight_left, List.append_nil]
        exact hspoken
      cases hc with
      | waits m ms' hr hms hm hspoken =>
          refine .waits m (ms' ++ out) hr ?_ hm (hsaid hspoken)
          rw [hms]
          rfl
      | quits hr hspoken => exact .quits hr (hsaid hspoken)
  | @right o k lucky r t ms out hcall hm =>
      cases hc with
      | waits m ms' hr hms hpause hspoken =>
          rw [hcall, holds_call] at hr
          cases hact : B c.rightState o with
          | does r' t' =>
              rw [hact] at hr hm
              cases hm
              refine .waits m ms' hr hms hpause ?_
              rw [Spoken, append_said_nil]
              exact hspoken
          | sends m' r' t' lost =>
              rw [hact] at hr
              obtain ⟨-, U', hU, -⟩ := hr
              cases hU
          | takes f gone =>
              rw [hact] at hr hm
              rw [hms] at hm
              cases hm
              obtain ⟨-, -, -, -, hlate⟩ := hr
              refine .quits (hlate rfl m hpause) ?_
              rw [Spoken, append_said_nil]
              exact hspoken
          | asks f =>
              rw [hact] at hr
              obtain ⟨-, ⟨n, ns, hopen⟩, -⟩ := hr
              cases hopen
          | awaits r' t' =>
              rw [hact] at hr
              cases hr.1
      | quits hr hspoken =>
          rw [hcall, quits_call] at hr
          cases hact : B c.rightState o with
          | does r' t' =>
              rw [hact] at hr hm
              cases hm
              refine .quits hr ?_
              rw [Spoken, append_said_nil]
              exact hspoken
          | sends | takes | asks | awaits =>
              rw [hact] at hr
              exact hr.elim

/-- The right has given up in the end. -/
theorem Missed.ended (hc : Missed B I Q' Late all c) (he : c.Ended) :
    Spoken I all c ∧ ∃ b, c.right = .ret b ∧ Late b c.rightState := by
  obtain ⟨-, b, hb⟩ := he
  cases hc with
  | waits m ms hr hms hm hspoken =>
      rw [hb] at hr
      obtain ⟨-, hU, -⟩ := hr
      cases hU
  | quits hr hspoken =>
      rw [hb] at hr
      exact ⟨hspoken, b, hb, hr⟩

/-! ### Runs -/

/-- What has been missed is missed for good. -/
theorem Missed.run (hc : Missed B I Q' Late all c) {path : List (Exchange E F M α β σ τ)}
    (hpath : (c :: path).IsChain (Step A B)) (hd : (c :: path).getLast (List.cons_ne_nil _ _) = d) :
    Missed B I Q' Late all d := by
  induction path generalizing c with
  | nil => exact hd ▸ hc
  | cons e path ih =>
      rw [List.isChain_cons_cons] at hpath
      exact ih (hc.step hpath.1) hpath.2 hd

/-- Where no request has crossed in a run, the sides are together in all of it; and one that has crossed
has been missed. -/
theorem joined_or_missed (hall : ∀ x ∈ all, I.main x = true)
    (hc : ∃ T U coming paused h, Joined A B I Q Q' Late all c T U coming paused h)
    {path : List (Exchange E F M α β σ τ)} (hpath : (c :: path).IsChain (Step A B))
    (hd : (c :: path).getLast (List.cons_ne_nil _ _) = d) :
    (∀ x ∈ c :: path, ¬ Crossed I all x ∧
      ∃ T U coming paused h, Joined A B I Q Q' Late all x T U coming paused h) ∨
    ((∃ x ∈ c :: path, Crossed I all x) ∧ Missed B I Q' Late all d) := by
  by_cases hcrossed : Crossed I all c
  · obtain ⟨T, U, coming, paused, h, hj⟩ := hc
    exact .inr ⟨⟨c, List.mem_cons_self, hcrossed⟩, (hj.missed hcrossed).run hpath hd⟩
  · induction path generalizing c with
    | nil =>
        refine .inl fun x hx => ?_
        rw [List.mem_singleton.mp hx]
        exact ⟨hcrossed, hc⟩
    | cons e path ih =>
        rw [List.isChain_cons_cons] at hpath
        obtain ⟨T, U, coming, paused, h, hj⟩ := hc
        have he := hj.step hall hcrossed hpath.1
        by_cases hcrossed' : Crossed I all e
        · obtain ⟨T', U', coming', paused', h', hj'⟩ := he
          exact .inr ⟨⟨e, List.mem_cons_of_mem _ List.mem_cons_self, hcrossed'⟩,
            (hj'.missed hcrossed').run hpath.2 hd⟩
        · rcases ih he hpath.2 hd hcrossed' with hclear | ⟨⟨x, hx, hcross⟩, hlast⟩
          · refine .inl fun x hx => ?_
            rcases List.mem_cons.mp hx with rfl | hx
            · exact ⟨hcrossed, T, U, coming, paused, h, hj⟩
            · exact hclear x hx
          · exact .inr ⟨⟨x, List.mem_cons_of_mem _ hx, hcross⟩, hlast⟩

/-- **A conversation that can be interrupted.**  As long as no request has crossed, what has been said
is what the transcript says but for the requests, and the two can go on until both have ended.  A
conversation that has ended has done so as it would have without requests if and only if no request
has crossed in it; where one has, the right has given up. -/
theorem interruptible_iff {p : Prog E α} {s : σ} {q : Prog F β} {t : τ}
    (hl : Interrupts A I (Settled Q) p s all false) (hr : Holds B I (Finished Q') Late q t all .free)
    (hall : ∀ x ∈ all, I.main x = true) (hafter : I.after ≠ [])
    (hc : c = start p s q t) {path : List (Exchange E F M α β σ τ)}
    (hpath : (c :: path).IsChain (Step A B))
    (hd : (c :: path).getLast (List.cons_ne_nil _ _) = d) :
    ((∀ x ∈ c :: path, ¬ Crossed I all x) →
      (∀ x ∈ c :: path, x.sent.filter I.main <+: all) ∧ (d.Ended ∨ ∃ e, Step A B d e)) ∧
    (d.Ended →
      (Undisturbed I Q Q' all d ↔ ∀ x ∈ c :: path, ¬ Crossed I all x) ∧
      ((∃ x ∈ c :: path, Crossed I all x) → ∃ b, d.right = .ret b ∧ Late b d.rightState)) := by
  have hstart : ∃ T U coming paused h, Joined A B I Q Q' Late all c T U coming paused h :=
    hc ▸ ⟨all, all, all, false, .free, hl, hr, .leftAhead rfl rfl rfl rfl rfl, hall, rfl⟩
  rcases joined_or_missed hall hstart hpath hd with hjoined | ⟨⟨x, hx, hcrossed⟩, hmissed⟩
  · have hclear : ∀ x ∈ c :: path, ¬ Crossed I all x := fun x hx => (hjoined x hx).1
    obtain ⟨T, U, coming, paused, h, hj⟩ := (hjoined d (hd ▸ List.getLast_mem _)).2
    refine ⟨fun _ => ⟨fun x hx => ?_, hj.progress⟩,
      fun he => ⟨⟨fun _ => hclear, fun _ => hj.ended he⟩, ?_⟩⟩
    · obtain ⟨T, U, coming, paused, h, hj⟩ := (hjoined x hx).2
      exact ⟨coming, hj.sent⟩
    · rintro ⟨x, hx, hcrossed⟩
      exact absurd hcrossed (hclear x hx)
  · refine ⟨fun hclear => absurd hcrossed (hclear x hx), fun he => ⟨⟨fun hgood => ?_, fun hclear => ?_⟩,
      fun _ => (hmissed.ended he).2⟩⟩
    · -- what is said after the verdict has not been said
      have hspoken := (hmissed.ended he).1
      rw [Spoken, ← hgood.sent, fromRight_main] at hspoken
      exact absurd (List.map_eq_nil_iff.mp (List.append_right_eq_self.mp hspoken)) hafter
    · exact absurd hcrossed (hclear x hx)

end Joined

end Exchange

end Process
