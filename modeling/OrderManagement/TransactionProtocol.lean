import OrderManagement.TransactionProgram

/-! What a program does whatever its statements answer. A protocol says which
statements may follow which answers, and `Follows` that a program keeps to it.
`Replays` says that a program reaches what is left of it, with the writes it has
made, by statements that a given store answers as they were answered. -/

namespace OrderManagement

/-- Statements that are allowed in a state of the protocol, the answers one can
get, and the state after an answer. -/
structure Protocol (Req : Type → Type) (γ : Type) where
  allows : {β : Type} → γ → Req β → Prop
  expected : {β : Type} → Req β → β → Prop
  after : {β : Type} → γ → Req β → β → γ

namespace Program

variable {Req : Type → Type} {ε σ ω α β γ : Type}

/-- The program keeps to the protocol, returns with `Q` and raises with `X`. -/
def Follows (P : Protocol Req γ) (Q : α → γ → Prop) (X : ε → Prop) : Program Req ε α → γ → Prop
  | ret a, g => Q a g
  | raise e, _ => X e
  | request s next, g => P.allows g s ∧ ∀ r, P.expected s r → (next r).Follows P Q X (P.after g s r)

section Follows

variable (P : Protocol Req γ) {Q : α → γ → Prop} {X : ε → Prop} {g : γ}

@[simp] theorem follows_pure (a : α) : (pure a : Program Req ε α).Follows P Q X g ↔ Q a g := Iff.rfl

@[simp] theorem follows_raise (e : ε) : (raise e : Program Req ε α).Follows P Q X g ↔ X e := Iff.rfl

theorem follows_issue {Q : β → γ → Prop} (s : Req β) : (issue s : Program Req ε β).Follows P Q X g ↔
    P.allows g s ∧ ∀ r, P.expected s r → Q r (P.after g s r) := Iff.rfl

@[simp] theorem follows_liftExcept (x : Except ε α) :
    (liftExcept x : Program Req ε α).Follows P Q X g ↔
      (∀ a, x = .ok a → Q a g) ∧ ∀ e, x = .error e → X e := by
  cases x <;> simp [liftExcept, Follows]

@[simp] theorem follows_bind {Q : β → γ → Prop} (p : Program Req ε α) (f : α → Program Req ε β) :
    (p >>= f).Follows P Q X g ↔ p.Follows P (fun a g' => (f a).Follows P Q X g') X g := by
  change (p.bind f).Follows P Q X g ↔ _
  induction p generalizing g with
  | ret a => rfl
  | raise e => rfl
  | request s next ih => exact and_congr_right' (forall₂_congr fun r _ => ih r)

theorem follows_issue_bind {Q : α → γ → Prop} (s : Req β) (f : β → Program Req ε α) :
    (issue s >>= f).Follows P Q X g ↔
      P.allows g s ∧ ∀ r, P.expected s r → (f r).Follows P Q X (P.after g s r) := by
  rw [follows_bind, follows_issue]

theorem follows_ite {c : Prop} [Decidable c] {p q : Program Req ε α}
    (first : c → p.Follows P Q X g) (second : ¬ c → q.Follows P Q X g) :
    (if c then p else q).Follows P Q X g := by
  split_ifs with h
  · exact first h
  · exact second h

theorem follows_mono {R : α → γ → Prop} {Y : ε → Prop} {p : Program Req ε α}
    (h : p.Follows P Q X g) (returns : ∀ a g', Q a g' → R a g') (raises : ∀ e, X e → Y e) :
    p.Follows P R Y g := by
  induction p generalizing g with
  | ret a => exact returns a g h
  | raise e => exact raises e h
  | request s next ih => exact ⟨h.1, fun r hr => ih r (h.2 r hr)⟩

end Follows

/-- The program keeps to the protocol and returns with `Q`, whatever it raises. -/
def Keeps (P : Protocol Req γ) (Q : α → γ → Prop) (p : Program Req ε α) (g : γ) : Prop :=
  p.Follows P Q (fun _ => True) g

section Keeps

variable {P : Protocol Req γ} {Q : α → γ → Prop} {g : γ}

theorem keeps_pure {a : α} (h : Q a g) : (pure a : Program Req ε α).Keeps P Q g := h

theorem keeps_raise (e : ε) : (raise e : Program Req ε α).Keeps P Q g := trivial

theorem keeps_issue {s : Req β} {f : β → Program Req ε α} (allows : P.allows g s)
    (rest : ∀ r, P.expected s r → (f r).Keeps P Q (P.after g s r)) :
    (issue s >>= f).Keeps P Q g :=
  (follows_issue_bind P s f).2 ⟨allows, rest⟩

theorem keeps_lift {x : Except ε β} {f : β → Program Req ε α}
    (rest : ∀ b, x = .ok b → (f b).Keeps P Q g) : (liftExcept x >>= f).Keeps P Q g :=
  (follows_bind P _ f).2 ((follows_liftExcept P x).2 ⟨rest, fun _ _ => trivial⟩)

theorem keeps_bind {R : β → γ → Prop} {p : Program Req ε β} {f : β → Program Req ε α}
    (first : p.Keeps P R g) (rest : ∀ b g', R b g' → (f b).Keeps P Q g') :
    (p >>= f).Keeps P Q g :=
  (follows_bind P p f).2 (follows_mono P first rest fun _ _ => trivial)

theorem keeps_ite {c : Prop} [Decidable c] {p q : Program Req ε α} (first : c → p.Keeps P Q g)
    (second : ¬ c → q.Keeps P Q g) : (if c then p else q).Keeps P Q g :=
  follows_ite P first second

theorem keeps_mono {R : α → γ → Prop} {p : Program Req ε α} (h : p.Keeps P Q g)
    (returns : ∀ a g', Q a g' → R a g') : p.Keeps P R g :=
  follows_mono P h returns fun _ _ => trivial

end Keeps

/-- A program whose statements cannot tell two stores apart runs alike in both. -/
theorem run_of_follows {P : Protocol Req γ} {E : Engine Req ε σ ω} {Agree : σ → σ → Prop}
    {Q : α → γ → Prop} {X : ε → Prop}
    (same : ∀ {β : Type} (g : γ) (s : Req β) {x y : σ}, P.allows g s → Agree x y →
      E.exec s x = E.exec s y)
    (keeps : ∀ {β : Type} (g : γ) (s : Req β) {x y : σ} {r : β} {ws : List ω}, P.allows g s →
      Agree x y → E.exec s x = .ok (r, ws) → P.expected s r ∧ Agree (E.view x ws) (E.view y ws))
    {p : Program Req ε α} {g : γ} (follows : p.Follows P Q X g) {x y : σ} (agree : Agree x y) :
    (∃ e, p.run E x = .error e ∧ p.run E y = .error e) ∨
      ∃ a x' y', p.run E x = .ok (a, x') ∧ p.run E y = .ok (a, y') ∧ Agree x' y' := by
  induction p generalizing g x y with
  | ret a => exact Or.inr ⟨a, x, y, rfl, rfl, agree⟩
  | raise e => exact Or.inl ⟨e, rfl, rfl⟩
  | request s next ih =>
    have alike := same g s follows.1 agree
    rcases h : E.exec s x with e | ⟨r, ws⟩
    · exact Or.inl ⟨e, run_request_of_error E h, run_request_of_error E (alike ▸ h)⟩
    · obtain ⟨expected, agree'⟩ := keeps g s follows.1 agree h
      rw [run_request_of_ok E h, run_request_of_ok E (alike ▸ h)]
      exact ih r (follows.2 r expected) agree'

/-- What the statements of a program keep holds where it returns. -/
theorem invariant_of_follows {P : Protocol Req γ} {E : Engine Req ε σ ω} {I : σ → Prop}
    {Q : α → γ → Prop} {X : ε → Prop}
    (keeps : ∀ {β : Type} (g : γ) (s : Req β) {x : σ} {r : β} {ws : List ω}, P.allows g s → I x →
      E.exec s x = .ok (r, ws) → P.expected s r ∧ I (E.view x ws))
    {p : Program Req ε α} {g : γ} (follows : p.Follows P Q X g) {x x' : σ} {a : α} (inv : I x)
    (ran : p.run E x = .ok (a, x')) : I x' := by
  induction p generalizing g x with
  | ret b =>
    cases ran
    exact inv
  | raise e => cases ran
  | request s next ih =>
    rcases h : E.exec s x with e | ⟨r, ws⟩
    · rw [run_request_of_error E h] at ran
      cases ran
    · obtain ⟨expected, inv'⟩ := keeps g s follows.1 inv h
      rw [run_request_of_ok E h] at ran
      exact ih r (follows.2 r expected) inv' ran

/-- The statements that `refuse` does not name. -/
def unrefused (refuse : ∀ {β : Type}, Req β → Option ε) : Protocol Req Unit where
  allows _ s := refuse s = none
  expected _ _ := True
  after _ _ _ := ()

theorem run_guarded {E : Engine Req ε σ ω} {refuse : ∀ {β : Type}, Req β → Option ε}
    {Q : α → Unit → Prop} {p : Program Req ε α} {g : Unit} (keeps : p.Keeps (unrefused refuse) Q g)
    (db : σ) : p.run (guarded E refuse) db = p.run E db := by
  induction p generalizing db with
  | ret a => rfl
  | raise e => rfl
  | request s next ih =>
    have unnamed : refuse s = none := keeps.1
    have same : (guarded E refuse).exec s db = E.exec s db := by simp only [guarded, unnamed]
    rcases h : E.exec s db with e | ⟨r, ws⟩
    · rw [run_request_of_error E h, run_request_of_error _ (same.trans h)]
    · rw [run_request_of_ok E h, run_request_of_ok _ (same.trans h)]
      exact ih r (keeps.2 r trivial) _

/-- Any statements, of which those that `refuse` names get no answer. -/
def answered (refuse : ∀ {β : Type}, Req β → Option ε) : Protocol Req Unit where
  allows _ _ := True
  expected s _ := refuse s = none
  after _ _ _ := ()

theorem keeps_answered (refuse : ∀ {β : Type}, Req β → Option ε) (p : Program Req ε α) :
    p.Keeps (answered refuse) (fun _ _ => True) () := by
  induction p with
  | ret a => trivial
  | raise e => trivial
  | request s next ih => exact ⟨trivial, fun r _ => ih r⟩

/-- What a program has shown by returning, if the statements `refuse` names fail. -/
theorem returns_of_answered {E : Engine Req ε σ ω} {refuse : ∀ {β : Type}, Req β → Option ε}
    {Q : α → Unit → Prop} {p : Program Req ε α} (keeps : p.Keeps (answered refuse) Q ())
    {db db' : σ} {a : α} (ran : p.run (guarded E refuse) db = .ok (a, db')) : Q a () := by
  induction p generalizing db with
  | ret b =>
    cases ran
    exact keeps
  | raise e => cases ran
  | request s next ih =>
    cases refused : refuse s with
    | some e =>
      rw [run_guarded_refused refused] at ran
      cases ran
    | none =>
      rcases h : (guarded E refuse).exec s db with e | ⟨r, ws⟩
      · rw [run_request_of_error _ h] at ran
        cases ran
      · rw [run_request_of_ok _ h] at ran
        exact ih r (keeps.2 r refused) ran

/-- In the store `db`, the program `p` with writes `ws` becomes `q` with writes `us`
by statements and answers of the kind `Covered`. -/
inductive Replays (E : Engine Req ε σ ω) (Covered : ∀ β : Type, Req β → β → Prop) (db : σ) :
    Program Req ε α → List ω → Program Req ε α → List ω → Prop
  | refl {p : Program Req ε α} {ws : List ω} : Replays E Covered db p ws p ws
  | step {β : Type} {s : Req β} {next : β → Program Req ε α} {r : β} {ws vs us : List ω}
      {q : Program Req ε α} (answer : E.exec s (E.view db ws) = .ok (r, vs))
      (covered : Covered β s r)
      (rest : Replays E Covered db (next r) (ws ++ vs) q us) :
      Replays E Covered db (request s next) ws q us

section Replays

variable {E : Engine Req ε σ ω} {Covered Covered' : ∀ β : Type, Req β → β → Prop}
  {db db' : σ}
  {p q : Program Req ε α} {ws us vs : List ω}

theorem Replays.snoc {s : Req β} {next : β → Program Req ε α} {r : β}
    (h : Replays E Covered db p ws (request s next) us)
    (answer : E.exec s (E.view db us) = .ok (r, vs)) (covered : Covered β s r) :
    Replays E Covered db p ws (next r) (us ++ vs) := by
  generalize eq : request s next = q at h
  induction h with
  | refl =>
    subst eq
    exact .step answer covered .refl
  | step answer' covered' rest ih => exact .step answer' covered' (ih answer eq)

theorem Replays.run (h : Replays E Covered db p ws q us) :
    p.run E (E.view db ws) = q.run E (E.view db us) := by
  induction h with
  | refl => rfl
  | step answer covered rest ih =>
    rw [run_request_of_ok E answer, ← E.view_append]
    exact ih

theorem Replays.transfer (h : Replays E Covered db p ws q us)
    (same : ∀ {β : Type} (s : Req β) (r : β) (ws vs : List ω), Covered β s r →
      E.exec s (E.view db ws) = .ok (r, vs) →
        E.exec s (E.view db' ws) = .ok (r, vs) ∧ Covered' β s r) :
    Replays E Covered' db' p ws q us := by
  induction h with
  | refl => exact .refl
  | step answer covered rest ih =>
    obtain ⟨answer', covered'⟩ := same _ _ _ _ covered answer
    exact .step answer' covered' ih

end Replays

end Program

end OrderManagement
