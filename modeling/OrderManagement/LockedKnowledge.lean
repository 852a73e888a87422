import OrderManagement.LockWaits

/-! What transactions know. A transaction that keeps to a protocol knows, from its state in
the protocol, facts about the store, its writes and its locks; what the commits of others,
under locks of their own, can do to the store leaves these facts true. -/

namespace OrderManagement

open Program

namespace LockWaits

variable {Req : Type → Type} {ε σ ω κ ι α γ : Type}

/-- Facts about transactions and their store. `Recalls` holds of what a transaction has been
answered, `Knows` between its statements and `Saw` of the store that one of them was begun in,
`Settled` of the store once it has committed. `Shift` is what a commit under given locks may
do. -/
structure Facts (Req : Type → Type) (σ ω κ ι α γ : Type) where
  Inv : σ → Prop
  Done : ι → α → γ → Prop
  Recalls : ι → γ → List (Exchange Req) → Prop
  Knows : ι → γ → σ → List ω → List κ → Prop
  Saw : ι → γ → σ → σ → Prop
  Settled : ι → σ → Prop
  Shift : List κ → σ → σ → Prop

structure Informed (E : WaitingEngine Req ε σ ω κ) (P : Site Req ε σ ω κ ι α → ι → Prop)
    (prog : ι → Program Req ε α) (proto : ι → Protocol Req γ) (F : Facts Req σ ω κ ι α γ) :
    Prop where
  start : ∀ i db, F.Inv db → ∃ g, (prog i).Follows (proto i) (F.Done i) (fun _ => True) g ∧
    F.Recalls i g [] ∧ F.Knows i g db [] []
  recalls : ∀ {i : ι} {g : γ} {heard : List (Exchange Req)} {β : Type} {s : Req β} (r : β),
    (proto i).allows g s → F.Recalls i g heard →
    F.Recalls i ((proto i).after g s r) (⟨s, r⟩ :: heard)
  begins : ∀ {i : ι} {g : γ} {db : σ} {ws : List ω} {held : List κ},
    F.Knows i g db ws held → F.Saw i g (E.view db ws) db
  answered : ∀ {t : Site Req ε σ ω κ ι α} {i : ι} {g : γ} {β : Type} {s : Req β}
    {next : β → Program Req ε α} {seen : σ} {ws vs : List ω} {before ks : List κ} {r : β},
    P t i → t.phase i = .taking s next seen ws (ks.reverse ++ before) [] → F.Inv t.db →
    (proto i).allows g s → E.takes s seen ks → F.Knows i g t.db ws before → F.Saw i g seen t.db →
    E.answer s seen (E.view t.db ws) = .ok (r, vs) →
    (proto i).expected s r ∧
    F.Knows i ((proto i).after g s r) t.db (ws ++ vs) (ks.reverse ++ before)
  commits : ∀ {t : Site Req ε σ ω κ ι α} {i : ι} {g : γ} {a : α} {ws : List ω} {held : List κ},
    P t i → t.phase i = .running (.ret a) ws held → F.Inv t.db → F.Done i a g →
    F.Recalls i g (t.heard i) → F.Knows i g t.db ws held →
    F.Inv (E.view t.db ws) ∧ F.Settled i (E.view t.db ws) ∧ F.Shift held t.db (E.view t.db ws)
  knows : ∀ {i : ι} {g : γ} {db db' : σ} {ws : List ω} {held other : List κ},
    F.Shift other db db' → (∀ k ∈ held, k ∉ other) → F.Knows i g db ws held →
    F.Knows i g db' ws held
  saw : ∀ {i : ι} {g : γ} {seen db db' : σ} {ws : List ω} {held other : List κ},
    F.Shift other db db' → (∀ k ∈ held, k ∉ other) → F.Knows i g db ws held → F.Saw i g seen db →
    F.Saw i g seen db'
  settled : ∀ {i : ι} {db db' : σ} {other : List κ},
    F.Shift other db db' → F.Settled i db → F.Settled i db'

inductive Knowing (E : WaitingEngine Req ε σ ω κ) (proto : Protocol Req γ)
    (F : Facts Req σ ω κ ι α γ) (i : ι) (heard : List (Exchange Req)) (db : σ) :
    Phase Req ε σ ω κ α → Prop
  | running {rest : Program Req ε α} {ws : List ω} {held : List κ} {g : γ}
      (follows : rest.Follows proto (F.Done i) (fun _ => True) g) (recalls : F.Recalls i g heard)
      (knows : F.Knows i g db ws held) : Knowing E proto F i heard db (.running rest ws held)
  | taking {β : Type} {s : Req β} {next : β → Program Req ε α} {seen : σ} {ws : List ω}
      {before : List κ} (taken : List κ) {wanted : List κ} {g : γ}
      (follows : (request s next).Follows proto (F.Done i) (fun _ => True) g)
      (recalls : F.Recalls i g heard)
      (order : E.takes s seen (taken.reverse ++ wanted)) (knows : F.Knows i g db ws before)
      (saw : F.Saw i g seen db) :
      Knowing E proto F i heard db (.taking s next seen ws (taken ++ before) wanted)
  | committed (a : α) (settled : F.Settled i db) : Knowing E proto F i heard db (.committed a)
  | failed (cause : Option ε) : Knowing E proto F i heard db (.failed cause)

section Informed

variable {E : WaitingEngine Req ε σ ω κ} {P : Site Req ε σ ω κ ι α → ι → Prop}
  {prog : ι → Program Req ε α} {proto : ι → Protocol Req γ} {F : Facts Req σ ω κ ι α γ}
  {t t' : Site Req ε σ ω κ ι α} {i : ι} {heard : List (Exchange Req)} {db db' : σ}
  {other : List κ} {p : Phase Req ε σ ω κ α}

theorem Knowing.shift (informed : Informed E P prog proto F)
    (h : Knowing E (proto i) F i heard db p) (shift : F.Shift other db db')
    (apart : ∀ k ∈ p.held, k ∉ other) : Knowing E (proto i) F i heard db' p := by
  cases h with
  | running follows recalls knows =>
    exact .running follows recalls (informed.knows shift apart knows)
  | taking taken follows recalls order knows saw =>
    have mine : ∀ k ∈ _, k ∉ other := fun k mem => apart k (List.mem_append_right taken mem)
    exact .taking taken follows recalls order (informed.knows shift mine knows)
      (informed.saw shift mine knows saw)
  | committed a settled => exact .committed a (informed.settled shift settled)
  | failed cause => exact .failed cause

variable [DecidableEq ι]

theorem Step.knowing (informed : Informed E P prog proto F) (meets : P t i) (inv : F.Inv t.db)
    (h : Knowing E (proto i) F i (t.heard i) t.db (t.phase i)) (step : Step E t i t') :
    F.Inv t'.db ∧ Knowing E (proto i) F i (t'.heard i) t'.db (t'.phase i) ∧
      (t'.db = t.db ∨ F.Shift (t.phase i).held t.db t'.db) := by
  cases step with
  | begins phase order =>
    rw [phase] at h
    cases h with
    | running follows recalls knows =>
      refine ⟨inv, ?_, Or.inl rfl⟩
      simp only [Site.go, Function.update_self]
      exact .taking [] follows recalls order knows (informed.begins knows)
  | takes phase free =>
    rw [phase] at h
    refine ⟨inv, ?_, Or.inl rfl⟩
    simp only [Site.go, Function.update_self]
    cases h with
    | taking taken follows recalls order knows saw =>
      refine .taking (_ :: taken) follows recalls ?_ knows saw
      rwa [List.reverse_cons, List.append_assoc]
  | @answered β s next seen ws vs held r phase answer =>
    have known := h
    rw [phase] at known
    refine ⟨inv, ?_, Or.inl rfl⟩
    simp only [Site.hear, Site.go, Function.update_self]
    generalize eq : held = locks at known phase
    cases known with
    | @taking _ _ _ _ _ before taken _ g follows recalls order knows saw =>
      rw [List.append_nil] at order
      rw [← List.reverse_reverse taken] at phase ⊢
      obtain ⟨expected, after⟩ :=
        informed.answered meets phase inv follows.1 order knows saw answer
      exact .running (follows.2 _ expected) (informed.recalls r follows.1 recalls) after
  | refused | raised | aborted =>
    refine ⟨inv, ?_, Or.inl rfl⟩
    simp only [Site.go, Function.update_self]
    exact .failed _
  | committed phase =>
    have known := h
    rw [phase] at known
    cases known with
    | running follows recalls knows =>
      obtain ⟨inv', settled, shift⟩ := informed.commits meets phase inv follows recalls knows
      refine ⟨inv', ?_, Or.inr ?_⟩
      · simp only [Site.commit, Site.go, Function.update_self]
        exact .committed _ settled
      · rwa [phase]

theorem Reaches.informed (informed : Informed E P prog proto F) (inv : F.Inv db)
    (reaches : Reaches E P (LockWaits.start db prog) t) :
    F.Inv t.db ∧ ∀ i, Knowing E (proto i) F i (t.heard i) t.db (t.phase i) := by
  induction reaches with
  | start =>
    refine ⟨inv, fun i => ?_⟩
    obtain ⟨g, follows, recalls, knows⟩ := informed.start i db inv
    exact .running follows recalls knows
  | @step t t' i before meets step ih =>
    obtain ⟨inv, known⟩ := ih
    obtain ⟨inv', mine, shift⟩ := step.knowing informed meets inv (known i)
    refine ⟨inv', fun j => ?_⟩
    by_cases same : j = i
    · exact same ▸ mine
    · rw [step.phase_ne same, step.heard_ne same]
      rcases shift with same' | shift
      · rw [same']
        exact known j
      · exact (known j).shift informed shift fun k mem theirs => same (before.exclusive mem theirs)

/-- Transactions that know enough to take their locks in order are never deadlocked. -/
theorem Reaches.not_deadlocked {R : Type} [Preorder R] {rank : κ → R} {gate : κ → Option κ}
    (informed : Informed E P prog proto F) (inv : F.Inv db)
    (allowed : ∀ {i : ι} {g : γ} {db : σ} {ws : List ω} {held ks : List κ} {β : Type} {s : Req β}
      {seen : σ}, F.Knows i g db ws held → (proto i).allows g s → E.takes s seen ks →
      InOrder rank gate held ks)
    (reaches : Reaches E P (LockWaits.start db prog) t) (i : ι) :
    ¬ Relation.TransGen t.WaitsFor i i := by
  have ordered : ∀ i k, (t.phase i).wants = some k → Takeable rank gate (t.phase i).held k := by
    intro i k wants
    have known := (reaches.informed informed inv).2 i
    generalize t.phase i = p at known wants ⊢
    cases known with
    | @taking β s next seen ws before taken wanted g follows recalls order knows saw =>
      cases wanted with
      | nil => cases wants
      | cons l ls =>
        obtain rfl := Option.some.inj wants
        have order := (allowed knows follows.1 order).drop
        rw [List.reverse_reverse] at order
        exact order.1
    | _ => cases wants
  exact LockWaits.not_deadlocked reaches.exclusive ordered i

end Informed

end LockWaits

end OrderManagement
