import Mathlib.Data.List.Nodup
import Mathlib.Data.Fintype.Defs
import Mathlib.Logic.Function.Basic
import Mathlib.Logic.Relation
import OrderManagement.TransactionProgram

/-! Transactions side by side at the isolation level READ COMMITTED. A statement
sees the committed store under the writes of its own transaction, waits for the
locks it needs and keeps them to the end of the transaction; a transaction that
raises, whose statement fails or that is chosen as a victim rolls back. -/

namespace OrderManagement

open Program

/-- An engine with the locks that a statement needs: rows it selects for update or
writes, and entries it adds to unique indexes. -/
structure LockingEngine (Req : Type → Type) (ε σ ω κ : Type) extends Engine Req ε σ ω where
  needs : {β : Type} → Req β → σ → List κ

namespace ReadCommitted

variable {Req : Type → Type} {ε σ ω κ ι α : Type}

inductive Phase (Req : Type → Type) (ε ω κ α : Type) : Type 1
  | active (rest : Program Req ε α) (writes : List ω) (locks : List κ)
  | committed (a : α)
  | failed (cause : Option ε)

def Phase.Holds : Phase Req ε ω κ α → κ → Prop
  | active _ _ locks, k => k ∈ locks
  | committed _, _ => False
  | failed _, _ => False

theorem Phase.not_holds_committed (a : α) (k : κ) :
    ¬ (committed a : Phase Req ε ω κ α).Holds k := id

/-- The committed store, the transactions and those that committed, in that order. -/
structure Site (Req : Type → Type) (ε σ ω κ ι α : Type) : Type 1 where
  db : σ
  phase : ι → Phase Req ε ω κ α
  log : List (ι × α)

def start (db : σ) (prog : ι → Program Req ε α) : Site Req ε σ ω κ ι α :=
  ⟨db, fun i => .active (prog i) [] [], []⟩

@[simp] theorem start_db (db : σ) (prog : ι → Program Req ε α) :
    (start db prog : Site Req ε σ ω κ ι α).db = db := rfl

variable [DecidableEq ι]

inductive Step (E : LockingEngine Req ε σ ω κ) (t : Site Req ε σ ω κ ι α) :
    Site Req ε σ ω κ ι α → Prop
  | statement {i : ι} {β : Type} {s : Req β} {next : β → Program Req ε α} {ws vs : List ω}
      {locks : List κ} {r : β} (active : t.phase i = .active (.request s next) ws locks)
      (free : ∀ k ∈ E.needs s (E.view t.db ws), ∀ j, j ≠ i → ¬ (t.phase j).Holds k)
      (answer : E.exec s (E.view t.db ws) = .ok (r, vs)) :
      Step E t { t with
        phase := Function.update t.phase i
          (.active (next r) (ws ++ vs) (locks ++ E.needs s (E.view t.db ws))) }
  | refused {i : ι} {β : Type} {s : Req β} {next : β → Program Req ε α} {ws : List ω}
      {locks : List κ} {e : ε} (active : t.phase i = .active (.request s next) ws locks)
      (answer : E.exec s (E.view t.db ws) = .error e) :
      Step E t { t with phase := Function.update t.phase i (.failed (some e)) }
  | raised {i : ι} {e : ε} {ws : List ω} {locks : List κ}
      (active : t.phase i = .active (.raise e) ws locks) :
      Step E t { t with phase := Function.update t.phase i (.failed (some e)) }
  | aborted {i : ι} {rest : Program Req ε α} {ws : List ω} {locks : List κ}
      (active : t.phase i = .active rest ws locks) :
      Step E t { t with phase := Function.update t.phase i (.failed none) }
  | committed {i : ι} {a : α} {ws : List ω} {locks : List κ}
      (active : t.phase i = .active (.ret a) ws locks) :
      Step E t ⟨E.view t.db ws, Function.update t.phase i (.committed a), t.log ++ [(i, a)]⟩

def Reachable (E : LockingEngine Req ε σ ω κ) (db : σ) (prog : ι → Program Req ε α) :
    Site Req ε σ ω κ ι α → Prop :=
  Relation.ReflTransGen (Step E) (start db prog)

instance [DecidableEq κ] (p : Phase Req ε ω κ α) (k : κ) : Decidable (p.Holds k) := by
  cases p <;> unfold Phase.Holds <;> infer_instance

/-- The next step of transaction `i`, unless it waits or has ended. -/
def advance [Fintype ι] [DecidableEq κ] (E : LockingEngine Req ε σ ω κ)
    (t : Site Req ε σ ω κ ι α) (i : ι) : Option (Site Req ε σ ω κ ι α) :=
  match t.phase i with
  | .active (.ret a) ws _ =>
    some ⟨E.view t.db ws, Function.update t.phase i (.committed a), t.log ++ [(i, a)]⟩
  | .active (.raise e) _ _ => some { t with phase := Function.update t.phase i (.failed (some e)) }
  | .active (.request s next) ws locks =>
    match E.exec s (E.view t.db ws) with
    | .error e => some { t with phase := Function.update t.phase i (.failed (some e)) }
    | .ok (r, vs) =>
      if ∀ k ∈ E.needs s (E.view t.db ws), ∀ j, j ≠ i → ¬ (t.phase j).Holds k then
        some { t with
          phase := Function.update t.phase i
            (.active (next r) (ws ++ vs) (locks ++ E.needs s (E.view t.db ws))) }
      else none
  | .committed _ => none
  | .failed _ => none

def schedule [Fintype ι] [DecidableEq κ] (E : LockingEngine Req ε σ ω κ)
    (t : Site Req ε σ ω κ ι α) (turns : List ι) : Option (Site Req ε σ ω κ ι α) :=
  turns.foldlM (advance E) t

theorem advance_step [Fintype ι] [DecidableEq κ] {E : LockingEngine Req ε σ ω κ}
    {t t' : Site Req ε σ ω κ ι α} {i : ι} (h : advance E t i = some t') : Step E t t' := by
  unfold advance at h
  split at h
  · cases h
    exact .committed ‹_›
  · cases h
    exact .raised ‹_›
  · split at h
    · cases h
      exact .refused ‹_› ‹_›
    · split_ifs at h with free
      cases h
      exact .statement ‹_› free ‹_›
  · cases h
  · cases h

theorem schedule_reachable [Fintype ι] [DecidableEq κ] {E : LockingEngine Req ε σ ω κ} {db : σ}
    {prog : ι → Program Req ε α} {t t' : Site Req ε σ ω κ ι α} {turns : List ι}
    (reachable : Reachable E db prog t) (h : schedule E t turns = some t') :
    Reachable E db prog t' := by
  induction turns generalizing t with
  | nil =>
    obtain rfl := Option.some.inj h
    exact reachable
  | cons i turns ih =>
    obtain ⟨u, first, rest⟩ := Option.bind_eq_some_iff.1 h
    exact ih (reachable.tail (advance_step first)) rest

/-- The logged transactions run alone one after the other, with replies that are the
logged ones up to `Same`. -/
inductive Serial (E : LockingEngine Req ε σ ω κ) (prog : ι → Program Req ε α)
    (Same : α → α → Prop) (db : σ) : List (ι × α) → σ → Prop
  | nil : Serial E prog Same db [] db
  | snoc {log : List (ι × α)} {db' db'' : σ} {i : ι} {a a' : α}
      (before : Serial E prog Same db log db')
      (ran : (prog i).run E.toEngine db' = .ok (a', db'')) (same : Same a' a) :
      Serial E prog Same db (log ++ [(i, a)]) db''

/-- Every transaction can be kept replayable: `Good` holds of what is left of it, its
writes and its locks, whatever the others commit under locks of their own. -/
structure Replayable (E : LockingEngine Req ε σ ω κ) (prog : ι → Program Req ε α)
    (Same : α → α → Prop) (Inv : σ → Prop) (Fails : ι → ε → Prop)
    (Good : ι → σ → Program Req ε α → List ω → List κ → Prop) : Prop where
  start : ∀ i db, Inv db → Good i db (prog i) [] []
  statement : ∀ {i : ι} {db : σ} {β : Type} {s : Req β} {next : β → Program Req ε α}
    {ws vs : List ω} {locks : List κ} {r : β}, Inv db → Good i db (.request s next) ws locks →
    E.exec s (E.view db ws) = .ok (r, vs) →
    Good i db (next r) (ws ++ vs) (locks ++ E.needs s (E.view db ws))
  refused : ∀ {i : ι} {db : σ} {β : Type} {s : Req β} {next : β → Program Req ε α} {ws : List ω}
    {locks : List κ} {e : ε}, Inv db → Good i db (.request s next) ws locks →
    E.exec s (E.view db ws) = .error e → Fails i e
  raised : ∀ {i : ι} {db : σ} {e : ε} {ws : List ω} {locks : List κ}, Inv db →
    Good i db (.raise e) ws locks → Fails i e
  commit : ∀ {i : ι} {db : σ} {a : α} {ws : List ω} {locks : List κ}, Inv db →
    Good i db (.ret a) ws locks → Inv (E.view db ws) ∧
      ∃ a', (prog i).run E.toEngine db = .ok (a', E.view db ws) ∧ Same a' a
  frame : ∀ {i j : ι} {db : σ} {a a' : α} {q : Program Req ε α} {ws us : List ω}
    {locks held : List κ}, Inv db → Good i db q ws locks → Good j db (.ret a) us held →
    (prog j).run E.toEngine db = .ok (a', E.view db us) → (∀ k ∈ locks, k ∉ held) →
    Good i (E.view db us) q ws locks

structure Consistent (E : LockingEngine Req ε σ ω κ) (prog : ι → Program Req ε α)
    (Same : α → α → Prop) (Inv : σ → Prop) (Fails : ι → ε → Prop)
    (Good : ι → σ → Program Req ε α → List ω → List κ → Prop) (db : σ)
    (t : Site Req ε σ ω κ ι α) : Prop where
  serial : Serial E prog Same db t.log t.db
  inv : Inv t.db
  good : ∀ {i : ι} {q : Program Req ε α} {ws : List ω} {locks : List κ},
    t.phase i = .active q ws locks → Good i t.db q ws locks
  exclusive : ∀ {i j : ι} {k : κ}, i ≠ j → (t.phase i).Holds k → ¬ (t.phase j).Holds k
  logged : ∀ {i : ι} {a : α}, (i, a) ∈ t.log ↔ t.phase i = .committed a
  once : (t.log.map Prod.fst).Nodup
  failed : ∀ {i : ι} {e : ε}, t.phase i = .failed (some e) → Fails i e

section Rule

variable {E : LockingEngine Req ε σ ω κ} {prog : ι → Program Req ε α} {Same : α → α → Prop}
  {Inv : σ → Prop} {Fails : ι → ε → Prop}
  {Good : ι → σ → Program Req ε α → List ω → List κ → Prop} {db : σ} {t t' : Site Req ε σ ω κ ι α}

theorem update_cases {β : Type*} {f : ι → β} {i j : ι} {p x : β}
    (h : Function.update f i p j = x) : (j = i ∧ p = x) ∨ (j ≠ i ∧ f j = x) := by
  by_cases ji : j = i
  · subst ji
    rw [Function.update_self] at h
    exact Or.inl ⟨rfl, h⟩
  · rw [Function.update_of_ne ji] at h
    exact Or.inr ⟨ji, h⟩

theorem exclusive_update {phase : ι → Phase Req ε ω κ α} {p : Phase Req ε ω κ α} {i : ι}
    (h : ∀ {i j k}, i ≠ j → (phase i).Holds k → ¬ (phase j).Holds k)
    (frees : ∀ k, p.Holds k → (phase i).Holds k ∨ ∀ j, j ≠ i → ¬ (phase j).Holds k) {j l : ι}
    {k : κ} (ne : j ≠ l) (hj : (Function.update phase i p j).Holds k) :
    ¬ (Function.update phase i p l).Holds k := by
  intro hl
  rcases update_cases (rfl : Function.update phase i p j = _) with ⟨ji, pj⟩ | ⟨ji, pj⟩ <;>
    rcases update_cases (rfl : Function.update phase i p l = _) with ⟨li, pl⟩ | ⟨li, pl⟩
  · exact ne (ji.trans li.symm)
  · rw [← pj] at hj
    rw [← pl] at hl
    rcases frees k hj with held | free
    · exact h (ji ▸ ne) held hl
    · exact free l li hl
  · rw [← pj] at hj
    rw [← pl] at hl
    rcases frees k hl with held | free
    · exact h (li ▸ ne.symm) held hj
    · exact free j ji hj
  · rw [← pj] at hj
    rw [← pl] at hl
    exact h ne hj hl

theorem Consistent.go (h : Consistent E prog Same Inv Fails Good db t) {i : ι}
    {q : Program Req ε α} {ws : List ω} {locks : List κ} (active : t.phase i = .active q ws locks)
    {p : Phase Req ε ω κ α} (good : ∀ q' ws' locks', p = .active q' ws' locks' →
      Good i t.db q' ws' locks')
    (frees : ∀ k, p.Holds k → k ∈ locks ∨ ∀ j, j ≠ i → ¬ (t.phase j).Holds k)
    (open' : ∀ a, p ≠ .committed a) (fails : ∀ e, p = .failed (some e) → Fails i e) :
    Consistent E prog Same Inv Fails Good db
      { t with phase := Function.update t.phase i p } where
  serial := h.serial
  inv := h.inv
  good hj := by
    rcases update_cases hj with ⟨rfl, eq⟩ | ⟨-, eq⟩
    · exact good _ _ _ eq
    · exact h.good eq
  exclusive := exclusive_update h.exclusive fun k hk => (frees k hk).imp_left fun mem => by
    rw [active]
    exact mem
  logged {j a} := by
    refine h.logged.trans ⟨fun hj => ?_, fun hj => ?_⟩
    · have ji : j ≠ i := fun ji => by
        rw [ji, active] at hj
        cases hj
      exact (Function.update_of_ne ji p t.phase).trans hj
    · rcases update_cases hj with ⟨-, eq⟩ | ⟨-, eq⟩
      · exact (open' a eq).elim
      · exact eq
  once := h.once
  failed hj := by
    rcases update_cases hj with ⟨rfl, eq⟩ | ⟨-, eq⟩
    · exact fails _ eq
    · exact h.failed eq

theorem Consistent.fail (h : Consistent E prog Same Inv Fails Good db t) {i : ι}
    {q : Program Req ε α} {ws : List ω} {locks : List κ} (active : t.phase i = .active q ws locks)
    {cause : Option ε} (fails : ∀ e, cause = some e → Fails i e) :
    Consistent E prog Same Inv Fails Good db
      { t with phase := Function.update t.phase i (.failed cause) } :=
  h.go active (fun _ _ _ eq => by cases eq) (fun _ hk => hk.elim) (fun _ eq => by cases eq)
    fun e eq => fails e (by injection eq)

theorem Consistent.commit (replayable : Replayable E prog Same Inv Fails Good)
    (h : Consistent E prog Same Inv Fails Good db t) {i : ι} {a : α} {ws : List ω}
    {held : List κ} (active : t.phase i = .active (.ret a) ws held) :
    Consistent E prog Same Inv Fails Good db
      ⟨E.view t.db ws, Function.update t.phase i (.committed a), t.log ++ [(i, a)]⟩ := by
  have good := h.good active
  obtain ⟨inv, a', ran, same⟩ := replayable.commit h.inv good
  have unlogged : ∀ b, (i, b) ∉ t.log := fun b hb => by
    rw [h.logged, active] at hb
    cases hb
  refine ⟨.snoc h.serial ran same, inv, fun {j q us locks} hj => ?_,
    exclusive_update h.exclusive fun k hk => (Phase.not_holds_committed a k hk).elim,
    fun {j b} => ?_, ?_, fun {j e} hj => ?_⟩
  · rcases update_cases hj with ⟨-, eq⟩ | ⟨ji, eq⟩
    · cases eq
    · refine replayable.frame h.inv (h.good eq) good ran fun k hk hheld => ?_
      exact h.exclusive ji (show (t.phase j).Holds k from eq ▸ hk)
        (show (t.phase i).Holds k from active ▸ hheld)
  · dsimp only
    rw [List.mem_append, List.mem_singleton, Prod.mk.injEq]
    by_cases ji : j = i
    · subst ji
      rw [Function.update_self, Phase.committed.injEq]
      simp [unlogged b, eq_comm]
    · rw [Function.update_of_ne ji, h.logged]
      simp [ji]
  · rw [List.map_append]
    refine h.once.append (List.nodup_singleton _) ?_
    simp only [List.map_cons, List.map_nil, List.disjoint_singleton, List.mem_map, Prod.exists,
      exists_and_right, exists_eq_right, not_exists]
    exact unlogged
  · rcases update_cases hj with ⟨-, eq⟩ | ⟨-, eq⟩
    · cases eq
    · exact h.failed eq

theorem Consistent.step (replayable : Replayable E prog Same Inv Fails Good)
    (h : Consistent E prog Same Inv Fails Good db t) (step : Step E t t') :
    Consistent E prog Same Inv Fails Good db t' := by
  cases step with
  | refused active answer =>
    exact h.fail active fun e he =>
      Option.some.inj he ▸ replayable.refused h.inv (h.good active) answer
  | raised active =>
    exact h.fail active fun e he => Option.some.inj he ▸ replayable.raised h.inv (h.good active)
  | aborted active => exact h.fail active (by simp)
  | committed active => exact h.commit replayable active
  | statement active free answer =>
    refine h.go active (fun q' ws' locks' eq => ?_) (fun k hk => ?_) (fun _ eq => by cases eq)
      fun _ eq => by cases eq
    · cases eq
      exact replayable.statement h.inv (h.good active) answer
    · rcases List.mem_append.1 hk with old | new
      · exact Or.inl old
      · exact Or.inr (free k new)

theorem Step.log_prefix (h : Step E t t') : t.log <+: t'.log := by
  cases h with
  | committed => exact List.prefix_append _ _
  | statement | refused | raised | aborted => exact List.prefix_refl _

theorem steps_log_prefix (h : Relation.ReflTransGen (Step E) t t') : t.log <+: t'.log := by
  induction h with
  | refl => exact List.prefix_refl _
  | tail _ step ih => exact ih.trans step.log_prefix

/-- Replayable transactions are serializable, in the order of their commits. -/
theorem Reachable.consistent (replayable : Replayable E prog Same Inv Fails Good) (inv : Inv db)
    (reachable : Reachable E db prog t) : Consistent E prog Same Inv Fails Good db t := by
  induction reachable with
  | refl =>
    exact ⟨.nil, inv, fun hi => by cases hi; exact replayable.start _ _ inv,
      fun _ hi => by simp [start, Phase.Holds] at hi, by simp [start], List.nodup_nil,
      fun hi => by simp [start] at hi⟩
  | tail _ step ih => exact ih.step replayable step

end Rule

section Guard

variable {E : LockingEngine Req ε σ ω κ} {refuse : ∀ {β : Type}, Req β → Option ε}
  {prog : ι → Program Req ε α} {db : σ} {site : Site Req ε σ ω κ ι α}

/-- The engine with the locks of `E` that fails first on the statements `refuse` names. -/
def guarded (E : LockingEngine Req ε σ ω κ) (refuse : ∀ {β : Type}, Req β → Option ε) :
    LockingEngine Req ε σ ω κ :=
  { Program.guarded E.toEngine refuse with needs := E.needs }

/-- A transaction without the guard does the same, or is aborted where the guard fails. -/
inductive Phase.Aborts (refuse : ∀ {β : Type}, Req β → Option ε) :
    Phase Req ε ω κ α → Phase Req ε ω κ α → Prop
  | same (p : Phase Req ε ω κ α) : Aborts refuse p p
  | aborted {β : Type} {s : Req β} {e : ε} (refused : refuse s = some e) :
      Aborts refuse (.failed (some e)) (.failed none)

theorem Phase.Aborts.holds {p q : Phase Req ε ω κ α} (h : p.Aborts refuse q) {k : κ}
    (held : q.Holds k) : p.Holds k := by
  cases h with
  | same => exact held
  | aborted => exact held

theorem Phase.Aborts.active {p : Phase Req ε ω κ α} {rest : Program Req ε α} {ws : List ω}
    {locks : List κ} (h : (Phase.active rest ws locks).Aborts refuse p) :
    p = .active rest ws locks := by
  cases h
  rfl

theorem Phase.Aborts.update {f g : ι → Phase Req ε ω κ α}
    (h : ∀ j, (f j).Aborts refuse (g j)) {i : ι}
    {p q : Phase Req ε ω κ α} (ends : p.Aborts refuse q) (j : ι) :
    (Function.update f i p j).Aborts refuse (Function.update g i q j) := by
  by_cases ji : j = i
  · subst ji
    rwa [Function.update_self, Function.update_self]
  · rw [Function.update_of_ne ji, Function.update_of_ne ji]
    exact h j

/-- What guarded transactions reach, others without the guard reach too. -/
theorem Reachable.unguarded (reachable : Reachable (guarded E refuse) db prog site) :
    ∃ site', Reachable E db prog site' ∧ site'.db = site.db ∧ site'.log = site.log ∧
      ∀ i, (site.phase i).Aborts refuse (site'.phase i) := by
  induction reachable with
  | refl => exact ⟨start db prog, .refl, rfl, rfl, fun _ => .same _⟩
  | @tail t t' _ step ih =>
    obtain ⟨⟨now, phase, log⟩, reached, rfl, rfl, aborts⟩ := ih
    have running : ∀ {i : ι} {rest : Program Req ε α} {ws : List ω} {locks : List κ},
        t.phase i = .active rest ws locks → phase i = .active rest ws locks :=
          fun {i} _ _ _ active =>
      (active ▸ aborts i).active
    cases step with
    | @statement i β s next ws vs locks r active free answer =>
      have unrefused : refuse s = none := by
        cases refused : refuse s with
        | none => rfl
        | some e => simp [guarded, Program.guarded, refused] at answer
      have answer' : E.exec s (E.view t.db ws) = .ok (r, vs) := by
        simp only [guarded, Program.guarded, unrefused] at answer
        exact answer
      exact ⟨_, reached.tail (.statement (running active)
        (fun k need j other held => free k need j other ((aborts j).holds held)) answer'), rfl, rfl,
        Phase.Aborts.update aborts (.same _)⟩
    | @refused i β s next ws locks e active answer =>
      cases refused : refuse s with
      | none =>
        have answer' : E.exec s (E.view t.db ws) = .error e := by
          simp only [guarded, Program.guarded, refused] at answer
          exact answer
        exact ⟨_, reached.tail (.refused (running active) answer'), rfl, rfl,
          Phase.Aborts.update aborts (.same _)⟩
      | some e' =>
        obtain rfl : e' = e := by
          simpa only [guarded, Program.guarded, refused, Except.error.injEq] using answer
        exact ⟨_, reached.tail (.aborted (running active)), rfl, rfl,
          Phase.Aborts.update aborts (.aborted refused)⟩
    | raised active =>
      exact ⟨_, reached.tail (.raised (running active)), rfl, rfl,
        Phase.Aborts.update aborts (.same _)⟩
    | aborted active =>
      exact ⟨_, reached.tail (.aborted (running active)), rfl, rfl,
        Phase.Aborts.update aborts (.same _)⟩
    | committed active =>
      exact ⟨_, reached.tail (.committed (running active)), rfl, rfl,
        Phase.Aborts.update aborts (.same _)⟩

end Guard

end ReadCommitted

end OrderManagement
