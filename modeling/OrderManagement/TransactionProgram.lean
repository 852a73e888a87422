import Mathlib.Control.Basic
import Mathlib.Tactic.Common

/-! Transactions as programs over statements. A program is a tree: it returns,
raises, or issues one statement and continues with its answer. An engine says
what a statement answers in a store and which rows it writes. `run` executes a
program alone, and `wp` is its weakest precondition with one postcondition for
returning and one for raising. -/

namespace OrderManagement

inductive Program (Req : Type → Type) (ε α : Type) : Type 1
  | ret (a : α)
  | raise (e : ε)
  | request {β : Type} (s : Req β) (next : β → Program Req ε α)

/-- What statements do: each reads a store and answers with the writes it makes,
or fails. Writes are applied to a store one at a time. -/
structure Engine (Req : Type → Type) (ε σ ω : Type) where
  apply : σ → ω → σ
  exec : {β : Type} → Req β → σ → Except ε (β × List ω)

namespace Engine

variable {Req : Type → Type} {ε σ ω : Type}

def view (E : Engine Req ε σ ω) (db : σ) (ws : List ω) : σ := ws.foldl E.apply db

@[simp] theorem view_nil (E : Engine Req ε σ ω) (db : σ) : E.view db [] = db := rfl

@[simp] theorem view_cons (E : Engine Req ε σ ω) (db : σ) (w : ω) (ws : List ω) :
    E.view db (w :: ws) = E.view (E.apply db w) ws := rfl

theorem view_append (E : Engine Req ε σ ω) (db : σ) (ws vs : List ω) :
    E.view db (ws ++ vs) = E.view (E.view db ws) vs := List.foldl_append

end Engine

namespace Program

variable {Req : Type → Type} {ε σ ω α β γ : Type}

def bind : Program Req ε α → (α → Program Req ε β) → Program Req ε β
  | ret a, f => f a
  | raise e, _ => raise e
  | request s next, f => request s fun r => (next r).bind f

instance : Monad (Program Req ε) where
  pure := ret
  bind := bind

def issue (s : Req β) : Program Req ε β := request s ret

def liftExcept : Except ε α → Program Req ε α
  | .ok a => ret a
  | .error e => raise e

def run (E : Engine Req ε σ ω) : Program Req ε α → σ → Except ε (α × σ)
  | ret a, db => .ok (a, db)
  | raise e, _ => .error e
  | request s next, db =>
    match E.exec s db with
    | .ok (r, ws) => (next r).run E (E.view db ws)
    | .error e => .error e

/-- `p.wp E Q X db`: run alone from `db`, `p` returns with `Q` or raises with `X`. -/
def wp (E : Engine Req ε σ ω) (Q : α → σ → Prop) (X : ε → Prop) : Program Req ε α → σ → Prop
  | ret a, db => Q a db
  | raise e, _ => X e
  | request s next, db =>
    match E.exec s db with
    | .ok (r, ws) => (next r).wp E Q X (E.view db ws)
    | .error e => X e

section Weakest

variable (E : Engine Req ε σ ω) {Q : α → σ → Prop} {X : ε → Prop}

theorem run_request_of_ok {s : Req β} {next : β → Program Req ε α} {db : σ} {r : β}
    {ws : List ω} (h : E.exec s db = .ok (r, ws)) :
    (request s next).run E db = (next r).run E (E.view db ws) := by
  rw [run, h]

theorem run_request_of_error {s : Req β} {next : β → Program Req ε α} {db : σ} {e : ε}
    (h : E.exec s db = .error e) : (request s next).run E db = .error e := by
  rw [run, h]

theorem wp_request_of_ok {s : Req β} {next : β → Program Req ε α} {db : σ} {r : β}
    {ws : List ω} (h : E.exec s db = .ok (r, ws)) :
    (request s next).wp E Q X db ↔ (next r).wp E Q X (E.view db ws) := by
  rw [wp, h]

theorem wp_request_of_error {s : Req β} {next : β → Program Req ε α} {db : σ} {e : ε}
    (h : E.exec s db = .error e) : (request s next).wp E Q X db ↔ X e := by
  rw [wp, h]

@[simp] theorem wp_ret (a : α) (db : σ) : (ret a : Program Req ε α).wp E Q X db ↔ Q a db :=
  Iff.rfl

@[simp] theorem wp_pure (a : α) (db : σ) : (pure a : Program Req ε α).wp E Q X db ↔ Q a db :=
  Iff.rfl

@[simp] theorem wp_raise (e : ε) (db : σ) : (raise e : Program Req ε α).wp E Q X db ↔ X e :=
  Iff.rfl

theorem wp_request (s : Req β) (next : β → Program Req ε α) (db : σ) :
    (request s next).wp E Q X db ↔
      (∀ r ws, E.exec s db = .ok (r, ws) → (next r).wp E Q X (E.view db ws)) ∧
      (∀ e, E.exec s db = .error e → X e) := by
  rcases h : E.exec s db with e | ⟨r, ws⟩
  · simp [wp_request_of_error E h]
  · simp [wp_request_of_ok E h]

theorem wp_issue_of_ok {Q : β → σ → Prop} {s : Req β} {db : σ} {r : β} {ws : List ω}
    (h : E.exec s db = .ok (r, ws)) :
    (issue s : Program Req ε β).wp E Q X db ↔ Q r (E.view db ws) :=
  wp_request_of_ok E h

@[simp] theorem wp_liftExcept (x : Except ε α) (db : σ) :
    (liftExcept x : Program Req ε α).wp E Q X db ↔
      (∀ a, x = .ok a → Q a db) ∧ (∀ e, x = .error e → X e) := by
  cases x <;> simp [liftExcept]

@[simp] theorem wp_bind {Q : β → σ → Prop} (p : Program Req ε α) (f : α → Program Req ε β)
    (db : σ) : (p >>= f).wp E Q X db ↔ p.wp E (fun a db' => (f a).wp E Q X db') X db := by
  change (p.bind f).wp E Q X db ↔ _
  induction p generalizing db with
  | ret a => rfl
  | raise e => rfl
  | request s next ih =>
    rw [bind]
    rcases h : E.exec s db with e | ⟨r, ws⟩
    · rw [wp_request_of_error E h, wp_request_of_error E h]
    · rw [wp_request_of_ok E h, wp_request_of_ok E h]
      exact ih r _

/-- The rule of consequence. -/
theorem wp_mono {Q R : α → σ → Prop} {X Y : ε → Prop} {p : Program Req ε α} {db : σ}
    (h : p.wp E Q X db) (returns : ∀ a db', Q a db' → R a db') (raises : ∀ e, X e → Y e) :
    p.wp E R Y db := by
  induction p generalizing db with
  | ret a => exact returns a db h
  | raise e => exact raises e h
  | request s next ih =>
    rcases he : E.exec s db with e | ⟨r, ws⟩
    · rw [wp_request_of_error E he] at h ⊢
      exact raises e h
    · rw [wp_request_of_ok E he] at h ⊢
      exact ih r h

theorem wp_iff_run {p : Program Req ε α} {db : σ} :
    p.wp E Q X db ↔ (∀ a db', p.run E db = .ok (a, db') → Q a db') ∧
      (∀ e, p.run E db = .error e → X e) := by
  induction p generalizing db with
  | ret a => simp [run, wp]
  | raise e => simp [run, wp]
  | request s next ih =>
    rcases h : E.exec s db with e | ⟨r, ws⟩
    · rw [wp_request_of_error E h, run_request_of_error E h]
      simp
    · rw [wp_request_of_ok E h, run_request_of_ok E h]
      exact ih r

theorem wp_ok {p : Program Req ε α} {db db' : σ} {a : α} (h : p.wp E Q X db)
    (ran : p.run E db = .ok (a, db')) : Q a db' := (wp_iff_run E |>.1 h).1 a db' ran

theorem wp_error {p : Program Req ε α} {db : σ} {e : ε} (h : p.wp E Q X db)
    (ran : p.run E db = .error e) : X e := (wp_iff_run E |>.1 h).2 e ran

theorem run_bind (p : Program Req ε α) (f : α → Program Req ε β) (db : σ) :
    (p >>= f).run E db =
      match p.run E db with
      | .ok (a, db') => (f a).run E db'
      | .error e => .error e := by
  change (p.bind f).run E db = _
  induction p generalizing db with
  | ret a => rfl
  | raise e => rfl
  | request s next ih =>
    rw [bind]
    rcases h : E.exec s db with e | ⟨r, ws⟩
    · rw [run_request_of_error E h, run_request_of_error E h]
    · rw [run_request_of_ok E h, run_request_of_ok E h]
      exact ih r _

theorem run_bind_pure_eq_error {p : Program Req ε α} {f : α → β} {db : σ} {e : ε} :
    (p >>= fun a => pure (f a)).run E db = .error e ↔ p.run E db = .error e := by
  rw [run_bind]
  cases p.run E db with
  | error e' => simp
  | ok r => simp [pure, run]

theorem run_bind_pure_eq_ok {p : Program Req ε α} {f : α → β} {db db' : σ} {b : β} :
    (p >>= fun a => pure (f a)).run E db = .ok (b, db') ↔
      ∃ a, p.run E db = .ok (a, db') ∧ f a = b := by
  rw [run_bind]
  cases p.run E db with
  | error e => simp
  | ok r =>
    obtain ⟨a, d⟩ := r
    change Except.ok (f a, d) = _ ↔ _
    simp [and_comm, eq_comm]

end Weakest

def Uses (P : ∀ {β : Type}, Req β → Prop) : Program Req ε α → Prop
  | ret _ => True
  | raise _ => True
  | request s next => P s ∧ ∀ r, (next r).Uses P

section Uses

variable {P : ∀ {β : Type}, Req β → Prop}

@[simp] theorem uses_pure (a : α) : (pure a : Program Req ε α).Uses P := trivial

@[simp] theorem uses_raise (e : ε) : (raise e : Program Req ε α).Uses P := trivial

theorem uses_issue {s : Req β} (h : P s) : (issue s : Program Req ε β).Uses P :=
  ⟨h, fun _ => trivial⟩

@[simp] theorem uses_liftExcept (x : Except ε α) : (liftExcept x : Program Req ε α).Uses P := by
  cases x <;> trivial

theorem uses_ite {c : Prop} [Decidable c] {p q : Program Req ε α} (first : p.Uses P)
    (second : q.Uses P) : (if c then p else q).Uses P := by
  split_ifs
  · exact first
  · exact second

theorem uses_bind {p : Program Req ε α} {f : α → Program Req ε β} (first : p.Uses P)
    (rest : ∀ a, (f a).Uses P) : (p >>= f).Uses P := by
  change (p.bind f).Uses P
  induction p with
  | ret a => exact rest a
  | raise e => trivial
  | request s next ih => exact ⟨first.1, fun r => ih r (first.2 r)⟩

/-- A program whose statements cannot tell two stores apart runs alike in both. -/
theorem run_of_agree {E : Engine Req ε σ ω} {Agree : σ → σ → Prop}
    (same : ∀ {β : Type} (s : Req β) {x y : σ}, P s → Agree x y → E.exec s x = E.exec s y)
    (keeps : ∀ {β : Type} (s : Req β) {x y : σ} {r : β} {ws : List ω}, P s → Agree x y →
      E.exec s x = .ok (r, ws) → Agree (E.view x ws) (E.view y ws))
    {p : Program Req ε α} (uses : p.Uses P) {x y : σ} (agree : Agree x y) :
    (∃ e, p.run E x = .error e ∧ p.run E y = .error e) ∨
      ∃ a x' y', p.run E x = .ok (a, x') ∧ p.run E y = .ok (a, y') ∧ Agree x' y' := by
  induction p generalizing x y with
  | ret a => exact Or.inr ⟨a, x, y, rfl, rfl, agree⟩
  | raise e => exact Or.inl ⟨e, rfl, rfl⟩
  | request s next ih =>
    have alike := same s uses.1 agree
    rcases h : E.exec s x with e | ⟨r, ws⟩
    · exact Or.inl ⟨e, run_request_of_error E h, run_request_of_error E (alike ▸ h)⟩
    · rw [run_request_of_ok E h, run_request_of_ok E (alike ▸ h)]
      exact ih r (uses.2 r) (keeps s uses.1 agree h)

end Uses

/-- The engine that fails first on the statements `refuse` names. -/
def guarded (E : Engine Req ε σ ω) (refuse : ∀ {β : Type}, Req β → Option ε) :
    Engine Req ε σ ω where
  apply := E.apply
  exec s db :=
    match refuse s with
    | some e => .error e
    | none => E.exec s db

/-- Under a guard a program runs as without it, or fails on a statement that is refused. -/
theorem run_guarded_cases {E : Engine Req ε σ ω} (refuse : ∀ {β : Type}, Req β → Option ε)
    (p : Program Req ε α) (db : σ) :
    p.run (guarded E refuse) db = p.run E db ∨
      ∃ (β : Type) (s : Req β) (e : ε), refuse s = some e ∧
        p.run (guarded E refuse) db = .error e := by
  induction p generalizing db with
  | ret a => exact Or.inl rfl
  | raise e => exact Or.inl rfl
  | @request β s next ih =>
    cases refused : refuse s with
    | some e =>
      have fails : (guarded E refuse).exec s db = .error e := by simp only [guarded, refused]
      exact Or.inr ⟨β, s, e, refused, run_request_of_error _ fails⟩
    | none =>
      have same : (guarded E refuse).exec s db = E.exec s db := by simp only [guarded, refused]
      rcases h : E.exec s db with e | ⟨r, ws⟩
      · rw [run_request_of_error E h, run_request_of_error _ (same.trans h)]
        exact Or.inl rfl
      · rw [run_request_of_ok E h, run_request_of_ok _ (same.trans h)]
        exact ih r _

theorem run_guarded_refused {E : Engine Req ε σ ω} {refuse : ∀ {β : Type}, Req β → Option ε}
    {s : Req β} {next : β → Program Req ε α} {e : ε} (refused : refuse s = some e) (db : σ) :
    (request s next).run (guarded E refuse) db = .error e :=
  run_request_of_error _ (by simp only [guarded, refused])

end Program

end OrderManagement
