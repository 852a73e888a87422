import Mathlib.Data.Fintype.Basic
import Mathlib.Logic.Relation
import Mathlib.Order.Basic
import OrderManagement.TransactionProtocol

/-! Transactions that take their locks one at a time, wait for those that others hold and
keep them to the end. If everyone takes locks by increasing rank, or under a gate that only
one transaction holds, then no transactions wait for each other in a cycle. -/

namespace OrderManagement

open Program

/-- An engine with the orders in which a statement takes its locks, and what it answers when
it was begun in one store and ends in another. -/
structure WaitingEngine (Req : Type → Type) (ε σ ω κ : Type) extends Engine Req ε σ ω where
  takes : {β : Type} → Req β → σ → List κ → Prop
  answer : {β : Type} → Req β → σ → σ → Except ε (β × List ω)

namespace LockWaits

variable {Req : Type → Type} {ε σ ω κ ι α γ : Type}

inductive Phase (Req : Type → Type) (ε σ ω κ α : Type) : Type 1
  | running (rest : Program Req ε α) (writes : List ω) (held : List κ)
  | taking {β : Type} (s : Req β) (next : β → Program Req ε α) (seen : σ) (writes : List ω)
      (held wanted : List κ)
  | committed (a : α)
  | failed (cause : Option ε)

namespace Phase

def held : Phase Req ε σ ω κ α → List κ
  | running _ _ held | taking _ _ _ _ held _ => held
  | committed _ | failed _ => []

def wants : Phase Req ε σ ω κ α → Option κ
  | taking _ _ _ _ _ (k :: _) => some k
  | _ => none

def result : Phase Req ε σ ω κ α → Option α
  | committed a => some a
  | _ => none

theorem result_eq_some {p : Phase Req ε σ ω κ α} {a : α} :
    p.result = some a ↔ p = .committed a := by
  cases p <;> simp [result]

def Active : Phase Req ε σ ω κ α → Prop
  | running _ _ _ | taking _ _ _ _ _ _ => True
  | committed _ | failed _ => False

end Phase

structure Exchange (Req : Type → Type) : Type 1 where
  {Answer : Type}
  request : Req Answer
  answer : Answer

/-- The committed store, the transactions, what each of them has been answered, newest first,
and those that committed, in that order. -/
structure Site (Req : Type → Type) (ε σ ω κ ι α : Type) : Type 1 where
  db : σ
  phase : ι → Phase Req ε σ ω κ α
  heard : ι → List (Exchange Req)
  log : List (ι × α)

def start (db : σ) (prog : ι → Program Req ε α) : Site Req ε σ ω κ ι α :=
  ⟨db, fun i => .running (prog i) [] [], fun _ => [], []⟩

def Site.Free (t : Site Req ε σ ω κ ι α) (i : ι) (k : κ) : Prop :=
  ∀ j, j ≠ i → k ∉ (t.phase j).held

def Site.WaitsFor (t : Site Req ε σ ω κ ι α) (i j : ι) : Prop :=
  i ≠ j ∧ ∃ k, (t.phase i).wants = some k ∧ k ∈ (t.phase j).held

def Site.Exclusive (t : Site Req ε σ ω κ ι α) : Prop :=
  ∀ ⦃i j : ι⦄ ⦃k : κ⦄, k ∈ (t.phase i).held → k ∈ (t.phase j).held → i = j

section Ranked

variable {R : Type} [Preorder R]

def Takeable (rank : κ → R) (gate : κ → Option κ) (held : List κ) (k : κ) : Prop :=
  k ∈ held ∨ ∀ h ∈ held, rank h < rank k ∨
    rank h = rank k ∧ ∃ g ∈ held, gate h = some g ∧ gate k = some g

def InOrder (rank : κ → R) (gate : κ → Option κ) : List κ → List κ → Prop
  | _, [] => True
  | held, k :: ks => Takeable rank gate held k ∧ InOrder rank gate (k :: held) ks

variable {rank : κ → R} {gate : κ → Option κ} {held ks rest : List κ} {t : Site Req ε σ ω κ ι α}

theorem inOrder_of_held (again : ∀ k ∈ ks, k ∈ held) : InOrder rank gate held ks := by
  induction ks generalizing held with
  | nil => trivial
  | cons k ks ih =>
    simp only [List.mem_cons, forall_eq_or_imp] at again
    exact ⟨Or.inl again.1, ih fun l mem => List.mem_cons_of_mem _ (again.2 l mem)⟩

theorem inOrder_of_rising (above : ∀ h ∈ held, ∀ k ∈ ks, rank h < rank k)
    (rising : ks.Pairwise (rank · < rank ·)) : InOrder rank gate held ks := by
  induction ks generalizing held with
  | nil => trivial
  | cons k ks ih =>
    rw [List.pairwise_cons] at rising
    refine ⟨Or.inr fun h mem => Or.inl (above h mem k (by simp)),
      ih (fun h mem l later => ?_) rising.2⟩
    rcases List.mem_cons.1 mem with rfl | old
    · exact rising.1 l later
    · exact above h old l (List.mem_cons_of_mem _ later)

theorem InOrder.drop (order : InOrder rank gate held (ks ++ rest)) :
    InOrder rank gate (ks.reverse ++ held) rest := by
  induction ks generalizing held with
  | nil => exact order
  | cons k ks ih =>
    rw [List.reverse_cons, List.append_assoc]
    exact ih order.2

theorem inOrder_of_gate {g : κ} {r : R} (gated : g ∈ held)
    (before : ∀ h ∈ held, rank h < r ∨ rank h = r ∧ gate h = some g)
    (share : ∀ k ∈ ks, rank k = r ∧ gate k = some g) : InOrder rank gate held ks := by
  induction ks generalizing held with
  | nil => trivial
  | cons k ks ih =>
    simp only [List.mem_cons, forall_eq_or_imp] at share
    obtain ⟨⟨same, gate⟩, share⟩ := share
    refine ⟨Or.inr fun h mem => ?_, ih (List.mem_cons_of_mem _ gated) (fun h mem => ?_) share⟩
    · exact (before h mem).imp (same ▸ ·) fun level => ⟨same ▸ level.1, g, gated, level.2, gate⟩
    · rcases List.mem_cons.1 mem with rfl | old
      · exact Or.inr ⟨same, gate⟩
      · exact before h old

theorem Site.WaitsFor.unheld (exclusive : t.Exclusive) {i j : ι} (wait : t.WaitsFor i j) {k : κ}
    (wants : (t.phase i).wants = some k) : k ∉ (t.phase i).held ∧ k ∈ (t.phase j).held := by
  obtain ⟨other, k', wants', held⟩ := wait
  obtain rfl := Option.some.inj (wants.symm.trans wants')
  exact ⟨fun mine => other (exclusive mine held), held⟩

theorem Site.WaitsFor.rank_le (exclusive : t.Exclusive)
    (ordered : ∀ i k, (t.phase i).wants = some k → Takeable rank gate (t.phase i).held k) {i j : ι}
    (wait : t.WaitsFor i j) {k l : κ} (first : (t.phase i).wants = some k)
    (last : (t.phase j).wants = some l) (unheld : l ∉ (t.phase j).held) :
    rank k < rank l ∨
      rank k = rank l ∧ ∃ g ∈ (t.phase j).held, gate k = some g ∧ gate l = some g :=
  (ordered j l last).resolve_left unheld k (wait.unheld exclusive first).2

/-- Along a path of waits the ranks of the locks waited for do not fall, and where they stay
the same all of them are taken under one gate, which the last transaction holds. -/
theorem rank_le_of_path (exclusive : t.Exclusive)
    (ordered : ∀ i k, (t.phase i).wants = some k → Takeable rank gate (t.phase i).held k)
    {i j : ι} (path : Relation.TransGen t.WaitsFor i j) {k l : κ}
    (first : (t.phase i).wants = some k)
    (last : (t.phase j).wants = some l) (unheld : l ∉ (t.phase j).held) :
    rank k < rank l ∨
      rank k = rank l ∧ ∃ g ∈ (t.phase j).held, gate k = some g ∧ gate l = some g := by
  induction path generalizing l with
  | single wait => exact wait.rank_le exclusive ordered first last unheld
  | tail path wait ih =>
    obtain ⟨-, m, wants, -⟩ := id wait
    have low := ih wants (wait.unheld exclusive wants).1
    have high := wait.rank_le exclusive ordered wants last unheld
    rcases low with low | ⟨low, g, -, gateFirst, gateMid⟩ <;>
      rcases high with high | ⟨high, g', held, gateMid', gateLast⟩
    · exact Or.inl (low.trans high)
    · exact Or.inl (high ▸ low)
    · exact Or.inl (low ▸ high)
    · obtain rfl := Option.some.inj (gateMid.symm.trans gateMid')
      exact Or.inr ⟨low.trans high, g, held, gateFirst, gateLast⟩

/-- Transactions that take their locks in order never wait for each other in a cycle. -/
theorem not_deadlocked (exclusive : t.Exclusive)
    (ordered : ∀ i k, (t.phase i).wants = some k → Takeable rank gate (t.phase i).held k) (i : ι) :
    ¬ Relation.TransGen t.WaitsFor i i := by
  intro cycle
  -- the gate of the lock that a transaction on a cycle waits for is held by itself
  have gated : ∀ {j : ι} {k : κ}, Relation.TransGen t.WaitsFor j j → (t.phase j).wants = some k →
      k ∉ (t.phase j).held → ∃ g ∈ (t.phase j).held, gate k = some g := by
    intro j k cycle wants unheld
    rcases rank_le_of_path exclusive ordered cycle wants wants unheld with
      low | ⟨-, g, held, -, gate⟩
    · exact (lt_irrefl _ low).elim
    · exact ⟨g, held, gate⟩
  obtain ⟨j, wait, back⟩ : ∃ j, t.WaitsFor i j ∧ Relation.TransGen t.WaitsFor j i := by
    obtain ⟨j, wait, rest⟩ := Relation.TransGen.head'_iff.1 cycle
    rcases Relation.reflTransGen_iff_eq_or_transGen.1 rest with rfl | rest
    · exact absurd rfl wait.1
    · exact ⟨j, wait, rest⟩
  obtain ⟨k, first⟩ : ∃ k, (t.phase i).wants = some k := by
    obtain ⟨-, k, wants, -⟩ := id wait
    exact ⟨k, wants⟩
  obtain ⟨l, second⟩ : ∃ l, (t.phase j).wants = some l := by
    obtain ⟨m, next, -⟩ := Relation.TransGen.head'_iff.1 back
    obtain ⟨-, l, wants, -⟩ := next
    exact ⟨l, wants⟩
  have unheld := (wait.unheld exclusive first).1
  have unheld' : l ∉ (t.phase j).held := by
    obtain ⟨m, next, -⟩ := Relation.TransGen.head'_iff.1 back
    exact (next.unheld exclusive second).1
  obtain ⟨g, held, gateFirst⟩ := gated cycle first unheld
  obtain ⟨g', held', gateSecond⟩ := gated (back.tail wait) second unheld'
  have up := wait.rank_le exclusive ordered first second unheld'
  have down := rank_le_of_path exclusive ordered back second first unheld
  rcases up with up | ⟨same, h, -, gateFirst', gateSecond'⟩
  · rcases down with down | ⟨same, -⟩
    · exact lt_asymm up down
    · exact lt_irrefl _ (same ▸ up)
  · obtain rfl := Option.some.inj (gateFirst.symm.trans gateFirst')
    obtain rfl := Option.some.inj (gateSecond.symm.trans gateSecond')
    exact wait.1 (exclusive held held')

end Ranked

variable [DecidableEq ι]

def Site.go (t : Site Req ε σ ω κ ι α) (i : ι) (p : Phase Req ε σ ω κ α) : Site Req ε σ ω κ ι α :=
  { t with phase := Function.update t.phase i p }

def Site.hear (t : Site Req ε σ ω κ ι α) (i : ι) (x : Exchange Req) : Site Req ε σ ω κ ι α :=
  { t with heard := Function.update t.heard i (x :: t.heard i) }

def Site.commit (t : Site Req ε σ ω κ ι α) (i : ι) (db : σ) (a : α) : Site Req ε σ ω κ ι α :=
  { t.go i (.committed a) with db, log := t.log ++ [(i, a)] }

inductive Step (E : WaitingEngine Req ε σ ω κ) (t : Site Req ε σ ω κ ι α) (i : ι) :
    Site Req ε σ ω κ ι α → Prop
  | begins {β : Type} {s : Req β} {next : β → Program Req ε α} {ws : List ω} {held wanted : List κ}
      (phase : t.phase i = .running (.request s next) ws held)
      (order : E.takes s (E.view t.db ws) wanted) :
      Step E t i (t.go i (.taking s next (E.view t.db ws) ws held wanted))
  | takes {β : Type} {s : Req β} {next : β → Program Req ε α} {seen : σ} {ws : List ω} {k : κ}
      {held wanted : List κ} (phase : t.phase i = .taking s next seen ws held (k :: wanted))
      (free : t.Free i k) : Step E t i (t.go i (.taking s next seen ws (k :: held) wanted))
  | answered {β : Type} {s : Req β} {next : β → Program Req ε α} {seen : σ} {ws vs : List ω}
      {held : List κ} {r : β} (phase : t.phase i = .taking s next seen ws held [])
      (answer : E.answer s seen (E.view t.db ws) = .ok (r, vs)) :
      Step E t i ((t.go i (.running (next r) (ws ++ vs) held)).hear i ⟨s, r⟩)
  | refused {β : Type} {s : Req β} {next : β → Program Req ε α} {seen : σ} {ws : List ω}
      {held : List κ} {e : ε} (phase : t.phase i = .taking s next seen ws held [])
      (answer : E.answer s seen (E.view t.db ws) = .error e) :
      Step E t i (t.go i (.failed (some e)))
  | raised {e : ε} {ws : List ω} {held : List κ} (phase : t.phase i = .running (.raise e) ws held) :
      Step E t i (t.go i (.failed (some e)))
  | aborted (active : (t.phase i).Active) : Step E t i (t.go i (.failed none))
  | committed {a : α} {ws : List ω} {held : List κ}
      (phase : t.phase i = .running (.ret a) ws held) :
      Step E t i (t.commit i (E.view t.db ws) a)

/-- What the steps of one transaction reach, each from a site that meets `P`. -/
inductive Reaches (E : WaitingEngine Req ε σ ω κ) (P : Site Req ε σ ω κ ι α → ι → Prop)
    (t₀ : Site Req ε σ ω κ ι α) : Site Req ε σ ω κ ι α → Prop
  | start : Reaches E P t₀ t₀
  | step {t t' : Site Req ε σ ω κ ι α} {i : ι} (before : Reaches E P t₀ t) (meets : P t i)
      (step : Step E t i t') : Reaches E P t₀ t'

/-- The next step of `i`, unless it waits or has ended. A statement that begins takes its
locks in the given order. -/
def advance [Fintype ι] [DecidableEq κ] (E : WaitingEngine Req ε σ ω κ)
    [∀ (β : Type) (s : Req β) (db : σ) (ks : List κ), Decidable (E.takes s db ks)]
    (t : Site Req ε σ ω κ ι α) (i : ι) (order : List κ) : Option (Site Req ε σ ω κ ι α) :=
  match t.phase i with
  | .running (.ret a) ws _ => some (t.commit i (E.view t.db ws) a)
  | .running (.raise e) _ _ => some (t.go i (.failed (some e)))
  | .running (.request s next) ws held =>
    if E.takes s (E.view t.db ws) order then
      some (t.go i (.taking s next (E.view t.db ws) ws held order))
    else none
  | .taking s next seen ws held (k :: wanted) =>
    if ∀ j, j ≠ i → k ∉ (t.phase j).held then
      some (t.go i (.taking s next seen ws (k :: held) wanted))
    else none
  | .taking s next seen ws held [] =>
    match E.answer s seen (E.view t.db ws) with
    | .ok (r, vs) => some ((t.go i (.running (next r) (ws ++ vs) held)).hear i ⟨s, r⟩)
    | .error e => some (t.go i (.failed (some e)))
  | .committed _ => none
  | .failed _ => none

def schedule [Fintype ι] [DecidableEq κ] (E : WaitingEngine Req ε σ ω κ)
    [∀ (β : Type) (s : Req β) (db : σ) (ks : List κ), Decidable (E.takes s db ks)]
    (t : Site Req ε σ ω κ ι α) (turns : List (ι × List κ)) : Option (Site Req ε σ ω κ ι α) :=
  turns.foldlM (fun t turn => advance E t turn.1 turn.2) t

section Schedule

variable [Fintype ι] [DecidableEq κ] {E : WaitingEngine Req ε σ ω κ}
  [∀ (β : Type) (s : Req β) (db : σ) (ks : List κ), Decidable (E.takes s db ks)]
  {t t₀ t' : Site Req ε σ ω κ ι α}

theorem advance_step {i : ι} {order : List κ} (h : advance E t i order = some t') :
    Step E t i t' := by
  unfold advance at h
  split at h
  · cases h
    exact .committed ‹_›
  · cases h
    exact .raised ‹_›
  · split_ifs at h with taken
    cases h
    exact .begins ‹_› taken
  · split_ifs at h with free
    cases h
    exact .takes ‹_› free
  · split at h <;> cases h
    · exact .answered ‹_› ‹_›
    · exact .refused ‹_› ‹_›
  · cases h
  · cases h

theorem schedule_reaches {P : Site Req ε σ ω κ ι α → ι → Prop} {turns : List (ι × List κ)}
    (reaches : Reaches E P t₀ t) (meets : ∀ t i, P t i) (h : schedule E t turns = some t') :
    Reaches E P t₀ t' := by
  induction turns generalizing t with
  | nil =>
    obtain rfl := Option.some.inj h
    exact reaches
  | cons turn turns ih =>
    obtain ⟨u, first, rest⟩ := Option.bind_eq_some_iff.1 h
    exact ih (reaches.step (meets _ _) (advance_step first)) rest

/-- A schedule that stops at a step that does not meet `P`. -/
def scheduleMeeting (E : WaitingEngine Req ε σ ω κ)
    [∀ (β : Type) (s : Req β) (db : σ) (ks : List κ), Decidable (E.takes s db ks)]
    (P : Site Req ε σ ω κ ι α → ι → Prop) [∀ t i, Decidable (P t i)] (t : Site Req ε σ ω κ ι α)
    (turns : List (ι × List κ)) : Option (Site Req ε σ ω κ ι α) :=
  turns.foldlM (fun t turn => if P t turn.1 then advance E t turn.1 turn.2 else none) t

theorem scheduleMeeting_reaches {P : Site Req ε σ ω κ ι α → ι → Prop} [∀ t i, Decidable (P t i)]
    {turns : List (ι × List κ)} (reaches : Reaches E P t₀ t)
    (h : scheduleMeeting E P t turns = some t') : Reaches E P t₀ t' := by
  induction turns generalizing t with
  | nil =>
    obtain rfl := Option.some.inj h
    exact reaches
  | cons turn turns ih =>
    obtain ⟨u, first, rest⟩ := Option.bind_eq_some_iff.1 h
    dsimp only at first
    split_ifs at first with meets
    exact ih (reaches.step meets (advance_step first)) rest

end Schedule

section Rules

variable {E : WaitingEngine Req ε σ ω κ} {P : Site Req ε σ ω κ ι α → ι → Prop}
  {t t₀ t' : Site Req ε σ ω κ ι α} {i : ι}

theorem Reaches.invariant (I : Site Req ε σ ω κ ι α → Prop) (start : I t₀)
    (step : ∀ t i t', I t → P t i → Step E t i t' → I t') (reaches : Reaches E P t₀ t) : I t := by
  induction reaches with
  | start => exact start
  | step before meets taken ih => exact step _ _ _ ih meets taken

theorem Reaches.mono {Q : Site Req ε σ ω κ ι α → ι → Prop} (reaches : Reaches E P t₀ t)
    (weaker : ∀ t i, P t i → Q t i) : Reaches E Q t₀ t := by
  induction reaches with
  | start => exact .start
  | step _ meets step ih => exact ih.step (weaker _ _ meets) step

theorem Step.phase_ne (step : Step E t i t') {j : ι} (other : j ≠ i) : t'.phase j = t.phase j := by
  cases step <;> exact Function.update_of_ne other _ _

theorem Step.heard_ne (step : Step E t i t') {j : ι} (other : j ≠ i) : t'.heard j = t.heard j := by
  cases step with
  | answered => exact Function.update_of_ne other _ _
  | _ => rfl

theorem Step.committed_stays (step : Step E t i t') {j : ι} {a : α}
    (h : t.phase j = .committed a) : t'.phase j = .committed a := by
  by_cases same : j = i
  · subst same
    cases step with
    | aborted active =>
      rw [h] at active
      exact active.elim
    | begins phase | takes phase | answered phase | refused phase | raised phase
    | committed phase => cases h.symm.trans phase
  · rwa [step.phase_ne same]

theorem Step.held (step : Step E t i t') {k : κ} (mem : k ∈ (t'.phase i).held) :
    k ∈ (t.phase i).held ∨ t.Free i k := by
  cases step with
  | begins phase | answered phase =>
    simp only [Site.hear, Site.go, Function.update_self, Phase.held] at mem
    rw [phase]
    exact Or.inl mem
  | takes phase free =>
    simp only [Site.go, Function.update_self, Phase.held, List.mem_cons] at mem
    rw [phase]
    rcases mem with rfl | old
    · exact Or.inr free
    · exact Or.inl old
  | refused | raised | aborted | committed => simp [Site.commit, Site.go, Phase.held] at mem

theorem Site.Exclusive.step (exclusive : t.Exclusive) (step : Step E t i t') : t'.Exclusive := by
  have mine : ∀ {j : ι} {k : κ}, j ≠ i → k ∈ (t'.phase i).held → k ∈ (t'.phase j).held → False := by
    intro j k other hi hj
    rw [step.phase_ne other] at hj
    rcases step.held hi with old | free
    · exact other (exclusive hj old)
    · exact free j other hj
  intro j l k hj hl
  by_cases ji : j = i <;> by_cases li : l = i
  · exact ji.trans li.symm
  · subst ji
    exact (mine li hj hl).elim
  · subst li
    exact (mine ji hl hj).elim
  · rw [step.phase_ne ji] at hj
    rw [step.phase_ne li] at hl
    exact exclusive hj hl

theorem Reaches.exclusive {db : σ} {prog : ι → Program Req ε α}
    (reaches : Reaches E P (LockWaits.start db prog) t) : t.Exclusive :=
  reaches.invariant Site.Exclusive (fun _ _ _ mem => by simp [LockWaits.start, Phase.held] at mem)
    fun _ _ _ exclusive _ step => exclusive.step step

end Rules

end LockWaits

end OrderManagement
