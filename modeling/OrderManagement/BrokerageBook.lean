import Mathlib.Algebra.BigOperators.Group.Finset.Basic
import Mathlib.Algebra.Order.Field.Basic
import Mathlib.Data.List.Infix
import Mathlib.Logic.Relation
import Mathlib.Tactic.Linarith
import Mathlib.Tactic.Ring

/-! The book of a brokerage. An order is its terms, its executions and a phase; what an account
has paid, what is set aside for it and what it holds are sums over its orders. The moves of a book
keep its orders sound and its accounts solvent. -/

namespace BrokerageBook

open scoped BigOperators

/-- `rests` says that what an execution leaves over stays in the market. -/
structure Terms (A I F : Type) where
  account : A
  instrument : I
  buys : Bool
  quantity : F
  limit : F
  rests : Bool

inductive Phase
  | working
  | revoking
  | filled
  | cancelled
  | rejected
  deriving DecidableEq, Repr

def Phase.isOpen : Phase → Bool
  | .working | .revoking => true
  | .filled | .cancelled | .rejected => false

structure Entry (A I F : Type) where
  terms : Terms A I F
  executions : List (F × F)
  phase : Phase

variable {A I K F : Type}

def Entry.inPhase (e : Entry A I F) (phase : Phase) : Entry A I F := { e with phase }

/-- The orders of a book under their keys. -/
structure Book (A I K F : Type) where
  keys : Finset K
  entry : K → Option (Entry A I F)
  known : ∀ k, k ∈ keys ↔ (entry k).isSome

namespace Book

theorem ext_entry {b c : Book A I K F} (same : b.entry = c.entry) : b = c := by
  obtain ⟨keys, entry, known⟩ := b
  obtain ⟨keys', entry', known'⟩ := c
  obtain rfl : entry = entry' := same
  obtain rfl : keys = keys' := Finset.ext fun k => (known k).trans (known' k).symm
  rfl

variable [DecidableEq K]

def set (b : Book A I K F) (k : K) (e : Entry A I F) : Book A I K F where
  keys := insert k b.keys
  entry := Function.update b.entry k (some e)
  known j := by
    by_cases same : j = k
    · simp [same]
    · simp [same, b.known]

/-- An order keeps its terms and its executions, and ends once. -/
def Extends (b b' : Book A I K F) : Prop :=
  ∀ k, ∀ e ∈ b.entry k, ∃ e' ∈ b'.entry k, e'.terms = e.terms ∧ e.executions <+: e'.executions ∧
    (e.phase.isOpen = false → e' = e)

variable {b b' : Book A I K F} {k : K} {e : Entry A I F}

omit [DecidableEq K] in
theorem Extends.refl (b : Book A I K F) : b.Extends b :=
  fun _ e found => ⟨e, found, rfl, List.prefix_rfl, fun _ => rfl⟩

omit [DecidableEq K] in
theorem Extends.trans {c : Book A I K F} (h : b.Extends b') (g : b'.Extends c) : b.Extends c := by
  intro k e found
  obtain ⟨e', found', terms, executions, done⟩ := h k e found
  obtain ⟨e'', found'', terms', executions', done'⟩ := g k e' found'
  refine ⟨e'', found'', terms'.trans terms, executions.trans executions', fun ended => ?_⟩
  obtain rfl := done ended
  exact done' ended

theorem Extends.set (own : ∀ d ∈ b.entry k, e.terms = d.terms ∧ d.executions <+: e.executions ∧
    (d.phase.isOpen = false → e = d)) : b.Extends (b.set k e) := by
  intro j d found
  by_cases same : j = k
  · subst same
    exact ⟨e, by simp [Book.set], own d found⟩
  · exact ⟨d, by simpa [Book.set, same] using found, rfl, List.prefix_rfl, fun _ => rfl⟩

end Book

variable [Field F]

namespace Entry

variable (e : Entry A I F)

def executed : F := (e.executions.map Prod.fst).sum

def value : F := (e.executions.map fun x => x.1 * x.2).sum

def left : F := if e.phase.isOpen then e.terms.quantity - e.executed else 0

def earmark : F := if e.terms.buys then e.left * e.terms.limit else 0

def paid : F := if e.terms.buys then e.value else -e.value

def net : F := if e.terms.buys then e.executed else -e.executed

variable {e} {phase : Phase}

@[simp] theorem paid_inPhase : (e.inPhase phase).paid = e.paid := rfl

theorem left_of_open (h : e.phase.isOpen = true) : e.left = e.terms.quantity - e.executed :=
  if_pos h

theorem earmark_of_done (h : e.phase.isOpen = false) : e.earmark = 0 := by
  simp [earmark, left, h]

theorem earmark_inPhase (same : phase.isOpen = e.phase.isOpen) :
    (e.inPhase phase).earmark = e.earmark := by
  simp [earmark, left, inPhase, executed, same]

variable [LinearOrder F]

def execute (e : Entry A I F) (x p : F) : Entry A I F where
  terms := e.terms
  executions := e.executions ++ [(x, p)]
  phase := if e.executed + x = e.terms.quantity then .filled
    else if e.terms.rests then e.phase else .cancelled

section Execute

variable {x p : F}

@[simp] theorem execute_terms : (e.execute x p).terms = e.terms := rfl

@[simp] theorem executed_execute : (e.execute x p).executed = e.executed + x := by
  simp [executed, execute]

end Execute

structure Sound (e : Entry A I F) : Prop where
  quantity : 0 < e.terms.quantity
  limit : 0 < e.terms.limit
  executions : ∀ x ∈ e.executions, 0 < x.1 ∧ 0 < x.2
  unfinished : e.phase.isOpen = true → e.executed < e.terms.quantity
  filled : e.phase = .filled ↔ e.executed = e.terms.quantity
  cancelled : e.phase = .cancelled → e.executed < e.terms.quantity
  rejected : e.phase = .rejected → e.executions = []

variable [IsStrictOrderedRing F] {x p : F}

omit [IsStrictOrderedRing F] in
theorem Sound.executed_le (h : e.Sound) : e.executed ≤ e.terms.quantity := by
  cases phase : e.phase with
  | working | revoking => exact (h.unfinished (by rw [phase]; rfl)).le
  | filled => exact (h.filled.1 phase).le
  | cancelled => exact (h.cancelled phase).le
  | rejected => simpa [executed, h.rejected phase] using h.quantity.le

theorem Sound.earmark_nonneg (h : e.Sound) : 0 ≤ e.earmark := by
  unfold earmark left
  split_ifs
  · exact mul_nonneg (sub_nonneg.2 h.executed_le) h.limit.le
  · rw [zero_mul]
  · exact le_refl 0

theorem Sound.execute (h : e.Sound) (isOpen : e.phase.isOpen = true) (some_ : 0 < x)
    (priced : 0 < p) (fits : x ≤ e.left) : (e.execute x p).Sound := by
  rw [left_of_open isOpen] at fits
  have most : e.executed + x ≤ e.terms.quantity := by linarith
  have notFilled : e.phase ≠ .filled := fun filled => by
    rw [filled] at isOpen
    cases isOpen
  have notRejected : e.phase ≠ .rejected := fun rejected => by
    rw [rejected] at isOpen
    cases isOpen
  refine ⟨h.quantity, h.limit, fun y mem => ?_, fun stays => ?_, ?_, fun rest => ?_, fun no => ?_⟩
  · rcases List.mem_append.1 mem with before | last
    · exact h.executions y before
    · obtain rfl := List.mem_singleton.1 last
      exact ⟨some_, priced⟩
  · rw [executed_execute, execute_terms]
    exact lt_of_le_of_ne most fun all => by simp [Entry.execute, all, Phase.isOpen] at stays
  · rw [executed_execute, execute_terms]
    by_cases all : e.executed + x = e.terms.quantity
    · simp [Entry.execute, all]
    · by_cases rests : e.terms.rests = true <;> simp [Entry.execute, all, rests, notFilled]
  · rw [executed_execute, execute_terms]
    exact lt_of_le_of_ne most fun all => by simp [Entry.execute, all] at rest
  · unfold Entry.execute at no
    dsimp only at no
    split_ifs at no
    exact absurd no notRejected

omit [IsStrictOrderedRing F] in
theorem Sound.inPhase (h : e.Sound) (isOpen : e.phase.isOpen = true) (unfilled : phase ≠ .filled)
    (untouched : phase = .rejected → e.executions = []) : (e.inPhase phase).Sound := by
  have less := h.unfinished isOpen
  exact ⟨h.quantity, h.limit, h.executions, fun _ => less, iff_of_false unfilled less.ne,
    fun _ => less, untouched⟩

end Entry

namespace Book

variable [DecidableEq K]

def sum (b : Book A I K F) (f : Entry A I F → F) : F := ∑ k ∈ b.keys, (b.entry k).elim 0 f

section Sums

variable {b : Book A I K F} {k : K} {e : Entry A I F}

theorem sum_set (f : Entry A I F → F) :
    (b.set k e).sum f + (b.entry k).elim 0 f = b.sum f + f e := by
  have after : f e + ∑ j ∈ b.keys.erase k, (b.entry j).elim 0 f = (b.set k e).sum f := by
    have split := Finset.add_sum_erase (insert k b.keys)
      (fun j => ((b.set k e).entry j).elim 0 f) (Finset.mem_insert_self k b.keys)
    rw [Finset.erase_insert_eq_erase] at split
    refine Eq.trans ?_ split
    congr 1
    · simp [set]
    · refine Finset.sum_congr rfl fun j mem => ?_
      simp [set, Finset.ne_of_mem_erase mem]
  have before : (b.entry k).elim 0 f + ∑ j ∈ b.keys.erase k, (b.entry j).elim 0 f = b.sum f := by
    by_cases mem : k ∈ b.keys
    · exact Finset.add_sum_erase b.keys (fun j => (b.entry j).elim 0 f) mem
    · have missing : b.entry k = none := by simpa [b.known] using mem
      simp [missing, Finset.erase_eq_of_notMem mem, sum]
  rw [← after, ← before]
  ring

omit [DecidableEq K] in
theorem sum_add (f g : Entry A I F → F) : (b.sum fun e => f e + g e) = b.sum f + b.sum g := by
  unfold sum
  rw [← Finset.sum_add_distrib]
  refine Finset.sum_congr rfl fun k _ => ?_
  cases b.entry k <;> simp

end Sums

variable [LinearOrder F]

def Sound (b : Book A I K F) : Prop := ∀ k, ∀ e ∈ b.entry k, e.Sound

theorem Sound.set {b : Book A I K F} {k : K} {e : Entry A I F} (h : b.Sound) (new : e.Sound) :
    (b.set k e).Sound := by
  intro j d found
  by_cases same : j = k
  · subst same
    obtain rfl : e = d := by simpa [Book.set] using found
    exact new
  · exact h j d (by simpa [Book.set, same] using found)

variable [DecidableEq A]

def spent (b : Book A I K F) (a : A) : F :=
  b.sum fun e => if e.terms.account = a then e.paid else 0

def reserved (b : Book A I K F) (a : A) : F :=
  b.sum fun e => if e.terms.account = a then e.earmark else 0

def net [DecidableEq I] (b : Book A I K F) (a : A) (i : I) : F :=
  b.sum fun e => if e.terms.account = a ∧ e.terms.instrument = i then e.net else 0

def balance (opening : A → Option F) (b : Book A I K F) (a : A) : F :=
  (opening a).getD 0 - b.spent a

def available (opening : A → Option F) (b : Book A I K F) (a : A) : F :=
  b.balance opening a - b.reserved a

inductive Moves (opening : A → Option F) (b : Book A I K F) : Book A I K F → Prop
  | placed {k : K} {e : Entry A I F} (new : b.entry k = none)
      (opened : (opening e.terms.account).isSome) (quantity : 0 < e.terms.quantity)
      (limit : 0 < e.terms.limit) (unexecuted : e.executions = []) (works : e.phase = .working)
      (covered : e.earmark ≤ b.available opening e.terms.account) : Moves opening b (b.set k e)
  | refused {k : K} {e : Entry A I F} (new : b.entry k = none)
      (opened : (opening e.terms.account).isSome) (quantity : 0 < e.terms.quantity)
      (limit : 0 < e.terms.limit) (unexecuted : e.executions = []) (ended : e.phase = .rejected)
      (short : b.available opening e.terms.account < (e.inPhase .working).earmark) :
      Moves opening b (b.set k e)
  | executed {k : K} {e : Entry A I F} {x p : F} (found : b.entry k = some e)
      (isOpen : e.phase.isOpen = true) (some_ : 0 < x) (priced : 0 < p) (fits : x ≤ e.left)
      (covered : 0 ≤ (b.set k (e.execute x p)).available opening e.terms.account) :
      Moves opening b (b.set k (e.execute x p))
  | revoked {k : K} {e : Entry A I F} (found : b.entry k = some e) (works : e.phase = .working) :
      Moves opening b (b.set k (e.inPhase .revoking))
  | cancelled {k : K} {e : Entry A I F} (found : b.entry k = some e)
      (isOpen : e.phase.isOpen = true) : Moves opening b (b.set k (e.inPhase .cancelled))
  | rejected {k : K} {e : Entry A I F} (found : b.entry k = some e) (works : e.phase = .working)
      (unexecuted : e.executions = []) : Moves opening b (b.set k (e.inPhase .rejected))

def Solvent (opening : A → Option F) (b : Book A I K F) : Prop := ∀ a, 0 ≤ b.available opening a

variable [IsStrictOrderedRing F] {opening : A → Option F} {b b' : Book A I K F} {k : K}
  {e e' : Entry A I F}

theorem Moves.sound (h : Moves opening b b') (sound : b.Sound) : b'.Sound := by
  cases h with
  | placed new opened quantity limit unexecuted works covered =>
    refine sound.set ⟨quantity, limit, ?_, ?_, ?_, ?_, ?_⟩ <;>
      simp [unexecuted, works, Entry.executed, quantity, quantity.ne]
  | refused new opened quantity limit unexecuted ended short =>
    refine sound.set ⟨quantity, limit, ?_, ?_, ?_, ?_, ?_⟩ <;>
      simp [unexecuted, ended, Entry.executed, quantity, quantity.ne]
  | executed found isOpen some_ priced fits covered =>
    exact sound.set ((sound _ _ found).execute isOpen some_ priced fits)
  | revoked found works =>
    exact sound.set ((sound _ _ found).inPhase (by rw [works]; rfl) (by simp) (by simp))
  | cancelled found isOpen =>
    exact sound.set ((sound _ _ found).inPhase isOpen (by simp) (by simp))
  | rejected found works unexecuted =>
    exact sound.set ((sound _ _ found).inPhase (by rw [works]; rfl) (by simp) fun _ => unexecuted)

theorem available_set (opening : A → Option F) (a : A) : (b.set k e).available opening a =
    b.available opening a +
      (b.entry k).elim 0 (fun e => if e.terms.account = a then e.paid + e.earmark else 0) -
      if e.terms.account = a then e.paid + e.earmark else 0 := by
  have total : ∀ c : Book A I K F, c.available opening a = (opening a).getD 0 -
      c.sum fun e => if e.terms.account = a then e.paid + e.earmark else 0 := fun c => by
    have both : (fun e : Entry A I F => if e.terms.account = a then e.paid + e.earmark else 0) =
        fun e => (if e.terms.account = a then e.paid else 0) +
          if e.terms.account = a then e.earmark else 0 := by
      funext e
      split_ifs <;> simp
    rw [both, sum_add]
    unfold available balance spent reserved
    ring
  have change := sum_set (b := b) (k := k) (e := e)
    fun e => if e.terms.account = a then e.paid + e.earmark else 0
  rw [total, total]
  linarith

theorem Solvent.set (h : b.Solvent opening) (found : b.entry k = some e)
    (account : e'.terms = e.terms) (less : e'.paid + e'.earmark ≤ e.paid + e.earmark) :
    (b.set k e').Solvent opening := by
  intro a
  have before := h a
  rw [available_set, found, Option.elim_some, account]
  split_ifs
  · linarith
  · linarith

theorem Moves.solvent (h : Moves opening b b') (sound : b.Sound) (solvent : b.Solvent opening) :
    b'.Solvent opening := by
  cases h with
  | @placed k e new opened quantity limit unexecuted works covered =>
    intro a
    have free := solvent a
    have unpaid : e.paid = 0 := by simp [Entry.paid, Entry.value, unexecuted]
    rw [available_set, new, Option.elim_none, unpaid]
    split_ifs with own
    · subst own
      linarith
    · linarith
  | @refused k e new opened quantity limit unexecuted ended short =>
    intro a
    have free := solvent a
    have unpaid : e.paid = 0 := by simp [Entry.paid, Entry.value, unexecuted]
    have done : e.earmark = 0 := Entry.earmark_of_done (by rw [ended]; rfl)
    rw [available_set, new, Option.elim_none, unpaid, done]
    simpa using free
  | @executed k e x p found isOpen some_ priced fits covered =>
    intro a
    by_cases own : e.terms.account = a
    · exact own ▸ covered
    · have free := solvent a
      rw [available_set, found, Option.elim_some]
      simpa [own] using free
  | @revoked k e found works =>
    refine solvent.set found rfl ?_
    rw [Entry.paid_inPhase, Entry.earmark_inPhase (by rw [works]; rfl)]
  | @cancelled k e found isOpen =>
    refine solvent.set found rfl ?_
    rw [Entry.paid_inPhase, Entry.earmark_of_done rfl, add_zero]
    exact le_add_of_nonneg_right (sound _ _ found).earmark_nonneg
  | @rejected k e found works unexecuted =>
    refine solvent.set found rfl ?_
    rw [Entry.paid_inPhase, Entry.earmark_of_done rfl, add_zero]
    exact le_add_of_nonneg_right (sound _ _ found).earmark_nonneg

omit [IsStrictOrderedRing F] in
theorem Moves.extends (h : Moves opening b b') : b.Extends b' := by
  have open_ : ∀ {k : K} {e e' : Entry A I F}, b.entry k = some e → e.phase.isOpen = true →
      e'.terms = e.terms → e.executions <+: e'.executions → b.Extends (b.set k e') := by
    intro k e e' found isOpen terms executions
    refine Extends.set fun d there => ?_
    obtain rfl : e = d := Option.some.inj (found.symm.trans there)
    exact ⟨terms, executions, fun done => by simp [isOpen] at done⟩
  cases h with
  | placed new | refused new => exact Extends.set fun d there => by simp [new] at there
  | executed found isOpen => exact open_ found isOpen rfl (List.prefix_append _ _)
  | revoked found works => exact open_ found (by rw [works]; rfl) rfl List.prefix_rfl
  | cancelled found isOpen => exact open_ found isOpen rfl List.prefix_rfl
  | rejected found works => exact open_ found (by rw [works]; rfl) rfl List.prefix_rfl

theorem moves_run (run : Relation.ReflTransGen (Moves opening) b b') (sound : b.Sound)
    (solvent : b.Solvent opening) : b'.Sound ∧ b'.Solvent opening ∧ b.Extends b' := by
  induction run with
  | refl => exact ⟨sound, solvent, .refl b⟩
  | tail _ moves ih =>
    obtain ⟨sound, solvent, further⟩ := ih
    exact ⟨moves.sound sound, moves.solvent sound solvent, further.trans moves.extends⟩

end Book

end BrokerageBook
