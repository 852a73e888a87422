import OrderManagement.OrderRuns
import OrderManagement.StatementLocks

/-! Accounts opened side by side. A call looks its user up and inserts; two calls for one user
may both find nothing, and then the unique index lets the first through and refuses the other. -/

namespace OrderManagement

open Program ReadCommitted TransitionRuns

structure Opening where
  accountId : UUID
  payload : AccountCreate

def Db.Taken (db : Db) (userId : String) : Prop := ∃ a ∈ db.accounts.rows, a.userId = userId

namespace Opening

variable (num : Numeric) (c : Opening) (db : Db)

def userId : String := c.payload.userId

def account : Account := newAccount c.accountId c.payload

def row : Account := c.account.stored num

def program : Txn Account := createAccount c.accountId c.payload

/-- What is left of the call once it has found no account of the user. -/
def insertion : Txn Account := .request (.insertAccount c.account) fun _ => .ret c.account

def lookedUp : Option Account → Txn Account
  | some _ => .raise (.domain (.duplicateAccount c.userId))
  | none => c.insertion

/-- What the caller gets of a failure: any IntegrityError counts as a duplicate. -/
def raises : Failure → Failure
  | .integrity _ => .domain (.duplicateAccount c.userId)
  | failure => failure

inductive Good : Txn Account → List Write → List Lock → Prop
  | start : Good c.program [] []
  | absent : Good c.insertion [] []
  | found (taken : db.Taken c.userId) : Good (.raise (.domain (.duplicateAccount c.userId))) [] []
  | inserted (kept : (c.row num).refusal num db = none) :
    Good (.ret c.account) [.insertAccount (c.row num)] [.account c.accountId, .user c.userId]

inductive Blocked : Failure → Prop
  | found (taken : db.Taken c.userId) : Blocked (.domain (.duplicateAccount c.userId))
  | user (taken : db.Taken c.userId) : Blocked (.integrity .accountsUserId)
  | id (used : (db.accounts.find c.accountId).isSome) : Blocked (.integrity .accountsPkey)
  | row {failure : Failure} (violation : (c.row num).violation num = some failure) : Blocked failure

end Opening

theorem Db.taken_iff {db : Db} {userId : String} :
    db.Taken userId ↔ (db.accounts.first fun a => a.userId = userId).isSome := by
  rw [Option.isSome_iff_ne_none, ne_eq, Table.first_eq_none_iff]
  simp [Db.Taken]

theorem Account.refusal_eq_none_iff {num : Numeric} {db : Db} {a : Account} :
    a.refusal num db = none ↔
      a.violation num = none ∧ db.accounts.find a.id = none ∧ ¬ db.Taken a.userId := by
  rw [Db.taken_iff]
  simp [Account.refusal]

theorem writeUnless_eq_error {refusal : Option Failure} {row : Write} {failure : Failure} :
    writeUnless refusal row = .error failure ↔ refusal = some failure := by
  cases refusal <;> simp [writeUnless]

section Calls

variable {num : Numeric} {c : Opening} {db db' : Db} {rest : Txn Account} {ws : List Write}
  {locks : List Lock} {failure : Failure}

theorem Opening.blocked_of_refusal (refused : (c.row num).refusal num db = some failure) :
    c.Blocked num db failure := by
  rw [Account.refusal, Option.or_eq_some_iff, Option.or_eq_some_iff] at refused
  rcases refused with violation | ⟨-, id | ⟨-, user⟩⟩
  · exact .row violation
  · unfold conflict at id
    split_ifs at id with used
    obtain rfl := Option.some.inj id
    exact .id used
  · unfold conflict at user
    split_ifs at user with taken
    obtain rfl := Option.some.inj user
    exact .user (Db.taken_iff.2 taken)

theorem Opening.data_of_violation (violation : (c.row num).violation num = some failure) :
    ∃ column, failure = .data column := by
  have cash : 0 ≤ (c.row num).cashBalance := num.round_nonneg c.payload.initialCashBalance_pos.le
  have reserved : (c.row num).reservedCash = 0 := num.round_zero
  obtain ⟨condition, found, rfl⟩ := Option.map_eq_some_iff.1 violation
  have failed := List.find?_some found
  have mem := List.mem_of_find?_eq_some found
  simp only [List.mem_cons, List.not_mem_nil, or_false] at mem
  rcases mem with rfl | rfl | rfl | rfl | rfl | rfl
  · exact ⟨_, rfl⟩
  · exact ⟨_, rfl⟩
  · exact ⟨_, rfl⟩
  · simp [cash] at failed
  · simp [reserved] at failed
  · simp [cash, reserved] at failed

theorem Opening.Blocked.raises (h : c.Blocked num db failure) :
    c.raises failure = .domain (.duplicateAccount c.userId) ∧
        (db.Taken c.userId ∨ (db.accounts.find c.accountId).isSome) ∨
      (∃ column, c.raises failure = .data column) ∧ (c.row num).violation num = some failure := by
  cases h with
  | found taken | user taken => exact Or.inl ⟨rfl, Or.inl taken⟩
  | id used => exact Or.inl ⟨rfl, Or.inr used⟩
  | row violation =>
    obtain ⟨column, rfl⟩ := Opening.data_of_violation violation
    exact Or.inr ⟨⟨column, rfl⟩, violation⟩

theorem Opening.program_eq (c : Opening) :
    c.program = .request (.accountByUserId c.userId) c.lookedUp := by
  unfold program createAccount
  congr 1

theorem Opening.Good.statement {β : Type} {s : Stmt β} {next : β → Txn Account} {vs : List Write}
    {r : β} (h : c.Good num db (.request s next) ws locks)
    (answer : exec num s ((postgres num).view db ws) = .ok (r, vs)) :
    c.Good num db (next r) (ws ++ vs) (locks ++ needs s ((postgres num).view db ws)) := by
  generalize eq : Program.request s next = rest at h
  cases h with
  | start =>
    rw [program_eq] at eq
    cases eq
    simp only [exec, Except.ok.injEq, Prod.mk.injEq] at answer
    obtain ⟨rfl, rfl⟩ := answer
    cases first : ((postgres num).view db []).accounts.first fun a => a.userId = c.userId with
    | some a => exact .found (Db.taken_iff.2 (Option.isSome_iff_exists.2 ⟨a, first⟩))
    | none => exact .absent
  | absent =>
    cases eq
    obtain ⟨kept, rfl⟩ := writeUnless_eq_ok.1 answer
    exact .inserted kept
  | found | inserted => cases eq

theorem Opening.Good.refused {β : Type} {s : Stmt β} {next : β → Txn Account}
    (h : c.Good num db (.request s next) ws locks)
    (answer : exec num s ((postgres num).view db ws) = .error failure) :
    c.Blocked num db failure := by
  generalize eq : Program.request s next = rest at h
  cases h with
  | start =>
    rw [program_eq] at eq
    cases eq
    cases answer
  | absent =>
    cases eq
    exact Opening.blocked_of_refusal (writeUnless_eq_error.1 answer)
  | found | inserted => cases eq

theorem Opening.Good.raised (h : c.Good num db (.raise failure) ws locks) :
    c.Blocked num db failure := by
  generalize eq : Program.raise failure = rest at h
  cases h with
  | found taken =>
    cases eq
    exact .found taken
  | start =>
    rw [program_eq] at eq
    cases eq
  | absent | inserted => cases eq

theorem Opening.Good.returned {a : Account} (h : c.Good num db (.ret a) ws locks) :
    a = c.account ∧ ws = [.insertAccount (c.row num)] ∧
      locks = [.account c.accountId, .user c.userId] ∧ (c.row num).refusal num db = none := by
  generalize eq : Program.ret a = rest at h
  cases h with
  | inserted kept =>
    cases eq
    exact ⟨rfl, rfl, rfl, kept⟩
  | start =>
    rw [program_eq] at eq
    cases eq
  | absent | found => cases eq

/-- Alone, the call inserts its row unless something stands in its way. -/
theorem Opening.run_program (kept : (c.row num).refusal num db = none) :
    c.program.run (postgres num) db = .ok (c.account, db.apply (.insertAccount (c.row num))) := by
  have unused : db.accounts.first (fun a => a.userId = c.userId) = none := by
    rw [← Option.not_isSome_iff_eq_none, ← Db.taken_iff]
    exact (Account.refusal_eq_none_iff.1 kept).2.2
  have sent : (postgres num).exec (.insertAccount c.account) db =
      .ok ((), [.insertAccount (c.row num)]) := writeUnless_eq_ok.2 ⟨kept, rfl⟩
  have looked : (postgres num).exec (.accountByUserId c.userId) db = .ok (none, []) := by
    change exec num (.accountByUserId c.userId) db = _
    simp only [exec, unused]
  rw [program_eq, run_request_of_ok _ looked]
  exact run_request_of_ok _ sent

theorem rows_insertAccount {row : Account} (new : row.refusal num db = none) :
    (db.apply (.insertAccount row)).accounts.rows = db.accounts.rows ++ [row] :=
  Table.rows_put_of_new (Account.refusal_eq_none_iff.1 new).2.1

theorem Opening.Good.frame {other : Opening} (h : c.Good num db rest ws locks)
    (new : (other.row num).refusal num db = none)
    (apart : ∀ k ∈ locks, k ∉ [Lock.account other.accountId, .user other.userId]) :
    c.Good num (db.apply (.insertAccount (other.row num))) rest ws locks := by
  have rows := rows_insertAccount new
  cases h with
  | start => exact .start
  | absent => exact .absent
  | found taken =>
    obtain ⟨a, mem, same⟩ := taken
    exact .found ⟨a, rows ▸ List.mem_append_left _ mem, same⟩
  | inserted kept =>
    obtain ⟨violation, id, user⟩ := Account.refusal_eq_none_iff.1 kept
    refine .inserted (Account.refusal_eq_none_iff.2 ⟨violation, ?_, ?_⟩)
    · have ne : (other.row num).id ≠ (c.row num).id := fun same =>
        apart (.account c.accountId) (by simp)
          (by simp [show other.accountId = c.accountId from same])
      exact (Table.find_put_of_ne ne).trans id
    · rintro ⟨a, mem, same⟩
      rw [rows, List.mem_append, List.mem_singleton] at mem
      rcases mem with there | rfl
      · exact user ⟨a, there, same⟩
      · exact apart (.user c.userId) (by simp) (by simp [show other.userId = c.userId from same])

theorem Opening.Blocked.grows {other : Opening} (h : c.Blocked num db failure)
    (new : (other.row num).refusal num db = none) :
    c.Blocked num (db.apply (.insertAccount (other.row num))) failure := by
  have rows := rows_insertAccount new
  have taken : db.Taken c.userId → (db.apply (.insertAccount (other.row num))).Taken c.userId := by
    rintro ⟨a, mem, same⟩
    exact ⟨a, rows ▸ List.mem_append_left _ mem, same⟩
  cases h with
  | found was => exact .found (taken was)
  | user was => exact .user (taken was)
  | id used => exact .id (Table.find_put_isSome _ used)
  | row violation => exact .row violation

end Calls

/-- No user has two accounts. -/
def Db.Named (db : Db) : Prop := (db.accounts.rows.map Account.userId).Nodup

section Beside

variable {ι : Type} {num : Numeric} {openings : ι → Opening} {db₀ : Db}

theorem Db.Named.insert {db : Db} {a : Account} (named : db.Named)
    (new : a.refusal num db = none) : (db.apply (.insertAccount a)).Named := by
  unfold Db.Named
  rw [rows_insertAccount new, List.map_append]
  refine List.Nodup.append named (List.nodup_singleton _) ?_
  simp only [List.map_cons, List.map_nil, List.disjoint_singleton, List.mem_map, not_exists,
    not_and]
  exact fun b mem same => (Account.refusal_eq_none_iff.1 new).2.2 ⟨b, mem, same⟩

theorem openings_replayable (num : Numeric) (openings : ι → Opening) :
    Replayable (lockingPostgres num) (fun i => (openings i).program) (· = ·) Db.Named
      (fun _ _ => True) (fun i => (openings i).Good num) where
  start _ _ _ := .start
  statement _ h answer := h.statement answer
  refused _ _ _ := trivial
  raised _ _ := trivial
  commit named h := by
    obtain ⟨rfl, rfl, rfl, new⟩ := h.returned
    exact ⟨named.insert new, _, Opening.run_program new, rfl⟩
  frame _ h committed _ apart := by
    obtain ⟨rfl, rfl, rfl, new⟩ := committed.returned
    exact h.frame new apart

theorem Serial.committed_eq {prog : ι → Txn Account} {Same : Account → Account → Prop}
    {log : List (ι × Account)} {db : Db}
    (h : Serial (lockingPostgres num) prog Same db₀ log db) :
    db = run (fun db i => committed num (prog i) db) db₀ (log.map Prod.fst) := by
  induction h with
  | nil => rfl
  | @snoc log db' db'' i a a' before ran same ih =>
    rw [List.map_append, run_append, ← ih]
    simp only [List.map_cons, List.map_nil, run_cons, run_nil]
    unfold committed
    rw [show (prog i).run (postgres num) db' = .ok (a', db'') from ran]

variable {site : Site Stmt Failure Db Write Lock ι Account}

/-- The accounts are the earlier ones and those of the calls that committed, in that order, and
what made a call fail stays there. -/
structure Opened (num : Numeric) (openings : ι → Opening) (db₀ : Db)
    (site : Site Stmt Failure Db Write Lock ι Account) : Prop where
  rows : site.db.accounts.rows =
    db₀.accounts.rows ++ site.log.map fun e => (openings e.1).row num
  failed : ∀ i failure, site.phase i = .failed (some failure) →
    (openings i).Blocked num site.db failure

theorem Opened.taken_iff (h : Opened num openings db₀ site) {userId : String} :
    site.db.Taken userId ↔ db₀.Taken userId ∨ ∃ e ∈ site.log, (openings e.1).userId = userId := by
  unfold Db.Taken
  simp only [h.rows, List.mem_append, List.mem_map]
  constructor
  · rintro ⟨a, mem | ⟨e, mem, rfl⟩, same⟩
    · exact Or.inl ⟨a, mem, same⟩
    · exact Or.inr ⟨e, mem, same⟩
  · rintro (⟨a, mem, same⟩ | ⟨e, mem, same⟩)
    · exact ⟨a, Or.inl mem, same⟩
    · exact ⟨_, Or.inr ⟨e, mem, rfl⟩, same⟩

theorem Opened.taken_of_failed (h : Opened num openings db₀ site) {i : ι} {failure : Failure}
    (failed : site.phase i = .failed (some failure))
    (fits : ((openings i).row num).violation num = none)
    (unused : db₀.accounts.find (openings i).accountId = none)
    (own : ∀ e ∈ site.log, (openings e.1).accountId ≠ (openings i).accountId) :
    site.db.Taken (openings i).userId := by
  cases h.failed i failure failed with
  | found taken | user taken => exact taken
  | id used =>
    obtain ⟨a, found⟩ := Option.isSome_iff_exists.1 used
    have mem := Table.mem_of_find found
    have key := Table.find_key found
    rw [h.rows, List.mem_append, List.mem_map] at mem
    rcases mem with before | ⟨e, logged, rfl⟩
    · have there := Table.find_of_mem before
      rw [key, unused] at there
      cases there
    · exact absurd key (own e logged)
  | row violation =>
    rw [fits] at violation
    cases violation

variable [DecidableEq ι]

theorem reachable_opened (named : db₀.Named)
    (reachable : Reachable (lockingPostgres num) db₀ (fun i => (openings i).program) site) :
    Opened num openings db₀ site := by
  induction reachable with
  | refl => exact ⟨by simp [start], fun i failure failed => by simp [start] at failed⟩
  | @tail t t' before step ih =>
    have consistent := Reachable.consistent (openings_replayable num openings) named before
    have others : ∀ {i : ι} {p : Phase Stmt Failure Write Lock Account},
        (∀ failure, p = .failed (some failure) → (openings i).Blocked num t.db failure) →
        ∀ j failure, Function.update t.phase i p j = .failed (some failure) →
          (openings j).Blocked num t.db failure := by
      intro i p own j failure failed
      rcases update_cases failed with ⟨rfl, eq⟩ | ⟨-, eq⟩
      · exact own failure eq
      · exact ih.failed j failure eq
    cases step with
    | statement => exact ⟨ih.rows, others fun _ eq => by cases eq⟩
    | refused active answer =>
      exact ⟨ih.rows, others fun _ eq => by cases eq; exact (consistent.good active).refused answer⟩
    | raised active =>
      exact ⟨ih.rows, others fun _ eq => by cases eq; exact (consistent.good active).raised⟩
    | aborted => exact ⟨ih.rows, others fun _ eq => by cases eq⟩
    | committed active =>
      obtain ⟨rfl, rfl, rfl, new⟩ := (consistent.good active).returned
      refine ⟨?_, fun j failure failed => ?_⟩
      · exact (rows_insertAccount new).trans (by simp [ih.rows])
      · rcases update_cases failed with ⟨-, eq⟩ | ⟨-, eq⟩
        · cases eq
        · exact (ih.failed j failure eq).grows new

/-- However the calls are interleaved, what they leave is what those that committed leave one
after the other. Once all have ended, each user has one account: the one there was before, or
that of the one call that got through; all other calls raise a duplicate. -/
theorem one_account_opened (named : db₀.Named)
    (reachable : Reachable (lockingPostgres num) db₀ (fun i => (openings i).program) site) :
    (site.db =
        run (fun db i => committed num (openings i).program db) db₀ (site.log.map Prod.fst) ∧
      site.db.Named) ∧
    ((∀ i, (∃ a, site.phase i = .committed a) ∨ ∃ failure, site.phase i = .failed (some failure)) →
      Function.Injective (fun i => (openings i).accountId) →
      (∀ i, db₀.accounts.find (openings i).accountId = none) →
      (∀ i, ((openings i).row num).violation num = none) → ∀ i,
      (db₀.Taken (openings i).userId → ∀ a, site.phase i ≠ .committed a) ∧
      (¬ db₀.Taken (openings i).userId → ∃! j, (openings j).userId = (openings i).userId ∧
        ∃ a, site.phase j = .committed a) ∧
      ∀ failure, site.phase i = .failed (some failure) →
        (openings i).raises failure = .domain (.duplicateAccount (openings i).userId)) := by
  have consistent := Reachable.consistent (openings_replayable num openings) named reachable
  have opened := reachable_opened named reachable
  have distinct := consistent.inv
  unfold Db.Named at distinct
  rw [opened.rows, List.map_append, List.map_map, List.nodup_append] at distinct
  obtain ⟨-, once, apart⟩ := distinct
  refine ⟨⟨Serial.committed_eq consistent.serial, consistent.inv⟩,
    fun ended ids unused fits i => ⟨?_, fun free => ?_, ?_⟩⟩
  · rintro ⟨a, mem, same⟩ b through
    exact apart _ (List.mem_map_of_mem mem) _
      (List.mem_map_of_mem (consistent.logged.2 through)) same
  · obtain ⟨j, user, through⟩ : ∃ j, (openings j).userId = (openings i).userId ∧
        ∃ a, site.phase j = .committed a := by
      rcases ended i with through | ⟨failure, failed⟩
      · exact ⟨i, rfl, through⟩
      · have own : ∀ e ∈ site.log, (openings e.1).accountId ≠ (openings i).accountId := by
          intro e logged same
          have through := consistent.logged.1 (show (e.1, e.2) ∈ site.log from logged)
          rw [ids same, failed] at through
          cases through
        have taken := opened.taken_of_failed failed (fits i) (unused i) own
        obtain ⟨e, logged, user⟩ := (opened.taken_iff.1 taken).resolve_left free
        exact ⟨e.1, user, e.2, consistent.logged.1 logged⟩
    refine ⟨j, ⟨user, through⟩, ?_⟩
    rintro l ⟨user', b, through'⟩
    obtain ⟨a, through⟩ := through
    have same := List.inj_on_of_nodup_map once (consistent.logged.2 through')
      (consistent.logged.2 through) (user'.trans user.symm)
    exact congrArg Prod.fst same
  · intro failure failed
    rcases (opened.failed i failure failed).raises with ⟨duplicate, -⟩ | ⟨-, violation⟩
    · exact duplicate
    · rw [fits i] at violation
      cases violation

end Beside

/-! Two calls for the trader that both find no account. -/

def traderOpenings : Bool → Opening
  | true => ⟨1, traderAccount⟩
  | false => ⟨11, traderAccount⟩

def bothLookedUp : Option (Site Stmt Failure Db Write Lock Bool Account) :=
  schedule (lockingPostgres .exact)
    (ReadCommitted.start Db.empty fun i => (traderOpenings i).program)
    [true, false, true, true, false]

def Site.failure {ι α : Type} (site : Site Stmt Failure Db Write Lock ι α) (i : ι) :
    Option Failure :=
  match site.phase i with
  | .failed cause => cause
  | .active _ _ _ | .committed _ => none

theorem one_account_opened_bothLookedUp : ∃ site, bothLookedUp = some site ∧ site.db.Named ∧
    site.phase false = .failed (some (.integrity .accountsUserId)) ∧
    ∃! j, (traderOpenings j).userId = "trader" ∧ ∃ a, site.phase j = .committed a := by
  have ran : (bothLookedUp.map fun site => (site.log.map Prod.fst, Site.failure site false)) =
      some ([true], some (.integrity .accountsUserId)) := by decide +kernel
  obtain ⟨site, scheduled, eq⟩ := Option.map_eq_some_iff.1 ran
  obtain ⟨log, failure⟩ := Prod.mk.inj eq
  have reachable := schedule_reachable .refl scheduled
  have named : Db.empty.Named := List.nodup_nil
  have refused : site.phase false = .failed (some (.integrity .accountsUserId)) := by
    unfold Site.failure at failure
    cases phase : site.phase false with
    | failed cause =>
      rw [phase] at failure
      rw [show cause = _ from failure]
    | active | committed =>
      rw [phase] at failure
      cases failure
  have through : ∃ a, site.phase true = .committed a := by
    have mem : true ∈ site.log.map Prod.fst := by simp [log]
    obtain ⟨e, logged, key⟩ := List.mem_map.1 mem
    have consistent :=
      Reachable.consistent (openings_replayable .exact traderOpenings) named reachable
    exact ⟨e.2, key ▸ consistent.logged.1 (show (e.1, e.2) ∈ site.log from logged)⟩
  have ended : ∀ i, (∃ a, site.phase i = .committed a) ∨
      ∃ failure, site.phase i = .failed (some failure) := by
    intro i
    cases i with
    | true => exact Or.inl through
    | false => exact Or.inr ⟨_, refused⟩
  obtain ⟨⟨-, unique⟩, calls⟩ := one_account_opened named reachable
  have each := calls ended (by decide) (fun _ => rfl) (by decide +kernel)
  exact ⟨site, scheduled, unique, refused,
    (each true).2.1 (by simp [Db.Taken, Db.empty, Table.empty])⟩

end OrderManagement
