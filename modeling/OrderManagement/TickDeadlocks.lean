import OrderManagement.LockedKnowledge
import OrderManagement.OrderRuns
import OrderManagement.RankedServices

/-! Transactions of the service never wait for each other in a cycle while every tick that
reads its market price finds another price or time there. A tick that repeats the stored
ones updates nothing, so it locks the positions without the lock on the market price, and two
of these may lock them in opposite orders. -/

namespace OrderManagement

open LockWaits Program TransitionRuns

/-- The transactions that contend for locks. A routing failure is marked in the session
`held` of its submission. -/
inductive Contender
  | createOrder (settings : Settings) (draw : CreateDraw) (payload : OrderCreate)
  | processEvent (event : BrokerExecutionEvent)
  | requestCancellation (orderId : UUID) (reason : String)
  | markRoutingFailure (held : Option Session) (orderId : UUID) (reason : String)
  | applyTick (upper : String → String) (symbol : String) (price : ℚ) (observedAt : Timestamp)

namespace Contender

def program : Contender → Txn Unit
  | createOrder settings draw payload => do
    let _ ← OrderManagement.createOrder settings draw payload
    return ()
  | processEvent event => do
    let _ ← OrderManagement.processEvent event
    return ()
  | requestCancellation orderId reason => do
    let _ ← OrderManagement.requestCancellation orderId reason
    return ()
  | markRoutingFailure held orderId reason =>
    OrderManagement.markRoutingFailure held orderId reason
  | applyTick upper symbol price observedAt =>
    OrderManagement.applyTick upper symbol price observedAt

def Fresh : Contender → MarketPrice → Prop
  | applyTick _ _ price observedAt, row => ¬ (row.price = price ∧ row.observedAt = observedAt)
  | _, _ => True

theorem program_ordered (x : Contender) :
    x.program.Keeps (lockOrder x.Fresh) (fun _ _ => True) ⟨0, none, none⟩ := by
  cases x with
  | createOrder settings draw payload =>
    exact keeps_bind (createOrder_ordered _ _ _) fun _ _ _ => keeps_pure trivial
  | processEvent event => exact keeps_bind (processEvent_ordered _) fun _ _ _ => keeps_pure trivial
  | requestCancellation orderId reason =>
    exact keeps_bind (requestCancellation_ordered _ _) fun _ _ _ => keeps_pure trivial
  | markRoutingFailure held orderId reason => exact markRoutingFailure_ordered _ _ _
  | applyTick upper symbol price observedAt => exact applyTick_ordered _ _ _ _

end Contender

section Deadlocks

variable {ι : Type} [DecidableEq ι] {num : Numeric} {txn : ι → Contender} {db : Db}
  {t : Site Stmt Failure Db Write Acquisition ι Unit}

/-- What the next step of `i` reads as a market price is not what `i` would store there. -/
def ReadsFresh (txn : ι → Contender) (t : Site Stmt Failure Db Write Acquisition ι Unit) (i : ι) :
    Prop :=
  ∀ (symbol : String) (next : Option MarketPrice → Txn Unit) (seen : Db) (ws : List Write)
    (held : List Acquisition), t.phase i = .taking (.marketPrice symbol) next seen ws held [] →
    ∀ row ∈ seen.marketPrices.find symbol, (txn i).Fresh row

/-- A transaction knows what it holds, whatever the others do. -/
def lockFacts (ι : Type) : Facts Stmt Db Write Acquisition ι Unit Grip where
  Inv _ := True
  Done _ _ _ := True
  Recalls _ _ _ := True
  Knows _ g _ _ held := g.Describes held
  Saw _ _ _ _ := True
  Settled _ _ := True
  Shift _ _ _ := True

omit [DecidableEq ι] in
theorem transactions_informed (num : Numeric) (txn : ι → Contender) :
    Informed (waitingPostgres num) (ReadsFresh txn) (fun i => (txn i).program)
      (fun i => lockOrder (txn i).Fresh) (lockFacts ι) where
  start i _ _ := ⟨⟨0, none, none⟩, (txn i).program_ordered, trivial, Grip.describes_nil⟩
  recalls _ _ _ := trivial
  begins _ := trivial
  answered := by
    intro t i g β s next seen ws vs before ks r fresh phase _ allows order describes _ answer
    refine ⟨?_, Stmt.describes_after describes allows order answer⟩
    cases s with
    | marketPrice symbol =>
      have none_ : ks = [] := order
      subst none_
      obtain rfl := congrArg Prod.fst (Except.ok.inj answer)
      exact fun row found => ⟨Table.find_key found, fresh _ _ _ _ _ phase row found⟩
    | _ => trivial
  commits _ _ _ _ _ _ := ⟨trivial, trivial, trivial⟩
  knows _ _ describes := describes
  saw _ _ _ _ := trivial
  settled _ _ := trivial

theorem transactions_not_deadlocked
    (reaches : Reaches (waitingPostgres num) (ReadsFresh txn) (start db fun i => (txn i).program) t)
    (i : ι) : ¬ Relation.TransGen t.WaitsFor i i :=
  reaches.not_deadlocked (transactions_informed num txn) trivial
    (fun describes allows order => Stmt.inOrder_of_allows describes allows order) i

end Deadlocks

/-! Two ticks that repeat the price and the time stored, with a position in each of two accounts. -/

def secondAccount : AccountCreate :=
  { traderAccount with userId := "trader-2", userId_length := by decide }

def secondBuy : OrderCreate := { limitBuy with accountId := 11 }

def secondFill : BrokerExecutionEvent where
  eventId := 13
  eventType := .partialFill
  orderId := 12
  timestamp := 0
  filledQuantity := 4
  fillPrice := some 21
  executionId := some "execution-2"
  validateFillPayload _ :=
    ⟨by norm_num, ⟨21, rfl, by norm_num⟩, ⟨"execution-2", rfl, by decide⟩⟩

def markedDb : Db :=
  run (step (.exact {} id)) (openAccounts .exact [(1, traderAccount), (11, secondAccount)])
    [.createOrder ⟨2, 0⟩ limitBuy, .createOrder ⟨12, 0⟩ secondBuy, .processEvent partialFill,
      .processEvent secondFill, .applyTick "AAPL" 25 0]

def repeatedTick : Bool → Contender := fun _ => .applyTick id "AAPL" 25 0

/-- Each tick lists the positions in an order of its own and locks the first. -/
def opposedTicks : Option (Site Stmt Failure Db Write Acquisition Bool Unit) :=
  schedule (waitingPostgres .exact) (start markedDb fun i => (repeatedTick i).program)
    [(false, []), (false, []), (false, []), (false, []),
      (false, [.positionRow (1, "AAPL"), .positionRow (11, "AAPL")]), (false, []),
      (true, []), (true, []), (true, []), (true, []),
      (true, [.positionRow (11, "AAPL"), .positionRow (1, "AAPL")]), (true, [])]

theorem deadlocked_repeatedTicks :
    ¬ ∀ (ι : Type) [DecidableEq ι] (num : Numeric) (txn : ι → Contender) (db : Db)
      (t : Site Stmt Failure Db Write Acquisition ι Unit),
      Reaches (waitingPostgres num) (fun _ _ => True) (start db fun i => (txn i).program) t →
      ∀ i, ¬ Relation.TransGen t.WaitsFor i i := by
  intro free
  have locks : (opposedTicks.map fun t => [false, true].map fun i =>
      ((t.phase i).held, (t.phase i).wants)) =
        some [([.positionRow (1, "AAPL")], some (.positionRow (11, "AAPL"))),
          ([.positionRow (11, "AAPL")], some (.positionRow (1, "AAPL")))] := by
    decide +kernel
  obtain ⟨t, scheduled, locks⟩ := Option.map_eq_some_iff.1 locks
  simp only [List.map_cons, List.map_nil, List.cons.injEq, Prod.mk.injEq, and_true] at locks
  obtain ⟨⟨held, wants⟩, held', wants'⟩ := locks
  have first : t.WaitsFor false true := ⟨by decide, _, wants, by simp [held']⟩
  have second : t.WaitsFor true false := ⟨by decide, _, wants', by simp [held]⟩
  exact free Bool .exact repeatedTick markedDb t
    (schedule_reaches .start (fun _ _ => trivial) scheduled)
    false (.tail (.single first) second)

def nextBuy : OrderCreate :=
  { limitBuy with
    clientOrderId := "client-3"
    idempotencyKey := "idempotency-3"
    clientOrderId_length := by decide
    idempotencyKey_length := by decide }

def nextFill : BrokerExecutionEvent := { secondFill with eventId := 5, orderId := 2 }

/-- The fill waits for the account, which the submission has locked; the tick waits for no one. -/
def fillBehindSubmission : Fin 3 → Contender
  | 0 => .createOrder {} ⟨4, 0⟩ nextBuy
  | 1 => .processEvent { nextFill with
      executionId := some "execution-5"
      validateFillPayload := fun _ =>
        ⟨by norm_num [nextFill, secondFill], ⟨21, rfl, by norm_num⟩,
          "execution-5", rfl, by decide⟩ }
  | 2 => .applyTick id "AAPL" 30 10

def priceAnswer : Phase Stmt Failure Db Write Acquisition Unit → Option MarketPrice
  | .taking (.marketPrice symbol) _ seen _ _ [] => seen.marketPrices.find symbol
  | _ => none

instance (x : Contender) (row : MarketPrice) : Decidable (x.Fresh row) := by
  cases x <;> unfold Contender.Fresh <;> infer_instance

/-- The turns of one transaction: statements that take locks, each with the turns that follow it. -/
def turns {ι : Type} (i : ι) (statements : List (List Acquisition × ℕ)) :
    List (ι × List Acquisition) :=
  statements.flatMap fun s => (i, s.1) :: List.replicate s.2 (i, [])

def fillWaits : Option (Site Stmt Failure Db Write Acquisition (Fin 3) Unit) :=
  scheduleMeeting (waitingPostgres .exact)
    (fun t i => ∀ row ∈ priceAnswer (t.phase i), (fillBehindSubmission i).Fresh row)
    (start markedDb fun i => (fillBehindSubmission i).program)
    (turns 0 [([.accountRow 1], 1)] ++
      turns 1 [([.orderRow 2], 6), ([.fillKey 5, .executionKey "execution-5"], 3),
        ([.accountRow 1], 0)] ++
      turns 2 [([], 1), ([.marketPrice "AAPL"], 2),
        ([.positionRow (1, "AAPL"), .positionRow (11, "AAPL")], 8)])

theorem transactions_not_deadlocked_fillWaits :
    ∃ t : Site Stmt Failure Db Write Acquisition (Fin 3) Unit,
      t.WaitsFor 1 0 ∧ t.phase 2 = .committed () ∧ ∀ i, ¬ Relation.TransGen t.WaitsFor i i := by
  have locks : (fillWaits.map fun t => ((t.phase 0).held, (t.phase 1).wants, (t.phase 2).result)) =
      some ([.accountRow 1], some (.accountRow 1), some ()) := by decide +kernel
  obtain ⟨t, scheduled, locks⟩ := Option.map_eq_some_iff.1 locks
  simp only [Prod.mk.injEq, Phase.result_eq_some] at locks
  obtain ⟨held, wants, ticked⟩ := locks
  have fresh : Reaches (waitingPostgres .exact) (ReadsFresh fillBehindSubmission)
      (start markedDb fun i => (fillBehindSubmission i).program) t :=
    (scheduleMeeting_reaches .start scheduled).mono fun t i meets symbol next seen ws locks phase =>
      by rwa [phase] at meets
  exact ⟨t, ⟨by decide, _, wants, by simp [held]⟩, ticked, transactions_not_deadlocked fresh⟩

end OrderManagement
