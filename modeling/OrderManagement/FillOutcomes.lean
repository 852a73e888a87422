import OrderManagement.SessionRules

/-! What one broker event can do to the database, and every way it can fail. The
inversion `processEvent_spec` is the only place where the programs of the
execution service are run; all later results are case analyses on it. -/

namespace OrderManagement

/-- How `concludeFill` ends for a booked order and its settled account. -/
inductive Concluded (data : EventData) (o : Order) (a : Account) :
    Order → Account → List OrderEvent → Prop
  | filled (done : o.remainingQuantity = 0) :
      Concluded data o a (o.moved .filled) a
        [⟨o.id, .fullFillReceived, some o.status, some .filled, data⟩]
  | ioc {released : Account} (rest : o.remainingQuantity ≠ 0) (ioc : o.timeInForce = .ioc)
      (release : releaseRemainingReservation a o = .ok released) :
      Concluded data o a (o.cancelRest.moved .cancelled) released
        [⟨o.id, .partialFillReceived, some o.status, some o.status, data⟩,
          ⟨o.id, .orderCancelled, some o.status, some .cancelled,
            data ++ [("cancelled_quantity", .decimal o.remainingQuantity),
              ("reason", .text "IOC remainder cancelled")]⟩]
  | first (rest : o.remainingQuantity ≠ 0) (resting : o.timeInForce ≠ .ioc)
      (routed : o.status = .routed) :
      Concluded data o a (o.moved .partiallyFilled) a
        [⟨o.id, .partialFillReceived, some o.status, some .partiallyFilled, data⟩]
  | further (rest : o.remainingQuantity ≠ 0) (resting : o.timeInForce ≠ .ioc)
      (notRouted : o.status ≠ .routed) :
      Concluded data o a o a [⟨o.id, .partialFillReceived, some o.status, some o.status, data⟩]

theorem mem_workingStatuses {status : OrderStatus} :
    status ∈ workingStatuses ↔
      status = .routed ∨ status = .partiallyFilled ∨ status = .cancelPending := by
  simp [workingStatuses]

theorem working_allows_filled {status : OrderStatus} (h : status ∈ workingStatuses) :
    OrderStatus.filled ∈ allowedTransitions status := by
  rcases mem_workingStatuses.1 h with rfl | rfl | rfl <;> decide

theorem working_allows_cancelled {status : OrderStatus} (h : status ∈ workingStatuses) :
    OrderStatus.cancelled ∈ allowedTransitions status := by
  rcases mem_workingStatuses.1 h with rfl | rfl | rfl <;> decide

/-! The pure parts of the execution service, inverted. -/

theorem releaseRemainingReservation_ok {a b : Account} {o : Order}
    (h : releaseRemainingReservation a o = .ok b) :
    ((o.side ≠ .buy ∨ o.remainingQuantity ≤ 0) ∧ b = a) ∨
    (o.side = .buy ∧ 0 < o.remainingQuantity ∧ o.remainingQuantity * o.price ≤ a.reservedCash ∧
      b = a.release (o.remainingQuantity * o.price)) := by
  unfold releaseRemainingReservation at h
  dsimp only at h
  split_ifs at h with none beyond
  · exact Or.inl ⟨none, (Except.ok.inj h).symm⟩
  · push Not at none beyond
    exact Or.inr ⟨none.1, none.2, beyond, (Except.ok.inj h).symm⟩

theorem releaseRemainingReservation_error {a : Account} {o : Order} {f : Failure}
    (h : releaseRemainingReservation a o = .error f) :
    o.side = .buy ∧ 0 < o.remainingQuantity ∧ a.reservedCash < o.remainingQuantity * o.price ∧
      f = .domain (.invalidFill "Reserved cash is inconsistent with the order") := by
  unfold releaseRemainingReservation at h
  dsimp only at h
  split_ifs at h with none beyond
  push Not at none
  exact ⟨none.1, none.2, beyond, (Except.error.inj h).symm⟩

theorem releaseRemainingReservation_id {a b : Account} {o : Order}
    (h : releaseRemainingReservation a o = .ok b) : b.id = a.id := by
  rcases releaseRemainingReservation_ok h with ⟨-, rfl⟩ | ⟨-, -, -, rfl⟩ <;> rfl

theorem releaseRemainingReservation_cash {a b : Account} {o : Order}
    (h : releaseRemainingReservation a o = .ok b) : b.cashBalance = a.cashBalance := by
  rcases releaseRemainingReservation_ok h with ⟨-, rfl⟩ | ⟨-, -, -, rfl⟩ <;> rfl

theorem Account.settleFill_ok {a b : Account} {o : Order} {q price : ℚ}
    (h : a.settleFill o q price = .ok b) :
    (o.side = .buy ∧ q * o.price ≤ a.reservedCash ∧ q * price ≤ a.cashBalance ∧
      b = { a with
        reservedCash := a.reservedCash - q * o.price
        cashBalance := a.cashBalance - q * price
        version := a.version + 1 }) ∨
    (o.side = .sell ∧
      b = { a with cashBalance := a.cashBalance + q * price, version := a.version + 1 }) := by
  unfold settleFill at h
  dsimp only at h
  split_ifs at h with buy beyond short
  · push Not at beyond short
    exact Or.inl ⟨buy, beyond, short, (Except.ok.inj h).symm⟩
  · refine Or.inr ⟨?_, (Except.ok.inj h).symm⟩
    cases hs : o.side
    · exact absurd hs buy
    · rfl

theorem Account.settleFill_error {a : Account} {o : Order} {q price : ℚ} {f : Failure}
    (h : a.settleFill o q price = .error f) :
    o.side = .buy ∧
      (a.reservedCash < q * o.price ∧
          f = .domain (.invalidFill "Reserved cash is inconsistent with the order") ∨
        a.cashBalance < q * price ∧
          f = .domain (.invalidFill "Fill would create a negative cash balance")) := by
  unfold settleFill at h
  dsimp only at h
  split_ifs at h with buy beyond short
  · exact ⟨buy, Or.inl ⟨beyond, (Except.error.inj h).symm⟩⟩
  · exact ⟨buy, Or.inr ⟨short, (Except.error.inj h).symm⟩⟩

theorem Account.settleFill_id {a b : Account} {o : Order} {q price : ℚ}
    (h : a.settleFill o q price = .ok b) : b.id = a.id := by
  rcases settleFill_ok h with ⟨-, -, -, rfl⟩ | ⟨-, rfl⟩ <;> rfl

theorem Order.bookFill_ok {o b : Order} {q price : ℚ} (h : o.bookFill q price = .ok b) :
    o.filledQuantity + q ≠ 0 ∧
      b = { o with
        averageFillPrice := some ((o.filledQuantity * o.averageFillPrice.getD 0 + q * price) /
          (o.filledQuantity + q))
        filledQuantity := o.filledQuantity + q
        remainingQuantity := o.remainingQuantity - q
        version := o.version + 1 } := by
  unfold bookFill decimalDiv at h
  dsimp only at h
  split_ifs at h with zero
  · simp [bind, Except.bind] at h
  · exact ⟨zero, (Except.ok.inj h).symm⟩

theorem Order.bookFill_error {o : Order} {q price : ℚ} {f : Failure}
    (h : o.bookFill q price = .error f) : o.filledQuantity + q = 0 ∧ f = .divisionByZero := by
  unfold bookFill decimalDiv at h
  dsimp only at h
  split_ifs at h with zero
  · exact ⟨zero, (Except.error.inj h).symm⟩
  · simp [bind, Except.bind] at h

theorem Position.executed_ok {p r : Position} {side : OrderSide} {q price mark : ℚ}
    (h : p.executed side q price mark = .ok r) :
    ∃ c, calculatePositionAfterFill p.netQuantity p.averageEntryPrice p.realizedPnl side q price
        = .ok c ∧
      r = { p with
        netQuantity := c.netQuantity
        averageEntryPrice := c.averageEntryPrice
        realizedPnl := c.realizedPnl
        lastMarkPrice := some mark
        unrealizedPnl :=
          calculateUnrealizedPnl c.netQuantity c.averageEntryPrice (some mark) } := by
  unfold executed at h
  cases hc : calculatePositionAfterFill p.netQuantity p.averageEntryPrice p.realizedPnl side q
      price with
  | error e => simp [hc, bind, Except.bind] at h
  | ok c =>
    rw [hc] at h
    exact ⟨c, rfl, (Except.ok.inj h).symm⟩

theorem Position.executed_total (p : Position) (side : OrderSide) {q : ℚ} (price mark : ℚ)
    (positive : 0 < q) : ∃ r, p.executed side q price mark = .ok r := by
  obtain ⟨c, hc⟩ := calculatePositionAfterFill_total p.netQuantity p.averageEntryPrice
    p.realizedPnl side price positive
  unfold executed
  rw [hc]
  exact ⟨_, rfl⟩

theorem Position.executed_holding {p r : Position} {side : OrderSide} {q price mark : ℚ}
    (h : p.executed side q price mark = .ok r) : r.holding = p.holding := by
  obtain ⟨c, -, rfl⟩ := executed_ok h
  rfl

section Conclude

open Program

variable {num : Numeric} {X : Failure → Prop} {db : Db}

theorem cancelRemaining_spec {s : Session} {o : Order} {a : Account} {p : Option Position}
    {reason : String} {data : EventData} {Q : Session → Db → Prop}
    (working : o.status ∈ workingStatuses) (order : s.order.attrs = o)
    (position : s.position.map Instance.attrs = p) (synced : s.Synced num db)
    (locks : ∀ R : Instance Account → Db → Prop,
      (∀ i, i.attrs = a → i.attrs.id = i.loaded.id → (i.loaded.stored num).violation num = none →
        db.accounts.find i.loaded.id = some (i.loaded.stored num) → R i db) →
      (accountForUpdate s).wp (postgres num) R X db)
    (released : ∀ f, releaseRemainingReservation a o = .error f → X f)
    (refused : ∀ b, releaseRemainingReservation a o = .ok b →
      ∀ f, RefusedRow num (o.cancelRest.moved .cancelled) b p f → X f)
    (done : ∀ b, releaseRemainingReservation a o = .ok b →
      AcceptedRows num (o.cancelRest.moved .cancelled) b p → ∀ u,
      Q u (db.booked num (o.cancelRest.moved .cancelled) b p
        [⟨o.id, .orderCancelled, some o.status, some .cancelled,
          data ++ [("cancelled_quantity", .decimal o.remainingQuantity),
            ("reason", .text reason)]⟩])) :
    (cancelRemaining s reason data).wp (postgres num) Q X db := by
  subst order
  unfold cancelRemaining
  rw [wp_bind]
  refine locks _ ?_
  rintro i rfl same sound row
  rw [wp_bind, wp_liftExcept]
  refine ⟨fun b hb => ?_, released⟩
  -- the session as it is when the transition to CANCELLED flushes it
  let t : Session :=
    { s.setOrder Order.cancelRest with account := some (i.set fun _ => b) }
  have tHolds : t.Holds s.order.attrs.cancelRest b p := ⟨rfl, rfl, position⟩
  have tSynced : t.Synced num db :=
    { order := synced.order
      orderSound := synced.orderSound
      orderId := synced.orderId
      account := fun j hj => by
        obtain rfl := Option.some.inj hj
        exact ⟨row, sound, (releaseRemainingReservation_id hb).trans same⟩
      position := synced.position }
  exact tHolds.wp_transition tSynced (working_allows_cancelled working) (refused b hb)
    fun accepted u _ _ _ => done b hb accepted u

theorem concludeFill_spec {s : Session} {o : Order} {a : Account} {p : Position}
    {data : EventData} {Q : Session → Db → Prop} (working : o.status ∈ workingStatuses)
    (holds : s.Holds o a (some p)) (synced : s.Synced num db) (key : a.id = o.accountId)
    (refusedBefore : ∀ f, RefusedRow num o a (some p) f → X f)
    (released : ∀ f, o.remainingQuantity ≠ 0 → o.timeInForce = .ioc →
      releaseRemainingReservation a o = .error f → X f)
    (refused : ∀ o' a' es, Concluded data o a o' a' es →
      ∀ f, RefusedRow num o' a' (some p) f → X f)
    (done : ∀ o' a' es, Concluded data o a o' a' es → (a.stored num).violation num = none →
      AcceptedRows num o' a' (some p) → ∀ t, Q t (db.booked num o' a' (some p) es)) :
    (concludeFill s data).wp (postgres num) Q X db := by
  unfold concludeFill
  simp only [holds.order]
  split_ifs with empty ioc routed
  · exact holds.wp_transition synced (working_allows_filled working)
      (refused _ _ _ (.filled empty))
      fun accepted u _ _ _ => done _ _ _ (.filled empty) accepted.account accepted u
  · rw [wp_bind]
    refine holds.wp_appendEvent synced refusedBefore fun before u uHolds uSynced _ => ?_
    obtain ⟨i, hi, rfl⟩ := Option.map_eq_some_iff.1 uHolds.account
    obtain ⟨row, sound, same⟩ := uSynced.account i hi
    have owner : i.attrs.id = u.order.attrs.accountId := uHolds.order ▸ key
    refine cancelRemaining_spec working uHolds.order uHolds.position uSynced
      (fun R done => wp_accountForUpdate_held hi (by rw [← owner, same]; exact row) owner
        (done i rfl same sound row))
      (released · empty ioc) (fun b hb => refused _ _ _ (.ioc empty ioc hb))
      fun b hb accepted v => ?_
    rw [Db.booked_booked (show o.id = (o.cancelRest.moved .cancelled).id from rfl)
      (releaseRemainingReservation_id hb).symm fun r hr => ⟨r, hr, rfl⟩]
    exact done _ _ _ (.ioc empty ioc hb) before.account accepted v
  · have allowed : OrderStatus.partiallyFilled ∈ allowedTransitions o.status := by
      rw [routed]
      decide
    exact holds.wp_transition synced allowed (refused _ _ _ (.first empty ioc routed))
      fun accepted u _ _ _ => done _ _ _ (.first empty ioc routed) accepted.account accepted u
  · exact holds.wp_appendEvent synced (refused _ _ _ (.further empty ioc routed))
      fun accepted u _ _ _ => done _ _ _ (.further empty ioc routed) accepted.account accepted u

end Conclude

/-- A fill event that the guards of `_apply_fill` let through. -/
structure FillAttempt (db : Db) (event : BrokerExecutionEvent) where
  order : Order
  price : ℚ
  found : db.orders.find event.orderId = some order
  unprocessed : db.processedBrokerEvents.find event.eventId = none
  isFill : event.eventType.isFill = true
  working : order.status ∈ workingStatuses
  priced : event.fillPrice = some price
  covered : event.filledQuantity ≤ order.remainingQuantity
  whole : event.eventType = .fullFill → event.filledQuantity = order.remainingQuantity

namespace FillAttempt

variable {db : Db} {event : BrokerExecutionEvent}

theorem positive (t : FillAttempt db event) : 0 < event.filledQuantity :=
  (event.validateFillPayload t.isFill).1

variable (t : FillAttempt db event)

def mark : ℚ := ((db.marketPrices.find t.order.symbol).map MarketPrice.price).getD t.price

def opened : Position := .opened t.order.accountId t.order.symbol t.mark

def held : Position := (db.positions.find (t.order.accountId, t.order.symbol)).getD t.opened

def fill : Fill := newFill t.order event t.price

theorem price_pos : 0 < t.price := by
  obtain ⟨-, ⟨price, priced, pos⟩, -⟩ := event.validateFillPayload t.isFill
  rw [t.priced, Option.some_inj] at priced
  exact priced ▸ pos

theorem held_holding : t.held.holding = (t.order.accountId, t.order.symbol) := by
  unfold held
  cases h : db.positions.find (t.order.accountId, t.order.symbol) with
  | none => rfl
  | some p => exact Table.find_key h

end FillAttempt

structure FillSettled (db : Db) (event : BrokerExecutionEvent) extends FillAttempt db event where
  booked : Order
  account : Account
  settled : Account
  book : order.bookFill event.filledQuantity price = .ok booked
  accountFound : db.accounts.find order.accountId = some account
  settle : account.settleFill order event.filledQuantity price = .ok settled

structure AppliedFill (num : Numeric) (db : Db) (event : BrokerExecutionEvent) extends
    FillSettled db event where
  executed : Position
  final : Order
  finalAccount : Account
  log : List OrderEvent
  fillKept : (toFillAttempt.fill.stored num).refusal num db = none
  execute : toFillAttempt.held.executed order.side event.filledQuantity price toFillAttempt.mark
    = .ok executed
  conclude : Concluded (fillData event price) booked settled final finalAccount log
  settledKept : (settled.stored num).violation num = none
  kept : AcceptedRows num final finalAccount (some executed)

def Db.recorded (db : Db) (event : BrokerExecutionEvent) (verdict : Verdict) : Db :=
  { db with
    processedBrokerEvents := db.processedBrokerEvents.put (processedRow event verdict) }

section Recorded

variable {db : Db} {event : BrokerExecutionEvent} {verdict : Verdict}

@[simp] theorem Db.recorded_accounts : (db.recorded event verdict).accounts = db.accounts := rfl

@[simp] theorem Db.recorded_orders : (db.recorded event verdict).orders = db.orders := rfl

@[simp] theorem Db.recorded_fills : (db.recorded event verdict).fills = db.fills := rfl

@[simp] theorem Db.recorded_positions : (db.recorded event verdict).positions = db.positions := rfl

@[simp] theorem Db.recorded_marketPrices :
    (db.recorded event verdict).marketPrices = db.marketPrices := rfl

@[simp] theorem Db.recorded_processed : (db.recorded event verdict).processedBrokerEvents =
    db.processedBrokerEvents.put (processedRow event verdict) := rfl

end Recorded

def AppliedFill.after {num : Numeric} {db : Db} {event : BrokerExecutionEvent}
    (t : AppliedFill num db event) : Db :=
  ({ db.booked num t.final t.finalAccount (some t.executed) t.log with
    fills := db.fills.put (t.fill.stored num) }).recorded event (true, none)

/-- Why an event is recorded without effect. -/
inductive Ignores (o : Order) (event : BrokerExecutionEvent) : String → Prop
  | fillOfDone (fill : event.eventType.isFill = true) (done : o.status ∉ workingStatuses) :
      Ignores o event ("Order is already " ++ o.status.value)
  | overfill (fill : event.eventType.isFill = true) (working : o.status ∈ workingStatuses)
      (beyond : o.remainingQuantity < event.filledQuantity) :
      Ignores o event "Fill quantity exceeds remaining quantity"
  | partOfFull (full : event.eventType = .fullFill) (working : o.status ∈ workingStatuses)
      (part : event.filledQuantity < o.remainingQuantity) :
      Ignores o event "Full-fill event does not consume remaining quantity"
  | rejectionOfUnrouted (rejection : event.eventType = .rejected) (unrouted : o.status ≠ .routed) :
      Ignores o event ("Order cannot be rejected from " ++ o.status.value)
  | cancellationOfDone (cancellation : event.eventType = .cancelled)
      (done : o.status ∉ workingStatuses) :
      Ignores o event ("Order cannot be cancelled from " ++ o.status.value)

inductive Released (event : BrokerExecutionEvent) (o : Order) : Order → OrderEvent → Prop
  | rejected (rejection : event.eventType = .rejected) (routed : o.status = .routed) :
      Released event o
        ({ o with rejectionReason := some (orDefault event.reason "Rejected by broker") }.moved
          .rejected)
        ⟨o.id, .orderRejected, some o.status, some .rejected,
          [("broker_event_id", .uuid event.eventId),
            ("reason", .text (orDefault event.reason "Rejected by broker"))]⟩
  | cancelled (cancellation : event.eventType = .cancelled)
      (working : o.status ∈ workingStatuses) :
      Released event o (o.cancelRest.moved .cancelled)
        ⟨o.id, .orderCancelled, some o.status, some .cancelled,
          [("broker_event_id", .uuid event.eventId),
            ("cancelled_quantity", .decimal o.remainingQuantity),
            ("reason", .text (orDefault event.reason "Cancelled by broker"))]⟩

theorem Released.working {event : BrokerExecutionEvent} {o o' : Order} {e : OrderEvent}
    (h : Released event o o' e) : o.status ∈ workingStatuses := by
  cases h with
  | rejected _ routed => simp [routed, workingStatuses]
  | cancelled _ working => exact working

/-- What `process_event` answers and leaves in the database when it commits. -/
inductive EventEffect (num : Numeric) (db : Db) (event : BrokerExecutionEvent) : Bool → Db → Prop
  | duplicate {order : Order} {row : ProcessedBrokerEvent}
      (found : db.orders.find event.orderId = some order)
      (processed : db.processedBrokerEvents.find event.eventId = some row) :
      EventEffect num db event false db
  | ignored {order : Order} {reason : String} (found : db.orders.find event.orderId = some order)
      (unprocessed : db.processedBrokerEvents.find event.eventId = none)
      (ignores : Ignores order event reason) :
      EventEffect num db event false
        (({ db with orderEvents := db.orderEvents ++ [⟨order.id, .brokerEventIgnored,
            some order.status, some order.status, ignoredData event (some reason)⟩] } : Db).recorded
          event (false, some reason))
  | filled (fill : AppliedFill num db event) : EventEffect num db event true fill.after
  | released {order final : Order} {account released : Account} {record : OrderEvent}
      (found : db.orders.find event.orderId = some order)
      (unprocessed : db.processedBrokerEvents.find event.eventId = none)
      (accountFound : db.accounts.find order.accountId = some account)
      (becomes : Released event order final record)
      (release : releaseRemainingReservation account order = .ok released)
      (kept : AcceptedRows num final released none) :
      EventEffect num db event true
        ((db.booked num final released none [record]).recorded event (true, none))

/-- Every way in which `process_event` raises. -/
inductive EventFailure (num : Numeric) (db : Db) (event : BrokerExecutionEvent) : Failure → Prop
  | orderNotFound (missing : db.orders.find event.orderId = none) :
      EventFailure num db event (.domain (.orderNotFound event.orderId))
  | accountNotFound {order : Order} (found : db.orders.find event.orderId = some order)
      (missing : db.accounts.find order.accountId = none) :
      EventFailure num db event (.domain (.accountNotFound order.accountId))
  | book {f : Failure} (t : FillAttempt db event)
      (error : t.order.bookFill event.filledQuantity t.price = .error f) :
      EventFailure num db event f
  | bookedRow {f : Failure} {booked : Order} (t : FillAttempt db event)
      (book : t.order.bookFill event.filledQuantity t.price = .ok booked)
      (refused : (booked.stored num).violation num = some f) : EventFailure num db event f
  | fillRow {f : Failure} (t : FillAttempt db event)
      (refused : (t.fill.stored num).refusal num db = some f) : EventFailure num db event f
  | settle {f : Failure} {account : Account} (t : FillAttempt db event)
      (accountFound : db.accounts.find t.order.accountId = some account)
      (error : account.settleFill t.order event.filledQuantity t.price = .error f) :
      EventFailure num db event f
  | settledRow {f : Failure} (t : FillSettled db event)
      (refused : RefusedRow num t.booked t.settled none f) : EventFailure num db event f
  | openedRow {f : Failure} (t : FillSettled db event)
      (refused : (t.opened.stored num).violation num = some f) : EventFailure num db event f
  | execute {f : Failure} (t : FillSettled db event)
      (error : t.held.executed t.order.side event.filledQuantity t.price t.mark = .error f) :
      EventFailure num db event f
  | executedRow {f : Failure} {executed : Position} (t : FillSettled db event)
      (execute : t.held.executed t.order.side event.filledQuantity t.price t.mark = .ok executed)
      (refused : RefusedRow num t.booked t.settled (some executed) f) : EventFailure num db event f
  | releaseRest {f : Failure} (t : FillSettled db event)
      (rest : t.booked.remainingQuantity ≠ 0) (ioc : t.booked.timeInForce = .ioc)
      (error : releaseRemainingReservation t.settled t.booked = .error f) :
      EventFailure num db event f
  | concludedRow {f : Failure} {executed : Position} {final : Order} {account : Account}
      {log : List OrderEvent} (t : FillSettled db event)
      (execute : t.held.executed t.order.side event.filledQuantity t.price t.mark = .ok executed)
      (conclude : Concluded (fillData event t.price) t.booked t.settled final account log)
      (refused : RefusedRow num final account (some executed) f) : EventFailure num db event f
  | release {f : Failure} {order final : Order} {account : Account} {record : OrderEvent}
      (found : db.orders.find event.orderId = some order)
      (unprocessed : db.processedBrokerEvents.find event.eventId = none)
      (accountFound : db.accounts.find order.accountId = some account)
      (becomes : Released event order final record)
      (error : releaseRemainingReservation account order = .error f) : EventFailure num db event f
  | releasedRow {f : Failure} {order final : Order} {account released : Account}
      {record : OrderEvent} (found : db.orders.find event.orderId = some order)
      (unprocessed : db.processedBrokerEvents.find event.eventId = none)
      (accountFound : db.accounts.find order.accountId = some account)
      (becomes : Released event order final record)
      (release : releaseRemainingReservation account order = .ok released)
      (refused : RefusedRow num final released none f) : EventFailure num db event f

end OrderManagement
