import OrderManagement.EncodedRuns
import OrderManagement.FillGuards

/-! Accounting for broker events: an event that `process_event` returns from is recorded
once, and ignored with a reason unless it is applied; one that raises leaves no trace. -/

namespace OrderManagement

open Program TransitionRuns

/-- `process_event` returns and the event is on record: once, and if it has been ignored, with
the reason on the record and in the audit log of its order. -/
def Accounted (db : Db) (event : BrokerExecutionEvent) : Prop :=
  ∃ applied db', (processEvent event).run (encodedPostgres .exact) db = .ok (applied, db') ∧
    (db'.processedBrokerEvents.rows.filter fun r => r.brokerEventId = event.eventId).length = 1 ∧
    (applied = false → db.processedBrokerEvents.find event.eventId = none →
      ∃ row order reason, db'.processedBrokerEvents.find event.eventId = some row ∧
        row.outcome = .ignored ∧ row.details = [("reason", .text reason)] ∧ reason ≠ "" ∧
        db.orders.find event.orderId = some order ∧
        db'.orderEvents = db.orderEvents ++ [⟨order.id, .brokerEventIgnored, some order.status,
          some order.status, [("broker_event_id", .uuid event.eventId),
            ("event_type", .text event.eventType.value), ("reason", .text reason)]⟩])

/-- No table refuses the rows of the event: a fill that its order can take is admissible, and
the reason of a rejection fits its column. -/
structure RowsAdmitted (db : Db) (event : BrokerExecutionEvent) : Prop where
  fill : ∀ (t : FillAttempt db event) account,
    db.accounts.find t.order.accountId = some account → t.Admissible account
  rejection : ∀ order, db.orders.find event.orderId = some order →
    db.processedBrokerEvents.find event.eventId = none → event.eventType = .rejected →
    order.status = .routed → (orDefault event.reason "Rejected by broker").length ≤ 500

/-- The database refuses nothing of what the event writes. -/
structure Admitted (db : Db) (event : BrokerExecutionEvent) : Prop where
  rows : RowsAdmitted db event
  texts : SentTexts db event

section Accounting

variable {settings : Settings} {upper : String → String} {db : Db} {event : BrokerExecutionEvent}

theorem Ignores.reason_ne {order : Order} {reason : String} (h : Ignores order event reason) :
    reason ≠ "" := by
  cases h <;> simp

theorem EventEffect.recorded {applied : Bool} {db' : Db}
    (h : EventEffect .exact db event applied db') :
    ∃ row, db'.processedBrokerEvents.find event.eventId = some row := by
  have put : ∀ {rows : Table ProcessedBrokerEvent ProcessedBrokerEvent.brokerEventId} (v : Verdict),
      (rows.put (processedRow event v)).find event.eventId = some (processedRow event v) := fun v =>
    Table.find_put_self _ (processedRow event v)
  cases h with
  | duplicate found processed => exact ⟨_, processed⟩
  | ignored => exact ⟨_, put _⟩
  | filled u => exact ⟨_, put _⟩
  | released => exact ⟨_, put _⟩

theorem EventEffect.accounted {applied : Bool} {db' : Db}
    (ran : (processEvent event).run (encodedPostgres .exact) db = .ok (applied, db'))
    (h : EventEffect .exact db event applied db') : Accounted db event := by
  obtain ⟨row, recorded⟩ := h.recorded
  refine ⟨applied, db', ran, ?_, fun ignored fresh => ?_⟩
  · rw [Table.filter_key recorded]
    rfl
  · cases h with
    | duplicate found processed => exact absurd (fresh.symm.trans processed) (by simp)
    | @ignored order reason found unprocessed ignores =>
      refine ⟨_, order, reason,
        Table.find_put_self _ (processedRow event (false, some reason)), rfl,
        rfl, ignores.reason_ne, found, rfl⟩
    | filled | released => cases ignored

theorem EventEffect.admitted {applied : Bool} {db' : Db}
    (h : EventEffect .exact db event applied db')
    (sound : db.Sound .exact) : RowsAdmitted db event where
  fill t account accountFound := by
    obtain ⟨-, u, -⟩ := t.effect h
    have admissible := u.admissible sound
    have same := u.unique t
    have owner : u.account = account := by
      have found := u.accountFound
      rw [same, accountFound] at found
      exact (Option.some.inj found).symm
    rwa [owner, same] at admissible
  rejection order found unprocessed rejection routed := by
    cases h with
    | duplicate _ processed => exact absurd (unprocessed.symm.trans processed) (by simp)
    | ignored found' _ ignores =>
      obtain rfl := Option.some.inj (found'.symm.trans found)
      cases ignores with
      | fillOfDone fill => simp [rejection, BrokerEventType.isFill] at fill
      | overfill fill => simp [rejection, BrokerEventType.isFill] at fill
      | partOfFull full => simp [rejection] at full
      | rejectionOfUnrouted _ unrouted => exact (unrouted routed).elim
      | cancellationOfDone cancellation => simp [rejection] at cancellation
    | filled u =>
      have fill := u.isFill
      simp [rejection, BrokerEventType.isFill] at fill
    | released found' _ accountFound becomes release kept =>
      obtain rfl := Option.some.inj (found'.symm.trans found)
      cases becomes with
      | cancelled cancellation => simp [rejection] at cancellation
      | rejected =>
        have row := kept.order
        rw [Order.stored_exact, Order.violation_eq_none_iff] at row
        exact row.2.2.2.1 _ rfl

theorem Released.row_checked {order final : Order} {record : OrderEvent}
    (h : Released event order final record) (checked : order.violation .exact = none)
    (short : event.eventType = .rejected →
      (orDefault event.reason "Rejected by broker").length ≤ 500) :
    final.violation .exact = none := by
  obtain ⟨c, k, s, r, quantity, price, filled, cancelled, remaining, sum⟩ :=
    Order.violation_eq_none_iff.1 checked
  cases h with
  | rejected rejection =>
    refine Order.violation_eq_none_iff.2 ⟨c, k, s, ?_, quantity, price, filled, cancelled,
      remaining,
      sum⟩
    rintro reason held
    obtain rfl := Option.some.inj held
    exact short rejection
  | cancelled =>
    refine Order.violation_eq_none_iff.2 ⟨c, k, s, r, quantity, price, filled, ?_, le_refl 0, ?_⟩
    · exact add_nonneg cancelled remaining
    · simp only [Order.moved, Order.cancelRest]
      linarith

theorem RowsAdmitted.not_failed (admitted : RowsAdmitted db event) (ready : db.Ready)
    {order : Order}
    (found : db.orders.find event.orderId = some order) {f : Failure}
    (failed : EventFailure .exact db event f) : False := by
  -- a failure on the way of a fill contradicts the admissibility of the fill
  have attempted : FillAttempt db event → False := fun t => by
    have owned := ready.owned t.order (Table.mem_of_find t.found)
    obtain ⟨account, accountFound⟩ := Option.isSome_iff_exists.1 owned
    exact failed.not_admissible ready t accountFound (admitted.fill t account accountFound)
  cases failed with
  | orderNotFound missing => exact absurd (missing.symm.trans found) (by simp)
  | accountNotFound found' missing =>
    have owned := ready.owned _ (Table.mem_of_find found')
    simp [missing] at owned
  | book t | bookedRow t | fillRow t | settle t => exact attempted t
  | settledRow t | openedRow t | execute t | executedRow t | releaseRest t | concludedRow t =>
    exact attempted t.toFillAttempt
  | release found' unprocessed accountFound becomes error =>
    exact (EventFailure.release found' unprocessed accountFound becomes error).consistent
      ready.toReconciled (releaseRemainingReservation_error error).2.2.2
  | @releasedRow f order' final account left record found' unprocessed accountFound becomes release
      refused =>
    obtain ⟨-, orderChecked⟩ := ready.sound.orders order' (Table.mem_of_find found')
    obtain ⟨-, accountChecked⟩ := ready.sound.accounts account (Table.mem_of_find accountFound)
    have short : event.eventType = .rejected →
        (orDefault event.reason "Rejected by broker").length ≤ 500 := fun rejection => by
      cases becomes with
      | rejected _ routed => exact admitted.rejection order' found' unprocessed rejection routed
      | cancelled cancellation => simp [rejection] at cancellation
    rcases refused with refused | refused | ⟨held, -⟩
    · rw [Order.stored_exact, becomes.row_checked orderChecked short] at refused
      cases refused
    · rw [Account.stored_exact,
        releaseRemainingReservation_checked release orderChecked accountChecked] at refused
      cases refused
    · cases held

end Accounting

section Claim

variable {settings : Settings} {upper : String → String} {opened : Db}

end Claim

/-! The fill at 21 beside a second order that reserves the rest of the cash, and alone. -/

end OrderManagement
