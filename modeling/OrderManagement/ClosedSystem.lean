import OrderManagement.CancellationNotice
import OrderManagement.EventAccounting
import OrderManagement.ExpiryScan
import OrderManagement.FakeBroker

/-! The service and its simulated broker as one system: calls of the API, the expiry worker,
the broker's tasks and the worker that takes events from the queue, in any interleaving of
their transactions and queue operations. -/

namespace OrderManagement

open Program TransitionRuns

/-- A state of the system. `overdue` is what the expiry worker has left of its scan;
`delivered` is the history of `process_event`: its answers, or nothing where it raised. -/
structure System where
  db : Db
  work : List Activity := []
  queue : List BrokerExecutionEvent := []
  overdue : List UUID := []
  delivered : List (BrokerExecutionEvent × Option Bool) := []

/-- Steps of the system. A scan may list whatever ids it likes. -/
inductive Action
  | createOrder (draw : CreateDraw) (payload : OrderCreate)
  | requestCancellation (orderId : UUID) (reason : String)
  | scanExpired (ids : List UUID)
  | requestExpired
  | advance (i : ℕ) (draw : BrokerDraw)
  | deliver

namespace System

def emitted (s : System) : List BrokerExecutionEvent := s.delivered.map Prod.fst ++ s.queue

def create (settings : Settings) (draw : CreateDraw) (payload : OrderCreate) (s : System) :
    System :=
  match (createOrder settings draw payload).run (postgres .exact) s.db with
  | .ok (created, db') =>
    { s with
      db := db'
      work := s.work ++
        if created.shouldRoute then [.submitOrder (brokerOrder created.session.order.attrs)]
        else [] }
  | .error _ => s

def request (orderId : UUID) (reason : String) (s : System) : System :=
  match (requestCancellation orderId reason).run (postgres .exact) s.db with
  | .ok (requested, db') =>
    { s with
      db := db'
      work := s.work ++
        if requested.shouldNotifyBroker then [.cancelOrder requested.order.id reason] else [] }
  | .error _ => s

/-- One round of `broker_event_worker`. -/
def deliver (s : System) : System :=
  match s.queue with
  | [] => s
  | event :: rest =>
    match (processEvent event).run (postgres .exact) s.db with
    | .ok (applied, db') =>
      { s with db := db', queue := rest, delivered := s.delivered ++ [(event, some applied)] }
    | .error _ => { s with queue := rest, delivered := s.delivered ++ [(event, none)] }

def advance (i : ℕ) (draw : BrokerDraw) (s : System) : System :=
  match s.work[i]? with
  | none => s
  | some activity =>
    { s with
      work := s.work.eraseIdx i ++ (activity.advance draw).2
      queue := s.queue ++ (activity.advance draw).1 }

def step (settings : Settings) (s : System) : Action → System
  | .createOrder draw payload => s.create settings draw payload
  | .requestCancellation orderId reason => s.request orderId reason
  | .scanExpired ids => if s.overdue = [] then { s with overdue := ids } else s
  | .requestExpired =>
    match s.overdue with
    | [] => s
    | id :: rest => { s.request id expiryReason with overdue := rest }
  | .advance i draw => s.advance i draw
  | .deliver => s.deliver

/-- `uuid4` answers no id of an earlier event again. -/
def Draws (s : System) : Action → Prop
  | .advance _ draw => ∀ event ∈ s.emitted, event.eventId ≠ draw.eventId ∧
      event.executionId ≠ some draw.executionId
  | _ => True

instance (s : System) : (a : Action) → Decidable (s.Draws a)
  | .advance _ draw => inferInstanceAs (Decidable (∀ event ∈ s.emitted,
      event.eventId ≠ draw.eventId ∧ event.executionId ≠ some draw.executionId))
  | .createOrder .. | .requestCancellation .. | .scanExpired _ | .requestExpired | .deliver =>
    .isTrue trivial

inductive Turn (settings : Settings) (s : System) : Action → System → Prop
  | idle {a : Action} (overdue : List UUID) : Turn settings s a { s with overdue }
  | refused {draw : CreateDraw} {payload : OrderCreate}
      (t : Placement s.db settings draw payload)
      (inserted : (t.order.stored .exact).refusal .exact s.db = none) :
      Turn settings s (.createOrder draw payload)
        { s with db := s.db.booked .exact t.rejected t.account none [t.created, t.rejection] }
  | placed {draw : CreateDraw} {payload : OrderCreate} (t : Placement s.db settings draw payload)
      (inserted : (t.order.stored .exact).refusal .exact s.db = none) :
      Turn settings s (.createOrder draw payload)
        { s with
          db := s.db.booked .exact t.routed t.charged none [t.created, t.validation, t.routing]
          work := s.work ++ [.submitOrder (brokerOrder t.routed)] }
  | asked {a : Action} {orderId : UUID} {reason : String} {order : Order} (overdue : List UUID)
      (found : s.db.orders.find orderId = some order)
      (cancellable : order.status ∈ cancellableOrderStatuses) :
      Turn settings s a
        { s with
          db := s.db.logged .exact { order := .of (order.moved .cancelPending) }
            [⟨order.id, .cancelRequested, some order.status, some .cancelPending,
              [("reason", .text reason)]⟩]
          work := s.work ++ [.cancelOrder order.id reason]
          overdue }
  | advanced {i : ℕ} {draw : BrokerDraw} {before after : List Activity} {activity : Activity}
      (work : s.work = before ++ activity :: after) :
      Turn settings s (.advance i draw)
        { s with
          work := before ++ after ++ (activity.advance draw).2
          queue := s.queue ++ (activity.advance draw).1 }
  | delivered {event : BrokerExecutionEvent} {rest : List BrokerExecutionEvent} {applied : Bool}
      {db' : Db} (queue : s.queue = event :: rest)
      (ran : (processEvent event).run (postgres .exact) s.db = .ok (applied, db'))
      (effect : EventEffect .exact s.db event applied db') :
      Turn settings s .deliver
        { s with db := db', queue := rest, delivered := s.delivered ++ [(event, some applied)] }
  | raised {event : BrokerExecutionEvent} {rest : List BrokerExecutionEvent} {f : Failure}
      (queue : s.queue = event :: rest) (failure : EventFailure .exact s.db event f) :
      Turn settings s .deliver
        { s with queue := rest, delivered := s.delivered ++ [(event, none)] }

variable {settings : Settings} {s : System}

theorem request_turn (sound : s.db.Sound .exact) {a : Action} (overdue : List UUID)
    (orderId : UUID) (reason : String) :
    Turn settings s a { s.request orderId reason with overdue } := by
  have spec := @requestCancellation_spec _ _ orderId reason sound
  unfold request
  cases ran : (requestCancellation orderId reason).run (postgres .exact) s.db with
  | error f => exact .idle overdue
  | ok result =>
    obtain ⟨requested, db'⟩ := result
    cases wp_ok _ spec ran with
    | pending found pending =>
      simp only [List.append_nil, Bool.false_eq_true, if_false]
      exact .idle overdue
    | requested found cancellable => exact .asked overdue found cancellable

theorem create_turn (sound : s.db.Sound .exact) (draw : CreateDraw) (payload : OrderCreate) :
    Turn settings s (.createOrder draw payload) (s.create settings draw payload) := by
  have spec := @createOrder_spec _ _ settings draw payload sound
  unfold create
  cases ran : (OrderManagement.createOrder settings draw payload).run (postgres .exact) s.db with
  | error f => exact .idle s.overdue
  | ok result =>
    obtain ⟨created, db'⟩ := result
    cases wp_ok _ spec ran with
    | existing accountFound keyed same =>
      simp only [List.append_nil, Bool.false_eq_true, if_false]
      exact .idle s.overdue
    | rejected t inserted short holds =>
      simp only [List.append_nil, Bool.false_eq_true, if_false]
      exact .refused t inserted
    | routed t inserted covered kept holds clean =>
      simp only [holds.order, if_true]
      exact .placed t inserted

theorem deliver_turn (sound : s.db.Sound .exact) : Turn settings s .deliver s.deliver := by
  unfold deliver
  cases queue : s.queue with
  | nil => exact .idle s.overdue
  | cons event rest =>
    dsimp only
    cases ran : (processEvent event).run (postgres .exact) s.db with
    | error f => exact .raised queue (wp_error _ (processEvent_spec sound) ran)
    | ok result => exact .delivered queue ran (wp_ok _ (processEvent_spec sound) ran)

theorem advance_turn (i : ℕ) (draw : BrokerDraw) :
    Turn settings s (.advance i draw) (s.advance i draw) := by
  unfold advance
  cases found : s.work[i]? with
  | none => exact .idle s.overdue
  | some activity =>
    obtain ⟨short, same⟩ := List.getElem?_eq_some_iff.1 found
    have work : s.work = s.work.take i ++ activity :: s.work.drop (i + 1) := by
      rw [← same, List.getElem_cons_drop, List.take_append_drop]
    dsimp only
    rw [List.eraseIdx_eq_take_drop_succ]
    exact .advanced work

theorem turn (sound : s.db.Sound .exact) (a : Action) : Turn settings s a (s.step settings a) := by
  cases a with
  | createOrder draw payload => exact create_turn sound draw payload
  | requestCancellation orderId reason => exact request_turn sound _ orderId reason
  | scanExpired ids =>
    change Turn settings s _ (if s.overdue = [] then _ else _)
    split_ifs
    · exact .idle ids
    · exact .idle s.overdue
  | requestExpired =>
    change Turn settings s _ (match s.overdue with | [] => s | id :: rest => _)
    cases s.overdue with
    | nil => exact .idle s.overdue
    | cons id rest => exact request_turn sound rest id expiryReason
  | advance i draw => exact advance_turn i draw
  | deliver => exact deliver_turn sound

end System

end OrderManagement
