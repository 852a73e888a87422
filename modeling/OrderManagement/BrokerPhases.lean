import OrderManagement.ClosedSystem

/-! What the broker still has to say of an order. The coroutines that work on an order and the
events of theirs that wait in the queue agree with its row on what remains, until a
cancellation of the broker's has been applied. -/

namespace OrderManagement

open Program TransitionRuns

/-- The coroutine leads to executions or a rejection of the order. -/
def Activity.executes (k : UUID) : Activity → Bool
  | submitOrder order | simulateOrder order | finishOrder order _ => order.orderId = k
  | cancelOrder _ _ | simulateCancellation _ _ => false

def Activity.revokes (k : UUID) : Activity → Bool
  | submitOrder _ | simulateOrder _ | finishOrder _ _ => false
  | cancelOrder orderId _ | simulateCancellation orderId _ => orderId = k

namespace BrokerExecutionEvent

variable (k : UUID) (e : BrokerExecutionEvent)

def executes : Bool := e.orderId = k ∧ e.eventType ≠ .cancelled

def revokes : Bool := e.orderId = k ∧ e.eventType = .cancelled

end BrokerExecutionEvent

structure BrokerOrder.Mirrors (b : BrokerOrder) (o : Order) : Prop where
  orderId : b.orderId = o.id
  timeInForce : b.timeInForce = o.timeInForce
  price : b.price = o.price

theorem BrokerOrder.Mirrors.frozen {b : BrokerOrder} {o o' : Order} (h : b.Mirrors o)
    (frozen : o.Frozen o') : b.Mirrors o' :=
  ⟨h.orderId.trans frozen.id.symm, h.timeInForce.trans frozen.timeInForce.symm,
    h.price.trans frozen.price.symm⟩

def untouchedStatuses : List OrderStatus := [.routed, .cancelPending]

/-- The last fill of an order, of the quantity `rest`: not coming, yet to come, or queued. -/
inductive Tail (o : Order) (rest : ℚ) : List Activity → List BrokerExecutionEvent → Prop
  | ended : Tail o rest [] []
  | waiting {b : BrokerOrder} (mirrors : b.Mirrors o) : Tail o rest [.finishOrder b rest] []
  | queued {e : BrokerExecutionEvent} (kind : e.eventType = .fullFill)
      (quantity : e.filledQuantity = rest) (price : e.fillPrice = some o.price) :
      Tail o rest [] [e]

/-- Coroutines and queued events of an order; `asked` if its cancellation has been requested. -/
inductive OrderPhase (asked : Prop) (o : Order) : List Activity → List BrokerExecutionEvent → Prop
  | cancelled {work : List Activity} {queue : List BrokerExecutionEvent}
      (status : o.status = .cancelled) (requested : asked) : OrderPhase asked o work queue
  | placed {b : BrokerOrder} {a : Activity} (mirrors : b.Mirrors o)
      (remaining : b.remainingQuantity = o.remainingQuantity) (positive : 0 < o.remainingQuantity)
      (waits : a = .submitOrder b ∨ a = .simulateOrder b)
      (untouched : o.status ∈ untouchedStatuses) : OrderPhase asked o [a] []
  | rejecting {e : BrokerExecutionEvent} (kind : e.eventType = .rejected)
      (reason : e.reason = some "Rejected by simulated broker")
      (untouched : o.status ∈ untouchedStatuses) : OrderPhase asked o [] [e]
  | part {e : BrokerExecutionEvent} {work : List Activity} {queue : List BrokerExecutionEvent}
      (kind : e.eventType = .partialFill) (covered : e.filledQuantity ≤ o.remainingQuantity)
      (price : e.fillPrice = some o.price) (untouched : o.status ∈ untouchedStatuses)
      (tail : Tail o (o.remainingQuantity - e.filledQuantity) work queue)
      (more : work ≠ [] ∨ queue ≠ [] →
        o.timeInForce ≠ .ioc ∧ e.filledQuantity < o.remainingQuantity) :
      OrderPhase asked o work (e :: queue)
  | rest {work : List Activity} {queue : List BrokerExecutionEvent}
      (tail : Tail o o.remainingQuantity work queue)
      (working : work ≠ [] ∨ queue ≠ [] → o.status ∈ workingStatuses) :
      OrderPhase asked o work queue

section Phases

variable {asked : Prop} {o o' : Order} {work : List Activity} {queue : List BrokerExecutionEvent}
  {rest : ℚ}

theorem untouched_working {status : OrderStatus} (h : status ∈ untouchedStatuses) :
    status ∈ workingStatuses := by
  revert h
  cases status <;> decide

theorem OrderPhase.idle (asked : Prop) (o : Order) : OrderPhase asked o [] [] :=
  .rest .ended fun h => by simp at h

theorem Tail.frozen (h : Tail o rest work queue) (frozen : o.Frozen o') :
    Tail o' rest work queue := by
  cases h with
  | ended => exact .ended
  | waiting mirrors => exact .waiting (mirrors.frozen frozen)
  | queued kind quantity price => exact .queued kind quantity (frozen.price.symm ▸ price)

theorem OrderPhase.mono {asked' : Prop} (h : OrderPhase asked o work queue)
    (weaker : asked → asked') :
    OrderPhase asked' o work queue := by
  cases h with
  | cancelled status requested => exact .cancelled status (weaker requested)
  | placed mirrors remaining positive waits untouched =>
    exact .placed mirrors remaining positive waits untouched
  | rejecting kind reason untouched => exact .rejecting kind reason untouched
  | part kind covered price untouched tail more =>
    exact .part kind covered price untouched tail more
  | rest tail working => exact .rest tail working

theorem OrderPhase.request (h : OrderPhase asked o work queue)
    (cancellable : o.status ∈ cancellableOrderStatuses) :
    OrderPhase True (o.moved .cancelPending) work queue := by
  have frozen : o.Frozen (o.moved .cancelPending) :=
    ⟨rfl, rfl, rfl, rfl, rfl, rfl, rfl, rfl, rfl, rfl⟩
  have pending : (o.moved .cancelPending).status ∈ untouchedStatuses := by
    simp [Order.moved, untouchedStatuses]
  cases h with
  | cancelled status => simp [status, cancellableOrderStatuses] at cancellable
  | placed mirrors remaining positive waits =>
    exact .placed (mirrors.frozen frozen) remaining positive waits pending
  | rejecting kind reason => exact .rejecting kind reason pending
  | part kind covered price _ tail more =>
    exact .part kind covered price pending (tail.frozen frozen) more
  | rest tail => exact .rest (tail.frozen frozen) fun _ => untouched_working pending

theorem singleton_of_append {α : Type} {before after : List α} {a b : α}
    (h : before ++ a :: after = [b]) : before = [] ∧ a = b ∧ after = [] := by
  cases before with
  | nil => simpa using h
  | cons c before => simp at h

theorem Tail.advance {before after : List Activity} {a : Activity} (draw : BrokerDraw)
    (h : Tail o rest (before ++ a :: after) queue) :
    Tail o rest (before ++ after ++ (a.advance draw).2) (queue ++ (a.advance draw).1) := by
  generalize all : before ++ a :: after = work at h
  cases h with
  | ended => simp at all
  | queued => simp at all
  | @waiting b mirrors =>
    obtain ⟨rfl, rfl, rfl⟩ := singleton_of_append all
    cases built : fillEvent? draw .fullFill b rest with
    | none => simpa [Activity.advance, built] using Tail.ended
    | some e =>
      have fill := fillEvent?_some built
      have last : Tail o rest [] [e] :=
        .queued fill.eventType fill.filledQuantity
          (fill.fillPrice.trans (congrArg some mirrors.price))
      simpa [Activity.advance, built] using last

theorem OrderPhase.advance {before after : List Activity} {a : Activity} (draw : BrokerDraw)
    (h : OrderPhase asked o (before ++ a :: after) queue) :
    OrderPhase asked o (before ++ after ++ (a.advance draw).2) (queue ++ (a.advance draw).1) := by
  generalize all : before ++ a :: after = work at h
  cases h with
  | cancelled status requested => exact .cancelled status requested
  | rejecting => simp at all
  | @part e _ queue kind covered price untouched tail more =>
    subst all
    exact .part kind covered price untouched (tail.advance draw) fun _ => more (Or.inl (by simp))
  | rest tail working =>
    subst all
    exact .rest (tail.advance draw) fun _ => working (Or.inl (by simp))
  | @placed b _ mirrors remaining positive waits untouched =>
    obtain ⟨rfl, rfl, rfl⟩ := singleton_of_append all
    rcases waits with rfl | rfl
    · exact .placed mirrors remaining positive (Or.inr rfl) untouched
    · have simulated := simulateOrder_simulated draw b
      change OrderPhase asked o (OrderManagement.simulateOrder draw b).2
        (OrderManagement.simulateOrder draw b).1
      have known : some b.price = some o.price := congrArg some mirrors.price
      generalize OrderManagement.simulateOrder draw b = c at simulated
      cases simulated with
      | failed => exact .idle asked o
      | rejected => exact .rejecting rfl rfl untouched
      | full fill =>
        refine .rest (.queued fill.eventType ?_ (fill.fillPrice.trans known))
          fun _ => untouched_working untouched
        exact fill.filledQuantity.trans remaining
      | part fill =>
        refine .part fill.eventType ?_ (fill.fillPrice.trans known) untouched .ended fun h => ?_
        · rw [fill.filledQuantity, ← remaining]
          exact (partialQuantity_bounds _ (remaining.symm ▸ positive)).2
        · simp at h
      | parts fill resting more =>
        rw [remaining] at more ⊢
        exact .part fill.eventType more.le (fill.fillPrice.trans known) untouched (.waiting mirrors)
          fun _ => ⟨mirrors.timeInForce ▸ resting, more⟩

/-- What `process_event` decides on an event and makes of its order. -/
inductive Taken (o : Order) (e : BrokerExecutionEvent) : Verdict → Order → Prop
  | ignored {reason : String} (ignores : Ignores o e reason) : Taken o e (false, some reason) o
  | filled {price : ℚ} {booked final : Order} {account left : Account} {log : List OrderEvent}
      (isFill : e.eventType.isFill = true) (working : o.status ∈ workingStatuses)
      (book : o.bookFill e.filledQuantity price = .ok booked)
      (conclude : Concluded (fillData e price) booked account final left log) :
      Taken o e (true, none) final
  | released {final : Order} {record : OrderEvent} (becomes : Released e o final record) :
      Taken o e (true, none) final

theorem OrderPhase.of_nil (asked : Prop) (o : Order) (none_ : ¬ (work ≠ [] ∨ queue ≠ [])) :
    OrderPhase asked o work queue := by
  obtain ⟨rfl, rfl⟩ : work = [] ∧ queue = [] := by simpa [not_or] using none_
  exact .idle asked o

theorem OrderPhase.executed {e : BrokerExecutionEvent} {verdict : Verdict}
    (h : OrderPhase asked o work (e :: queue)) (taken : Taken o e verdict o') :
    OrderPhase asked o' work queue := by
  cases h with
  | cancelled status requested =>
    cases taken with
    | ignored => exact .cancelled status requested
    | filled isFill working => simp [status, workingStatuses] at working
    | released becomes =>
      have working := becomes.working
      simp [status, workingStatuses] at working
  | rejecting => exact .idle asked o'
  | rest tail =>
    cases tail
    exact .idle asked o'
  | part kind covered price untouched tail more =>
    have working := untouched_working untouched
    cases taken with
    | ignored ignores =>
      have covered := not_lt.2 covered
      cases ignores <;> simp_all
    | released becomes => cases becomes <;> simp_all
    | filled isFill working book conclude =>
      have frozen := (Order.bookFill_frozen book).trans conclude.frozen
      obtain ⟨-, rfl⟩ := Order.bookFill_ok book
      cases conclude with
      | filled done => exact .of_nil asked _ fun held => (sub_pos.2 (more held).2).ne' done
      | ioc rest ioc => exact .of_nil asked _ fun held => (more held).1 ioc
      | first => exact .rest (tail.frozen frozen) fun _ => by simp [Order.moved, workingStatuses]
      | further => exact .rest (tail.frozen frozen) fun _ => working

theorem OrderPhase.ignored {e : BrokerExecutionEvent} {reason : String}
    (h : OrderPhase asked o work (e :: queue)) (ignores : Ignores o e reason)
    (executes : e.eventType ≠ .cancelled) (pending : o.status = .cancelPending → asked) :
    asked ∧ (e.eventType.isFill = true → reason = "Order is already CANCELLED") := by
  cases h with
  | cancelled status requested =>
    refine ⟨requested, fun isFill => ?_⟩
    cases ignores with
    | fillOfDone => rw [status]; rfl
    | overfill _ working | partOfFull _ working => simp [status, workingStatuses] at working
    | rejectionOfUnrouted rejection => simp [rejection, BrokerEventType.isFill] at isFill
    | cancellationOfDone cancellation => exact absurd cancellation executes
  | rejecting kind _ untouched =>
    cases ignores with
    | rejectionOfUnrouted _ unrouted =>
      exact ⟨pending (by simpa [untouchedStatuses, unrouted] using untouched),
        fun isFill => by simp [kind, BrokerEventType.isFill] at isFill⟩
    | fillOfDone fill | overfill fill => simp [kind, BrokerEventType.isFill] at fill
    | partOfFull full => simp [kind] at full
    | cancellationOfDone cancellation => exact absurd cancellation executes
  | part kind covered _ untouched =>
    cases ignores with
    | fillOfDone _ done => exact absurd (untouched_working untouched) done
    | overfill _ _ beyond => exact absurd covered (not_le.2 beyond)
    | partOfFull full => simp [kind] at full
    | rejectionOfUnrouted rejection => simp [kind] at rejection
    | cancellationOfDone cancellation => exact absurd cancellation executes
  | rest tail working =>
    have live : o.status ∈ workingStatuses := working (Or.inr (by simp))
    cases tail with
    | queued kind quantity =>
      cases ignores with
      | fillOfDone _ done => exact absurd live done
      | overfill _ _ beyond => exact absurd quantity.le (not_le.2 beyond)
      | partOfFull _ _ part => exact absurd quantity.ge (not_le.2 part)
      | rejectionOfUnrouted rejection => simp [kind] at rejection
      | cancellationOfDone cancellation => exact absurd cancellation executes

theorem OrderPhase.revoked {e : BrokerExecutionEvent} {verdict : Verdict}
    (h : OrderPhase asked o work queue) (taken : Taken o e verdict o')
    (kind : e.eventType = .cancelled) (requested : asked) : OrderPhase asked o' work queue := by
  cases taken with
  | ignored => exact h
  | filled isFill => simp [kind, BrokerEventType.isFill] at isFill
  | released becomes =>
    cases becomes with
    | rejected rejection => simp [kind] at rejection
    | cancelled => exact .cancelled rfl requested

end Phases

end OrderManagement
