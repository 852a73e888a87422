import OrderManagement.OrderServices

/-! The simulated broker: tasks that sleep and put execution events on a queue. What the random
source and `uuid4` answer is drawn anew whenever a task goes on; how long a task sleeps is the
order in which the tasks go on. -/

namespace OrderManagement

def quantityStep : ℚ := 1 / 10 ^ 8

/-- `quantize(QUANTITY_STEP, rounding=ROUND_DOWN)` -/
def quantizeDown (x : ℚ) : ℚ :=
  (if 0 ≤ x then ⌊x / quantityStep⌋ else ⌈x / quantityStep⌉) * quantityStep

/-- `Decimal(str(random.uniform(0.25, 0.75)))` -/
structure FillRatio where
  value : ℚ
  lower : 1 / 4 ≤ value
  upper : value ≤ 3 / 4

def partialQuantity (ratio : FillRatio) (remaining : ℚ) : ℚ :=
  let quantity := quantizeDown (remaining * ratio.value)
  if quantity ≤ 0 then remaining
  else if quantity ≥ remaining then max (remaining - quantityStep) quantityStep
  else quantity

theorem quantizeDown_le {x : ℚ} (h : 0 ≤ x) : quantizeDown x ≤ x := by
  have step : (0 : ℚ) < quantityStep := by norm_num [quantityStep]
  unfold quantizeDown
  rw [if_pos h, ← le_div_iff₀ step]
  exact Int.floor_le _

theorem partialQuantity_bounds (ratio : FillRatio) {remaining : ℚ} (h : 0 < remaining) :
    0 < partialQuantity ratio remaining ∧ partialQuantity ratio remaining ≤ remaining := by
  have share : remaining * ratio.value < remaining := by
    have := mul_lt_mul_of_pos_left (show ratio.value < 1 by linarith [ratio.upper]) h
    linarith
  have down := quantizeDown_le (x := remaining * ratio.value)
    (mul_nonneg h.le (by linarith [ratio.lower]))
  unfold partialQuantity
  dsimp only
  split_ifs with none_ all
  · exact ⟨h, le_refl _⟩
  · exact absurd all (not_le.2 (down.trans_lt share))
  · exact ⟨not_le.1 none_, (not_le.1 all).le⟩

inductive Outcome
  | fullFill
  | partialFill (ratio : FillRatio)
  | rejected

/-- What a task draws when it goes on; `followUp` is `random() < 0.65`. -/
structure BrokerDraw where
  outcome : Outcome
  followUp : Bool
  eventId : UUID
  execution : UUID
  timestamp : Timestamp

def BrokerDraw.executionId (draw : BrokerDraw) : String := "SIM-" ++ draw.execution.str

theorem BrokerDraw.executionId_ne (draw : BrokerDraw) : draw.executionId ≠ "" := by
  simp [executionId]

theorem hexDigits_length (width n : ℕ) : (hexDigits width n).length = width := by
  induction width generalizing n with
  | zero => rfl
  | succ width ih => simp [hexDigits, ih]

theorem UUID.str_length (u : UUID) : u.str.length = 36 := by
  unfold UUID.str
  simp only [String.length_ofList, List.length_append, List.length_cons, List.length_take,
    List.length_drop, hexDigits_length]
  decide

theorem BrokerDraw.executionId_length (draw : BrokerDraw) : draw.executionId.length = 40 := by
  rw [executionId, String.length_append, UUID.str_length]
  rfl

/-- The coroutines in flight: calls that have committed and go on to the broker, and the
broker's tasks, each by what is left of it. -/
inductive Activity
  | submitOrder (order : BrokerOrder)
  | cancelOrder (orderId : UUID) (reason : String)
  | simulateOrder (order : BrokerOrder)
  | finishOrder (order : BrokerOrder) (remaining : ℚ)
  | simulateCancellation (orderId : UUID) (reason : String)

section

variable (draw : BrokerDraw)

/-- A fill event, which the validators of its model refuse without quantity or price. -/
def fillEvent? (eventType : BrokerEventType) (order : BrokerOrder) (quantity : ℚ) :
    Option BrokerExecutionEvent :=
  if h : 0 < quantity ∧ 0 < order.price then
    some
      { eventId := draw.eventId
        eventType := eventType
        orderId := order.orderId
        timestamp := draw.timestamp
        filledQuantity := quantity
        fillPrice := some order.price
        executionId := some draw.executionId
        validateFillPayload := fun _ =>
          ⟨h.1, ⟨order.price, rfl, h.2⟩, ⟨draw.executionId, rfl, draw.executionId_ne⟩⟩ }
  else none

theorem rejected_payload : BrokerEventType.rejected.isFill = true → (0 : ℚ) < 0 ∧
    (∃ price, (none : Option ℚ) = some price ∧ 0 < price) ∧
      ∃ execution, (none : Option String) = some execution ∧ execution ≠ "" := by
  simp [BrokerEventType.isFill]

theorem cancelled_payload : BrokerEventType.cancelled.isFill = true → (0 : ℚ) < 0 ∧
    (∃ price, (none : Option ℚ) = some price ∧ 0 < price) ∧
      ∃ execution, (none : Option String) = some execution ∧ execution ≠ "" := by
  simp [BrokerEventType.isFill]

def rejectedEvent (order : BrokerOrder) : BrokerExecutionEvent where
  eventId := draw.eventId
  eventType := .rejected
  orderId := order.orderId
  timestamp := draw.timestamp
  reason := some "Rejected by simulated broker"
  validateFillPayload := rejected_payload

def cancelledEvent (orderId : UUID) (reason : String) : BrokerExecutionEvent where
  eventId := draw.eventId
  eventType := .cancelled
  orderId := orderId
  timestamp := draw.timestamp
  reason := some reason
  validateFillPayload := cancelled_payload

/-- What a coroutine puts on the queue as it goes on, and what is left of it then. An event that
cannot be built ends its task. -/
abbrev Continuation := List BrokerExecutionEvent × List Activity

/-- `_simulate_order` after its first sleep -/
def simulateOrder (order : BrokerOrder) : Continuation :=
  match draw.outcome with
  | .rejected => ([rejectedEvent draw order], [])
  | .fullFill => ((fillEvent? draw .fullFill order order.remainingQuantity).toList, [])
  | .partialFill ratio =>
    let quantity := partialQuantity ratio order.remainingQuantity
    match fillEvent? draw .partialFill order quantity with
    | none => ([], [])
    | some event =>
      let remaining := order.remainingQuantity - quantity
      if order.timeInForce ≠ .ioc ∧ 0 < remaining ∧ draw.followUp then
        ([event], [.finishOrder order remaining])
      else ([event], [])

def Activity.advance : Activity → Continuation
  | submitOrder order => ([], [simulateOrder order])
  | cancelOrder orderId reason => ([], [simulateCancellation orderId reason])
  | simulateOrder order => OrderManagement.simulateOrder draw order
  | finishOrder order remaining => ((fillEvent? draw .fullFill order remaining).toList, [])
  | simulateCancellation orderId reason => ([cancelledEvent draw orderId reason], [])

end

structure FillOf (draw : BrokerDraw) (eventType : BrokerEventType) (order : BrokerOrder)
    (quantity : ℚ) (e : BrokerExecutionEvent) : Prop where
  eventId : e.eventId = draw.eventId
  eventType : e.eventType = eventType
  orderId : e.orderId = order.orderId
  filledQuantity : e.filledQuantity = quantity
  fillPrice : e.fillPrice = some order.price
  executionId : e.executionId = some draw.executionId
  positive : 0 < quantity

theorem fillEvent?_some {draw : BrokerDraw} {eventType : BrokerEventType} {order : BrokerOrder}
    {quantity : ℚ} {e : BrokerExecutionEvent}
    (h : fillEvent? draw eventType order quantity = some e) :
    FillOf draw eventType order quantity e := by
  unfold fillEvent? at h
  split_ifs at h with valid
  cases h
  exact ⟨rfl, rfl, rfl, rfl, rfl, rfl, valid.1⟩

inductive Simulated (draw : BrokerDraw) (order : BrokerOrder) : Continuation → Prop
  | failed : Simulated draw order ([], [])
  | rejected : Simulated draw order ([rejectedEvent draw order], [])
  | full {e : BrokerExecutionEvent} (fill : FillOf draw .fullFill order order.remainingQuantity e) :
      Simulated draw order ([e], [])
  | part {e : BrokerExecutionEvent} {ratio : FillRatio}
      (fill : FillOf draw .partialFill order (partialQuantity ratio order.remainingQuantity) e) :
      Simulated draw order ([e], [])
  | parts {e : BrokerExecutionEvent} {ratio : FillRatio}
      (fill : FillOf draw .partialFill order (partialQuantity ratio order.remainingQuantity) e)
      (resting : order.timeInForce ≠ .ioc) (more : e.filledQuantity < order.remainingQuantity) :
      Simulated draw order
        ([e], [.finishOrder order (order.remainingQuantity - e.filledQuantity)])

theorem simulateOrder_simulated (draw : BrokerDraw) (order : BrokerOrder) :
    Simulated draw order (simulateOrder draw order) := by
  unfold simulateOrder
  cases draw.outcome with
  | rejected => exact .rejected
  | fullFill =>
    dsimp only
    cases built : fillEvent? draw .fullFill order order.remainingQuantity with
    | none => exact .failed
    | some e => exact .full (fillEvent?_some built)
  | partialFill ratio =>
    dsimp only
    cases built : fillEvent? draw .partialFill order
      (partialQuantity ratio order.remainingQuantity) with
    | none => exact .failed
    | some e =>
      have fill := fillEvent?_some built
      dsimp only
      split_ifs with goesOn
      · obtain ⟨resting, more, -⟩ := goesOn
        rw [← fill.filledQuantity] at more ⊢
        exact .parts fill resting (sub_pos.1 more)
      · exact .part fill

structure Stamped (draw : BrokerDraw) (e : BrokerExecutionEvent) : Prop where
  eventId : e.eventId = draw.eventId
  executionId : ∀ execution ∈ e.executionId, execution = draw.executionId

theorem FillOf.stamped {draw : BrokerDraw} {eventType : BrokerEventType} {order : BrokerOrder}
    {quantity : ℚ} {e : BrokerExecutionEvent} (h : FillOf draw eventType order quantity e) :
    Stamped draw e :=
  ⟨h.eventId, fun execution mem => by
    rw [h.executionId] at mem
    exact (Option.some.inj mem).symm⟩

theorem Activity.advance_stamped (draw : BrokerDraw) (a : Activity) :
    (a.advance draw).1 = [] ∨ ∃ e, (a.advance draw).1 = [e] ∧ Stamped draw e := by
  cases a with
  | submitOrder | cancelOrder => exact Or.inl rfl
  | simulateOrder order =>
    have simulated := simulateOrder_simulated draw order
    change (OrderManagement.simulateOrder draw order).1 = [] ∨
      ∃ e, (OrderManagement.simulateOrder draw order).1 = [e] ∧ Stamped draw e
    generalize OrderManagement.simulateOrder draw order = c at simulated
    cases simulated with
    | failed => exact Or.inl rfl
    | rejected => exact Or.inr ⟨_, rfl, rfl, by simp [rejectedEvent]⟩
    | full fill => exact Or.inr ⟨_, rfl, fill.stamped⟩
    | part fill => exact Or.inr ⟨_, rfl, fill.stamped⟩
    | parts fill => exact Or.inr ⟨_, rfl, fill.stamped⟩
  | finishOrder order remaining =>
    cases built : fillEvent? draw .fullFill order remaining with
    | none => exact Or.inl (by simp [Activity.advance, built])
    | some e => exact Or.inr ⟨e, by simp [Activity.advance, built], (fillEvent?_some built).stamped⟩
  | simulateCancellation orderId reason => exact Or.inr ⟨_, rfl, rfl, by simp [cancelledEvent]⟩

end OrderManagement
