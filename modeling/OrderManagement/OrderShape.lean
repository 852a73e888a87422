import OrderManagement.OrderRuns

/-! Status and quantities of an order. The status a transaction commits fixes the
shape of the quantities, as long as no fill leaves a remainder so small that its
column rounds it to zero. -/

namespace OrderManagement

open Program TransitionRuns

structure Order.Shape (o : Order) : Prop where
  conserved : o.filledQuantity + o.cancelledQuantity + o.remainingQuantity = o.quantity
  filled_nonneg : 0 ≤ o.filledQuantity
  cancelled_nonneg : 0 ≤ o.cancelledQuantity
  remaining_nonneg : 0 ≤ o.remainingQuantity
  unfilled : o.status = .routed ∨ o.status = .rejected →
    o.filledQuantity = 0 ∧ o.cancelledQuantity = 0
  partiallyFilled : o.status = .partiallyFilled → 0 < o.filledQuantity ∧
    o.filledQuantity < o.quantity ∧ o.cancelledQuantity = 0 ∧ o.timeInForce ≠ .ioc
  cancelPending : o.status = .cancelPending → 0 < o.remainingQuantity ∧ o.cancelledQuantity = 0
  filled : o.status = .filled → o.filledQuantity = o.quantity
  cancelled : o.status = .cancelled → o.remainingQuantity = 0 ∧ 0 < o.cancelledQuantity
  decided : o.status ≠ .new ∧ o.status ≠ .validated

/-- The part of the shape that no constraint of the table states. -/
structure Order.Coupled (o : Order) : Prop where
  unfilled : o.status = .routed ∨ o.status = .rejected →
    o.filledQuantity = 0 ∧ o.cancelledQuantity = 0
  partiallyFilled : o.status = .partiallyFilled → 0 < o.filledQuantity ∧ o.timeInForce ≠ .ioc
  working : o.status ∈ workingStatuses → 0 < o.remainingQuantity ∧ o.cancelledQuantity = 0
  filled : o.status = .filled → o.remainingQuantity = 0 ∧ o.cancelledQuantity = 0
  cancelled : o.status = .cancelled → o.remainingQuantity = 0 ∧ 0 < o.cancelledQuantity
  ioc : o.timeInForce = .ioc → 0 < o.filledQuantity → o.status ∈ terminalOrderStatuses
  decided : o.status ≠ .new ∧ o.status ≠ .validated

/-- The constraints of the table on the quantities of an order. -/
structure Order.Conserved (o : Order) : Prop where
  quantity : 0 < o.quantity
  filled : 0 ≤ o.filledQuantity
  cancelled : 0 ≤ o.cancelledQuantity
  remaining : 0 ≤ o.remainingQuantity
  sum : o.filledQuantity + o.cancelledQuantity + o.remainingQuantity = o.quantity

theorem Order.conserved_of_violation {num : Numeric} {o : Order} (h : o.violation num = none) :
    o.Conserved := by
  unfold Order.violation at h
  rw [firstFailure_eq_none_iff] at h
  simp only [List.forall_mem_cons, decide_eq_true_eq] at h
  obtain ⟨-, -, -, -, -, quantity, -, filled, cancelled, remaining, sum, -⟩ := h
  exact ⟨quantity, filled, cancelled, remaining, sum⟩

theorem Fill.quantity_pos {num : Numeric} {f : Fill} (h : f.violation num = none) :
    0 < f.quantity := by
  unfold Fill.violation at h
  rw [firstFailure_eq_none_iff] at h
  simp only [List.forall_mem_cons, decide_eq_true_eq] at h
  exact h.2.2.1

theorem Order.Coupled.shape {o : Order} (h : o.Coupled) (c : o.Conserved) : o.Shape where
  conserved := c.sum
  filled_nonneg := c.filled
  cancelled_nonneg := c.cancelled
  remaining_nonneg := c.remaining
  unfilled := h.unfilled
  partiallyFilled status := by
    obtain ⟨filled, tif⟩ := h.partiallyFilled status
    obtain ⟨remaining, cancelled⟩ := h.working (by simp [status, workingStatuses])
    exact ⟨filled, by linarith [c.sum], cancelled, tif⟩
  cancelPending status := h.working (by simp [status, workingStatuses])
  filled status := by
    obtain ⟨remaining, cancelled⟩ := h.filled status
    linarith [c.sum]
  cancelled := h.cancelled
  decided := h.decided

/-- A fill event that the guards of `_apply_fill` let through and that leaves a
remainder which its column rounds to zero. -/
def roundsAway (num : Numeric) (db : Db) (event : BrokerExecutionEvent) : Bool :=
  match db.orders.find event.orderId with
  | none => false
  | some order =>
    decide (event.eventType = .partialFill ∧ order.status ∈ workingStatuses ∧
      event.filledQuantity < order.remainingQuantity ∧
      num.round (order.remainingQuantity - event.filledQuantity) = 0) &&
      (db.processedBrokerEvents.find event.eventId).isNone

def Op.keepsRemainder (num : Numeric) (db : Db) : Op → Bool
  | .processEvent event => !roundsAway num db event
  | _ => true

section Steps

variable {num : Numeric} {db : Db}

theorem Db.Sound.conserved (sound : db.Sound num) {o : Order} (mem : o ∈ db.orders.rows) :
    o.Conserved := Order.conserved_of_violation (sound.orders o mem).2

theorem FillAttempt.part {event : BrokerExecutionEvent} (t : FillAttempt db event)
    (rest : event.filledQuantity ≠ t.order.remainingQuantity) : event.eventType = .partialFill := by
  have isFill := t.isFill
  cases kind : event.eventType with
  | partialFill => rfl
  | fullFill => exact absurd (t.whole kind) rest
  | rejected | cancelled =>
    rw [kind] at isFill
    cases isFill

theorem FillAttempt.roundsAway_iff {event : BrokerExecutionEvent} (t : FillAttempt db event) :
    roundsAway num db event = true ↔ t.order.remainingQuantity - event.filledQuantity ≠ 0 ∧
      num.round (t.order.remainingQuantity - event.filledQuantity) = 0 := by
  unfold roundsAway
  simp only [t.found, t.unprocessed, Option.isNone_none, Bool.and_true, decide_eq_true_eq,
    t.working,
    true_and]
  constructor
  · rintro ⟨-, less, zero⟩
    exact ⟨(sub_pos.2 less).ne', zero⟩
  · rintro ⟨rest, zero⟩
    have differs : event.filledQuantity ≠ t.order.remainingQuantity := fun same =>
      rest (by rw [same, sub_self])
    exact ⟨t.part differs, lt_of_le_of_ne t.covered differs, zero⟩

theorem Order.not_terminal_of_working {o : Order} (working : o.status ∈ workingStatuses) :
    o.status ∉ terminalOrderStatuses := by
  revert working
  cases o.status <;> decide

theorem Concluded.coupled {data : EventData} {o b o' : Order} {a a' : Account}
    {es : List OrderEvent} {q price : ℚ} (h : Concluded data b a o' a' es)
    (book : o.bookFill q price = .ok b) (before : o.Coupled) (working : o.status ∈ workingStatuses)
    (filled : 0 ≤ o.filledQuantity) (positive : 0 < num.round q)
    (remaining : 0 ≤ num.round (o.remainingQuantity - q))
    (rounds : o.remainingQuantity - q ≠ 0 → num.round (o.remainingQuantity - q) ≠ 0) :
    (o'.stored num).Coupled := by
  obtain ⟨-, rfl⟩ := Order.bookFill_ok book
  obtain ⟨-, uncancelled⟩ := before.working working
  have stays : num.round o.cancelledQuantity = 0 := by rw [uncancelled, num.round_zero]
  have grows : 0 < num.round (o.filledQuantity + q) :=
    positive.trans_le (num.round_mono (le_add_of_nonneg_left filled))
  cases h with
  | filled done =>
    have empty : num.round (o.remainingQuantity - q) = 0 := by
      rw [show o.remainingQuantity - q = 0 from done, num.round_zero]
    constructor <;> simp [Order.stored, Order.moved, workingStatuses, terminalOrderStatuses, empty,
      stays]
  | ioc rest ioc release =>
    have left : 0 < num.round (o.remainingQuantity - q) :=
      lt_of_le_of_ne remaining (rounds rest).symm
    constructor <;> simp [Order.stored, Order.moved, Order.cancelRest, workingStatuses,
      terminalOrderStatuses, num.round_zero, uncancelled, left]
  | first rest resting routed =>
    have left : 0 < num.round (o.remainingQuantity - q) :=
      lt_of_le_of_ne remaining (rounds rest).symm
    have resting : o.timeInForce ≠ .ioc := resting
    constructor <;> simp [Order.stored, Order.moved, workingStatuses, left, stays, grows, resting]
  | further rest resting notRouted =>
    have left : 0 < num.round (o.remainingQuantity - q) :=
      lt_of_le_of_ne remaining (rounds rest).symm
    have resting : o.timeInForce ≠ .ioc := resting
    have notRouted : o.status ≠ .routed := notRouted
    have notDone := Order.not_terminal_of_working working
    simp only [terminalOrderStatuses, List.mem_cons, List.not_mem_nil, or_false, not_or] at notDone
    have decided := before.decided
    constructor <;> simp [Order.stored, left, stays, grows, resting, notRouted, notDone, decided]

theorem Order.stored_quantities {o : Order} (kept : o.stored num = o) :
    num.round o.filledQuantity = o.filledQuantity ∧
      num.round o.cancelledQuantity = o.cancelledQuantity ∧
      num.round o.remainingQuantity = o.remainingQuantity :=
  ⟨congrArg Order.filledQuantity kept, congrArg Order.cancelledQuantity kept,
    congrArg Order.remainingQuantity kept⟩

/-- A routed order that is rejected, for whatever reason. -/
theorem Order.Coupled.rejected {o : Order} (before : o.Coupled) (routed : o.status = .routed)
    (reason : Option String) :
    (({ o with rejectionReason := reason }.moved .rejected).stored num).Coupled := by
  obtain ⟨filled, cancelled⟩ := before.unfilled (Or.inl routed)
  constructor <;>
    simp [Order.stored, Order.moved, workingStatuses, filled, cancelled, num.round_zero]

theorem Order.Coupled.cancelRest {o : Order} (before : o.Coupled) (kept : o.stored num = o)
    (working : o.status ∈ workingStatuses) :
    ((o.cancelRest.moved .cancelled).stored num).Coupled := by
  obtain ⟨remaining, uncancelled⟩ := before.working working
  obtain ⟨-, -, rest⟩ := Order.stored_quantities kept
  constructor <;> simp [Order.stored, Order.moved, Order.cancelRest, workingStatuses,
    terminalOrderStatuses, num.round_zero, uncancelled, rest, remaining]

theorem Order.Coupled.cancelPending {o : Order} (before : o.Coupled) (kept : o.stored num = o)
    (working : o.status ∈ workingStatuses) : ((o.moved .cancelPending).stored num).Coupled := by
  obtain ⟨remaining, uncancelled⟩ := before.working working
  obtain ⟨filled, -, rest⟩ := Order.stored_quantities kept
  have notIoc : o.timeInForce = .ioc → ¬ 0 < o.filledQuantity := fun tif some_ =>
    Order.not_terminal_of_working working (before.ioc tif some_)
  constructor <;>
    simp [Order.stored, Order.moved, num.round_zero, uncancelled, rest, remaining, filled]
  exact fun tif some_ => absurd some_ (notIoc tif)

theorem Placement.coupled {settings : Settings} {draw : CreateDraw} {payload : OrderCreate}
    (t : Placement db settings draw payload) (checked : (t.order.stored num).Conserved) :
    (t.rejected.stored num).Coupled ∧ (t.routed.stored num).Coupled := by
  have positive : 0 < num.round payload.quantity := checked.quantity
  refine ⟨?_, ?_⟩ <;> constructor <;>
    simp [Placement.rejected, Placement.unfunded, Placement.routed, Placement.order, newOrder,
      Order.stored, Order.moved, workingStatuses, num.round_zero, positive]

variable {S : Deployment} {db' : Db}

theorem Change.coupled {op : Op} (h : Change S db op db') (sound : db.Sound S.num)
    (coupled : ∀ o ∈ db.orders.rows, o.Coupled) (keeps : op.keepsRemainder S.num db = true) :
    ∀ o ∈ db'.orders.rows, o.Coupled := by
  have row : ∀ {k : UUID} {o : Order}, db.orders.find k = some o →
      o.Coupled ∧ o.stored S.num = o := fun found =>
    ⟨coupled _ (Table.mem_of_find found), (sound.orders _ (Table.mem_of_find found)).1⟩
  cases h with
  | unchanged | ignored | ticked => exact coupled
  | refused t inserted short =>
    have checked := Order.conserved_of_violation (Order.refusal_eq_none_iff.1 inserted).1
    exact Table.forall_put (t.coupled checked).1 coupled
  | routed t inserted covered kept =>
    have checked := Order.conserved_of_violation (Order.refusal_eq_none_iff.1 inserted).1
    exact Table.forall_put (t.coupled checked).2 coupled
  | @filled event t =>
    obtain ⟨before, kept⟩ := row t.found
    have quantities := sound.conserved (Table.mem_of_find t.found)
    have away : ¬ roundsAway S.num db event = true := by simpa [Op.keepsRemainder] using keeps
    rw [t.roundsAway_iff] at away
    refine Table.forall_put (t.conclude.coupled t.book before t.working quantities.filled ?_ ?_
      fun rest zero => away ⟨rest, zero⟩) coupled
    · exact Fill.quantity_pos (Fill.refusal_eq_none_iff.1 t.fillKept).1
    · exact S.num.round_nonneg (sub_nonneg.2 t.covered)
  | @released event order final account released record found unprocessed accountFound becomes
      release accepted =>
    obtain ⟨before, kept⟩ := row found
    refine Table.forall_put ?_ coupled
    cases becomes with
    | rejected rejection routed => exact before.rejected routed _
    | cancelled cancellation working => exact before.cancelRest kept working
  | @cancelRequested orderId reason order found cancellable =>
    obtain ⟨before, kept⟩ := row found
    have working : order.status ∈ workingStatuses :=
      Db.Decided.working (fun o mem => (coupled o mem).decided)
        (Table.mem_of_find found) cancellable
    exact Table.forall_put (before.cancelPending kept working) coupled
  | @routingFailed orderId reason order account found wasRouted accountFound kept =>
    obtain ⟨before, -⟩ := row found
    exact Table.forall_put (before.rejected wasRouted _) coupled

theorem Change.terminal {op : Op} (h : Change S db op db') {k : UUID} {o : Order}
    (found : db.orders.find k = some o) (terminal : o.status ∈ terminalOrderStatuses) :
    db'.orders.find k = some o := by
  have other : ∀ {k' : UUID} {p p' : Order}, db.orders.find k' = some p → p'.id = p.id →
      p.status ∉ terminalOrderStatuses → (db.orders.put (p'.stored S.num)).find k = some o := by
    intro k' p p' was id notTerminal
    rw [Table.find_put_of_ne, found]
    intro same
    have key : k' = k := (Table.find_key was).symm.trans (id.symm.trans same)
    rw [key, found, Option.some_inj] at was
    exact notTerminal (was ▸ terminal)
  have placed : ∀ {draw : CreateDraw} {payload : OrderCreate}
      (t : Placement db S.settings draw payload) {p' : Order},
      (t.order.stored S.num).refusal S.num db = none → p'.id = draw.orderId →
      (db.orders.put (p'.stored S.num)).find k = some o := by
    intro draw payload t p' inserted id
    rw [Table.find_put_of_ne, found]
    intro same
    have key : draw.orderId = k := id.symm.trans same
    exact absurd (found.symm.trans (key ▸ t.unplaced inserted)) (by simp)
  cases h with
  | unchanged | ignored | ticked => exact found
  | refused t inserted short => exact placed t inserted rfl
  | routed t inserted covered kept => exact placed t inserted rfl
  | filled t => exact other t.found t.frozen.id (Order.not_terminal_of_working t.working)
  | released was unprocessed accountFound becomes release kept =>
    exact other was becomes.frozen.id (Order.not_terminal_of_working becomes.working)
  | @cancelRequested orderId reason order was cancellable =>
    refine other was rfl ?_
    revert cancellable
    cases order.status <;> decide
  | @routingFailed orderId reason order account was wasRouted accountFound kept =>
    refine other was rfl ?_
    rw [wasRouted]
    decide

/-- A fill that rounds the rest of its order away leaves it in the wrong shape. -/
theorem Concluded.misshapen {data : EventData} {o b o' : Order} {a a' : Account}
    {es : List OrderEvent} {q price : ℚ} (h : Concluded data b a o' a' es)
    (book : o.bookFill q price = .ok b) (before : o.Coupled) (working : o.status ∈ workingStatuses)
    (rest : o.remainingQuantity - q ≠ 0) (zero : num.round (o.remainingQuantity - q) = 0) :
    ¬ (o'.stored num).Shape := by
  obtain ⟨-, rfl⟩ := Order.bookFill_ok book
  obtain ⟨-, uncancelled⟩ := before.working working
  intro shape
  cases h with
  | filled done => exact rest done
  | ioc =>
    obtain ⟨-, some_⟩ := shape.cancelled rfl
    simp [Order.stored, Order.moved, Order.cancelRest, uncancelled, zero] at some_
  | first =>
    obtain ⟨-, part, none_, -⟩ := shape.partiallyFilled rfl
    have sum := shape.conserved
    dsimp only [Order.stored, Order.moved] at sum part none_
    linarith
  | further _ _ notRouted =>
    rcases mem_workingStatuses.1 working with routed | part | pending
    · exact notRouted routed
    · obtain ⟨-, less, none_, -⟩ := shape.partiallyFilled part
      have sum := shape.conserved
      dsimp only [Order.stored] at sum less none_
      linarith
    · exact absurd zero (shape.cancelPending pending).1.ne'

/-- In every run whose fills leave no remainder that rounds to zero, every order has
the shape of its status, an IOC order is finished by its first fill, and a finished
order never changes. -/
theorem run_shape {db₀ : Db} (fresh : db₀.Fresh S.num) (ops : List Op)
    (keeps : Along (step S) (fun db op => op.keepsRemainder S.num db = true) db₀ ops) :
    let db := run (step S) db₀ ops
    (∀ o ∈ db.orders.rows, o.Shape ∧
      (o.timeInForce = .ioc → 0 < o.filledQuantity → o.status ∈ terminalOrderStatuses) ∧
      (o.status ∈ terminalOrderStatuses → ∀ after : List Op,
        (run (step S) db after).orders.find o.id = some o)) ∧
    ∀ event, ∀ t : AppliedFill S.num db event, roundsAway S.num db event = true →
      ∃ o ∈ t.after.orders.rows, ¬ o.Shape := by
  intro db
  have inv : db.Sound S.num ∧ ∀ o ∈ db.orders.rows, o.Coupled :=
    run_invariant_along (fun db => db.Sound S.num ∧ ∀ o ∈ db.orders.rows, o.Coupled)
      (fun db op inv keeps => ⟨step_sound inv.1 op,
        (step_change S inv.1 op).coupled inv.1 inv.2 keeps⟩)
      ⟨fresh.sound, by simp [fresh.orders]⟩ keeps
  obtain ⟨sound, coupled⟩ := inv
  refine ⟨fun o mem => ⟨(coupled o mem).shape (sound.conserved mem), (coupled o mem).ioc,
    fun terminal after => ?_⟩, fun event t away =>
      ⟨t.final.stored S.num, Table.mem_put_self _ _, ?_⟩⟩
  · exact run_induction S (fun db => db.orders.find o.id = some o) sound
      (fun db op db' _ found change => change.terminal found terminal) (Table.find_of_mem mem)
  · obtain ⟨rest, zero⟩ := t.roundsAway_iff.1 away
    exact t.conclude.misshapen t.book (coupled _ (Table.mem_of_find t.found)) t.working rest zero

theorem run_shape_partialFill :
    let S : Deployment := ⟨.column 24 8, {}, id⟩
    let db :=
      run (step S) (traderDb S.num) [.createOrder ⟨2, 0⟩ limitBuy, .processEvent partialFill]
    (∃ o ∈ db.orders.rows, o.status = .partiallyFilled) ∧ ∀ o ∈ db.orders.rows, o.Shape := by
  refine ⟨by decide +kernel, fun o mem => ?_⟩
  refine ((run_shape (openAccounts_fresh _ _) _ ?_).1 o mem).1
  exact ⟨by decide +kernel, by decide +kernel, trivial⟩

/-- A fill of 9.999999996 out of 10: the columns keep 10 filled and nothing remaining. -/
def almostFullFill : BrokerExecutionEvent where
  eventId := 3
  eventType := .partialFill
  orderId := 2
  timestamp := 0
  filledQuantity := 9999999996 / 1000000000
  fillPrice := some 20
  executionId := some "execution-1"
  validateFillPayload _ :=
    ⟨by norm_num, ⟨20, rfl, by norm_num⟩, ⟨"execution-1", rfl, by decide⟩⟩

theorem not_shape_almostFullFill :
    let S : Deployment := ⟨.column 24 8, {}, id⟩
    let db := run (step S) (traderDb S.num)
      [.createOrder ⟨2, 0⟩ limitBuy, .processEvent almostFullFill]
    ∃ o ∈ db.orders.rows, o.status = .partiallyFilled ∧ o.filledQuantity = o.quantity ∧
      ¬ o.Shape := by
  have row : ∃ o ∈ (run (step ⟨.column 24 8, {}, id⟩) (traderDb (.column 24 8))
      [.createOrder ⟨2, 0⟩ limitBuy, .processEvent almostFullFill]).orders.rows,
      o.status = .partiallyFilled ∧ o.filledQuantity = o.quantity := by decide +kernel
  obtain ⟨o, mem, status, all⟩ := row
  exact ⟨o, mem, status, all, fun shape => (shape.partiallyFilled status).2.1.ne all⟩

end Steps

end OrderManagement
