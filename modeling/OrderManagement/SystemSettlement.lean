import OrderManagement.ExecutionAgreement

/-! What the closed system comes to when it is left alone. The broker's coroutines and the event
worker run out of work, and then no order waits for the broker. -/

namespace OrderManagement

open Program TransitionRuns

def Activity.weight : Activity → ℕ
  | submitOrder _ => 5
  | simulateOrder _ => 4
  | cancelOrder _ _ => 3
  | finishOrder _ _ | simulateCancellation _ _ => 2

theorem Activity.advance_lighter (draw : BrokerDraw) (a : Activity) :
    ((a.advance draw).2.map weight).sum + (a.advance draw).1.length < a.weight := by
  cases a with
  | submitOrder | cancelOrder | simulateCancellation => simp [advance, weight]
  | finishOrder order remaining =>
    cases built : fillEvent? draw .fullFill order remaining <;> simp [advance, weight, built]
  | simulateOrder order =>
    have simulated := simulateOrder_simulated draw order
    change ((OrderManagement.simulateOrder draw order).2.map weight).sum +
      (OrderManagement.simulateOrder draw order).1.length < _
    generalize OrderManagement.simulateOrder draw order = c at simulated
    cases simulated <;> simp [weight]

theorem fillEvent?_of_pos {draw : BrokerDraw} {eventType : BrokerEventType} {order : BrokerOrder}
    {quantity : ℚ} (positive : 0 < quantity) (price : 0 < order.price) :
    ∃ e, fillEvent? draw eventType order quantity = some e := by
  unfold fillEvent?
  rw [dif_pos ⟨positive, price⟩]
  exact ⟨_, rfl⟩

theorem simulateOrder_emits (draw : BrokerDraw) {order : BrokerOrder}
    (positive : 0 < order.remainingQuantity) (price : 0 < order.price) :
    (simulateOrder draw order).1 ≠ [] := by
  unfold simulateOrder
  cases draw.outcome with
  | rejected => simp
  | fullFill =>
    obtain ⟨e, built⟩ := @fillEvent?_of_pos draw .fullFill order _ positive price
    simp [built]
  | partialFill ratio =>
    obtain ⟨e, built⟩ := @fillEvent?_of_pos draw .partialFill order _
      (partialQuantity_bounds ratio positive).1 price
    dsimp only
    rw [built]
    dsimp only
    split_ifs <;> simp

structure Awaiting (db : Db) (work : List Activity) (queue : List BrokerExecutionEvent) : Prop where
  routed : ∀ k o, db.orders.find k = some o → o.status = .routed →
    queue.filter (·.executes k) ≠ [] ∨ ∃ b, 0 < b.remainingQuantity ∧ 0 < b.price ∧
      (work.filter (·.executes k) = [.submitOrder b] ∨
        work.filter (·.executes k) = [.simulateOrder b])
  revoked : ∀ k o, db.orders.find k = some o → o.status = .cancelPending →
    (∃ a ∈ work, a.revokes k = true) ∨ ∃ e ∈ queue, e.revokes k = true
  requested : ∀ k, db.cancelRequests k ≠ 0 →
    ∃ o, db.orders.find k = some o ∧ o.status ∈ uncancellableStatuses
  resting : ∀ k o, db.orders.find k = some o → o.status = .partiallyFilled → o.timeInForce ≠ .ioc

theorem OrderPhase.unrouted {asked : Prop} {o o' : Order} {work : List Activity}
    {queue : List BrokerExecutionEvent} {e : BrokerExecutionEvent} {verdict : Verdict}
    (h : OrderPhase asked o work (e :: queue)) (executes : e.eventType ≠ .cancelled)
    (taken : Taken o e verdict o') : o'.status ≠ .routed := by
  cases taken with
  | filled isFill working book conclude =>
    obtain ⟨-, rfl⟩ := Order.bookFill_ok book
    cases conclude with
    | further _ _ notRouted => exact notRouted
    | filled | ioc | first => simp [Order.moved]
  | released becomes => cases becomes <;> simp [Order.moved]
  | ignored ignores =>
    -- a phase in which a routed order ignores its event is that of a cancelled one
    have phase : OrderPhase (o.status ≠ .routed) o work (e :: queue) := by
      cases h with
      | cancelled status => exact .cancelled status (by simp [status])
      | rejecting kind reason untouched => exact .rejecting kind reason untouched
      | part kind covered price untouched tail more =>
        exact .part kind covered price untouched tail more
      | rest tail working => exact .rest tail working
    exact (phase.ignored ignores executes fun pending => by simp [pending]).1

theorem Taken.unrouted {o o' : Order} {e : BrokerExecutionEvent} {verdict : Verdict}
    (h : Taken o e verdict o') (kind : e.eventType = .cancelled) : o'.status ≠ .routed := by
  cases h with
  | filled isFill => simp [kind, BrokerEventType.isFill] at isFill
  | released becomes => cases becomes <;> simp [Order.moved]
  | ignored ignores =>
    cases ignores with
    | cancellationOfDone _ done => exact fun routed => done (by simp [routed, workingStatuses])
    | fillOfDone fill | overfill fill => simp [kind, BrokerEventType.isFill] at fill
    | partOfFull full => simp [kind] at full
    | rejectionOfUnrouted rejection => simp [kind] at rejection

/-- A cancellation of the broker's ends a pending request. -/
theorem Taken.not_pending {o o' : Order} {e : BrokerExecutionEvent} {verdict : Verdict}
    (h : Taken o e verdict o') (kind : e.eventType = .cancelled) :
    o'.status ≠ .cancelPending := by
  cases h with
  | filled isFill => simp [kind, BrokerEventType.isFill] at isFill
  | released becomes => cases becomes <;> simp [Order.moved]
  | ignored ignores =>
    cases ignores with
    | cancellationOfDone _ done => exact fun pending => done (by simp [pending, workingStatuses])
    | fillOfDone fill | overfill fill => simp [kind, BrokerEventType.isFill] at fill
    | partOfFull full => simp [kind] at full
    | rejectionOfUnrouted rejection => simp [kind] at rejection

theorem Taken.resting {o o' : Order} {e : BrokerExecutionEvent} {verdict : Verdict}
    (h : Taken o e verdict o') (before : o.status = .partiallyFilled → o.timeInForce ≠ .ioc)
    (status : o'.status = .partiallyFilled) : o'.timeInForce ≠ .ioc := by
  cases h with
  | ignored => exact before status
  | released becomes => cases becomes <;> simp [Order.moved] at status
  | filled isFill working book conclude =>
    obtain ⟨-, rfl⟩ := Order.bookFill_ok book
    cases conclude with
    | filled | ioc => simp [Order.moved] at status
    | first _ resting => exact resting
    | further _ resting => exact resting

section Steps

variable {db db' : Db} {work before after : List Activity} {a : Activity}
  {queue rest : List BrokerExecutionEvent} {event : BrokerExecutionEvent}

theorem Activity.advance_revokes (draw : BrokerDraw) {k : UUID} (revokes : a.revokes k = true) :
    (∃ b ∈ (a.advance draw).2, b.revokes k = true) ∨
      ∃ e ∈ (a.advance draw).1, e.revokes k = true := by
  cases a with
  | submitOrder | simulateOrder | finishOrder => cases revokes
  | cancelOrder orderId reason => exact Or.inl ⟨_, List.mem_singleton_self _, revokes⟩
  | simulateCancellation orderId reason =>
    refine Or.inr ⟨_, List.mem_singleton_self _, ?_⟩
    simpa [BrokerExecutionEvent.revokes, cancelledEvent, Activity.revokes] using revokes

theorem Awaiting.advance (h : Awaiting db (before ++ a :: after) queue) (draw : BrokerDraw) :
    Awaiting db (before ++ after ++ (a.advance draw).2) (queue ++ (a.advance draw).1) := by
  refine ⟨fun k o found status => ?_, fun k o found status => ?_, h.requested, h.resting⟩
  · rcases h.routed k o found status with queued | ⟨b, positive, price, works⟩
    · exact Or.inl (by simp [List.filter_append, queued])
    · have outs : (a.advance draw).2.filter (·.executes k) =
          if a.executes k then (a.advance draw).2 else [] :=
        filter_of_forall fun c mem => ((a.advance_orders draw k).1 c mem).1
      have emits : (a.advance draw).1.filter (·.executes k) =
          if a.executes k then (a.advance draw).1 else [] :=
        filter_of_forall fun e mem => ((a.advance_orders draw k).2 e mem).1
      rw [List.filter_append] at works
      simp only [List.filter_append, outs, emits]
      cases mine : a.executes k with
      | false =>
        rw [List.filter_cons_of_neg (by simp [mine])] at works
        exact Or.inr ⟨b, positive, price, by simpa using works⟩
      | true =>
        rw [List.filter_cons_of_pos mine] at works
        rcases works with works | works
        · obtain ⟨earlier, rfl, later⟩ := singleton_of_append works
          exact Or.inr ⟨b, positive, price, Or.inr (by simp [earlier, later, Activity.advance])⟩
        · obtain ⟨-, rfl, -⟩ := singleton_of_append works
          refine Or.inl fun none_ => simulateOrder_emits draw positive price ?_
          simpa [Activity.advance] using (List.append_eq_nil_iff.1 none_).2
  · rcases h.revoked k o found status with ⟨b, mem, revokes⟩ | ⟨e, mem, revokes⟩
    · rcases List.mem_append.1 mem with old | old
      · exact Or.inl ⟨b, by simp [old], revokes⟩
      · rcases List.mem_cons.1 old with rfl | old
        · rcases b.advance_revokes draw revokes with ⟨c, made, again⟩ | ⟨e, made, again⟩
          · exact Or.inl ⟨c, by simp [made], again⟩
          · exact Or.inr ⟨e, by simp [made], again⟩
        · exact Or.inl ⟨b, by simp [old], revokes⟩
    · exact Or.inr ⟨e, by simp [mem], revokes⟩

theorem Awaiting.placed (h : Awaiting db work queue) {o : Order} {activities : List Activity}
    (orders : db'.orders = db.orders.put o) (unasked : ∀ k, Unasked db db' k)
    (rests : o.status ≠ .partiallyFilled)
    (own : ∀ b ∈ activities, ∀ k, b.executes k = decide (o.id = k))
    (waits : o.status = .routed → ∃ b, 0 < b.remainingQuantity ∧ 0 < b.price ∧
      activities = [.submitOrder b]) (unplaced : work.filter (·.executes o.id) = []) :
    Awaiting db' (work ++ activities) queue := by
  have others : ∀ {k}, o.id ≠ k → db'.orders.find k = db.orders.find k := fun ne => by
    rw [orders, Table.find_put_of_ne ne]
  have mine : ∀ k, activities.filter (·.executes k) = if o.id = k then activities else [] :=
    fun k => by simpa using filter_of_forall fun b mem => own b mem k
  refine ⟨fun k p found status => ?_, fun k p found status => ?_, fun k requested => ?_,
    fun k p found status => ?_⟩
  · rw [List.filter_append, mine]
    by_cases key : o.id = k
    · rw [orders, Table.find_put_of_eq key, Option.some_inj] at found
      subst found key
      obtain ⟨b, positive, price, rfl⟩ := waits status
      exact Or.inr ⟨b, positive, price, Or.inl (by simp [unplaced])⟩
    · rw [others key] at found
      simpa [key] using h.routed k p found status
  · obtain ⟨q, was, pending⟩ := (unasked k).pending p found status
    refine (h.revoked k q was pending).imp_left ?_
    rintro ⟨b, mem, revokes⟩
    exact ⟨b, by simp [mem], revokes⟩
  · rw [(unasked k).records] at requested
    obtain ⟨q, was, status⟩ := h.requested k requested
    exact (unasked k).stays q was status
  · by_cases key : o.id = k
    · rw [orders, Table.find_put_of_eq key, Option.some_inj] at found
      exact absurd (found ▸ status) rests
    · exact h.resting k p (others key ▸ found) status

theorem Awaiting.asked (h : Awaiting db work queue) {o : Order} {k : UUID} {reason : String}
    (found : db.orders.find k = some o)
    (orders : db'.orders = db.orders.put (o.moved .cancelPending))
    (records : ∀ l, l ≠ k → db'.cancelRequests l = db.cancelRequests l) :
    Awaiting db' (work ++ [.cancelOrder k reason]) queue := by
  have key : (o.moved .cancelPending).id = k := Table.find_key (r := o) found
  have own : db'.orders.find k = some (o.moved .cancelPending) := by
    rw [orders, Table.find_put_of_eq key]
  have others : ∀ {l}, l ≠ k → db'.orders.find l = db.orders.find l := fun ne => by
    rw [orders, Table.find_put_of_ne (key.trans_ne ne.symm)]
  have told : ∀ l, (work ++ [Activity.cancelOrder k reason]).filter (·.executes l) =
      work.filter (·.executes l) := fun l => by simp [List.filter_append, Activity.executes]
  refine ⟨fun l p was status => ?_, fun l p was status => ?_, fun l requested => ?_,
    fun l p was status => ?_⟩ <;> by_cases same : l = k
  · subst same
    rw [own, Option.some_inj] at was
    subst was
    simp [Order.moved] at status
  · rw [told]
    exact h.routed l p (others same ▸ was) status
  · exact Or.inl ⟨.cancelOrder k reason, by simp, by simp [Activity.revokes, same]⟩
  · refine (h.revoked l p (others same ▸ was) status).imp_left ?_
    rintro ⟨b, mem, revokes⟩
    exact ⟨b, by simp [mem], revokes⟩
  · exact ⟨_, same ▸ own, by simp [Order.moved, uncancellableStatuses]⟩
  · rw [records l same] at requested
    obtain ⟨p, was, status⟩ := h.requested l requested
    exact ⟨p, (others same).trans was, status⟩
  · subst same
    rw [own, Option.some_inj] at was
    subst was
    simp [Order.moved] at status
  · exact h.resting l p (others same ▸ was) status

theorem Awaiting.delivered (h : Awaiting db work (event :: rest))
    (phased : Phased db work (event :: rest)) {o o' : Order} {verdict : Verdict}
    (d : Delivery db event db' o verdict o') : Awaiting db' work rest := by
  have shorter : ∀ k, event.executes k = false →
      (event :: rest).filter (·.executes k) = rest.filter (·.executes k) := fun k other =>
    List.filter_cons_of_neg (by simp [other])
  refine ⟨fun k p found status => ?_, fun k p found status => ?_, fun k requested => ?_,
    fun k p found status => ?_⟩
  · by_cases mine : k = event.orderId
    · subst mine
      rw [d.left, Option.some_inj] at found
      subst found
      by_cases kind : event.eventType = .cancelled
      · exact absurd status (d.taken.unrouted kind)
      · have phase := phased.phase _ o d.found
        rw [List.filter_cons_of_pos (by simp [BrokerExecutionEvent.executes, kind])] at phase
        exact absurd status (phase.unrouted kind d.taken)
    · rw [d.others k mine] at found
      rw [← shorter k (by simp [BrokerExecutionEvent.executes, Ne.symm mine])]
      exact h.routed k p found status
  · obtain ⟨q, was, pending⟩ := (d.unasked k).pending p found status
    refine (h.revoked k q was pending).imp_right ?_
    rintro ⟨e, mem, revokes⟩
    rcases List.mem_cons.1 mem with rfl | later
    · obtain ⟨key, kind⟩ : e.orderId = k ∧ e.eventType = .cancelled := by
        simpa [BrokerExecutionEvent.revokes] using revokes
      subst key
      rw [d.left, Option.some_inj] at found
      exact absurd (found ▸ status) (d.taken.not_pending kind)
    · exact ⟨e, later, revokes⟩
  · rw [(d.unasked k).records] at requested
    obtain ⟨q, was, status⟩ := h.requested k requested
    exact (d.unasked k).stays q was status
  · by_cases mine : k = event.orderId
    · subst mine
      rw [d.left, Option.some_inj] at found
      subst found
      exact d.taken.resting (h.resting _ o d.found) status
    · exact h.resting k p (d.others k mine ▸ found) status

end Steps

namespace System

variable {settings : Settings} {s : System}

theorem awaiting_step (awaiting : Awaiting s.db s.work s.queue) (h : s.Consistent) (a : Action) :
    Awaiting (s.step settings a).db (s.step settings a).work (s.step settings a).queue := by
  have turned : Turn settings s a (s.step settings a) := turn h.ready.sound a
  generalize s.step settings a = t at turned
  cases turned with
  | idle => exact awaiting
  | refused t inserted =>
    have unasked : ∀ k, Unasked s.db (s.db.booked .exact t.rejected t.account none
        [t.created, t.rejection]) k := fun k =>
      .placed (t.rejected.stored .exact) (t.unplaced inserted) rfl rfl
        (by simp [Placement.created, Placement.rejection]) fun status => by cases status
    have placed : Awaiting _ (s.work ++ []) s.queue :=
      awaiting.placed (o := t.rejected) (by rw [Db.booked_orders, Order.stored_exact]) unasked
        (fun status => by cases status) (fun b mem => by cases mem) (fun status => by cases status)
        (h.phased.unplaced _ (t.unplaced inserted)).1
    rwa [List.append_nil] at placed
  | @placed draw payload t inserted =>
    have unasked : ∀ k, Unasked s.db (s.db.booked .exact t.routed t.charged none
        [t.created, t.validation, t.routing]) k := fun k =>
      .placed (t.routed.stored .exact) (t.unplaced inserted) rfl rfl
        (by simp [Placement.created, Placement.validation, Placement.routing])
        fun status => by cases status
    refine awaiting.placed (o := t.routed) (by rw [Db.booked_orders, Order.stored_exact]) unasked
      (fun status => by cases status) (fun b mem k => ?_)
      (fun _ => ⟨_, payload.quantity_pos, payload.price_pos, rfl⟩)
      (h.phased.unplaced _ (t.unplaced inserted)).1
    obtain rfl := List.mem_singleton.1 mem
    rfl
  | @asked _ orderId reason order overdue found =>
    have key : order.id = orderId := Table.find_key found
    subst key
    refine awaiting.asked found ?_ fun l other => Db.cancelRequests_append rfl ?_
    · change s.db.orders.put ((order.moved .cancelPending).stored .exact) = _
      rw [Order.stored_exact]
    · simpa using fun same => absurd same.symm other
  | advanced work => exact (work ▸ awaiting).advance _
  | delivered queue ran effect =>
    obtain ⟨o, verdict, o', rfl, d⟩ := effect.delivery (h.numbered.unprocessed queue)
    exact (queue ▸ awaiting).delivered (queue ▸ h.phased) d
  | raised queue failure => exact (h.not_raised queue failure).elim

def Moves (s : System) : Action → Prop
  | .advance i _ => i < s.work.length
  | .deliver => s.queue ≠ []
  | .createOrder .. | .requestCancellation .. | .scanExpired _ | .requestExpired => False

instance (s : System) : (a : Action) → Decidable (s.Moves a)
  | .advance i _ => inferInstanceAs (Decidable (i < s.work.length))
  | .deliver => decidable_of_iff (0 < s.queue.length) List.length_pos_iff
  | .createOrder .. | .requestCancellation .. | .scanExpired _ | .requestExpired => .isFalse id

def weight (s : System) : ℕ := (s.work.map Activity.weight).sum + s.queue.length

/-- No order waits for the broker: each is done, or partially filled without a request to
cancel what remains. -/
def Settled (s : System) : Prop :=
  ∀ o ∈ s.db.orders.rows, o.status ∈ terminalOrderStatuses ∨
    o.status = .partiallyFilled ∧ o.timeInForce ≠ .ioc ∧ s.db.cancelRequests o.id = 0

theorem Moves.lighter {a : Action} (h : s.Moves a) : (s.step settings a).weight < s.weight := by
  cases a with
  | createOrder | requestCancellation | scanExpired | requestExpired => exact h.elim
  | advance i draw =>
    have short : i < s.work.length := h
    obtain ⟨before, a, after, work, rest⟩ : ∃ before a after, s.work = before ++ a :: after ∧
        s.advance i draw = { s with
          work := before ++ after ++ (a.advance draw).2
          queue := s.queue ++ (a.advance draw).1 } := by
      refine ⟨s.work.take i, s.work[i], s.work.drop (i + 1), ?_, ?_⟩
      · rw [List.getElem_cons_drop, List.take_append_drop]
      · simp only [System.advance, List.getElem?_eq_getElem short, List.eraseIdx_eq_take_drop_succ]
    change (s.advance i draw).weight < _
    rw [rest]
    have lighter := a.advance_lighter draw
    simp only [weight, work, List.map_append, List.map_cons, List.sum_append, List.sum_cons,
      List.length_append]
    omega
  | deliver =>
    obtain ⟨event, rest, queue⟩ := List.exists_cons_of_ne_nil (show s.queue ≠ [] from h)
    change s.deliver.weight < _
    unfold deliver
    simp only [queue]
    cases (processEvent event).run (postgres .exact) s.db <;> simp [weight, queue]

theorem drained_of_not_moves (none_ : ∀ a, ¬ s.Moves a) (draw : BrokerDraw) : s.Drained := by
  constructor
  · by_contra some_
    exact none_ (.advance 0 draw) (List.length_pos_iff.2 some_)
  · by_contra some_
    exact none_ .deliver some_

theorem Consistent.settled (h : s.Consistent) (awaiting : Awaiting s.db s.work s.queue)
    (drained : s.Drained) : s.Settled := by
  obtain ⟨idle, empty⟩ := drained
  intro o mem
  have found : s.db.orders.find o.id = some o := Table.find_of_mem mem
  obtain ⟨notNew, notValidated⟩ := h.ready.decided o mem
  have notRouted : o.status ≠ .routed := fun status => by
    rcases awaiting.routed o.id o found status with queued | ⟨b, -, -, works⟩
    · simp [empty] at queued
    · simp [idle] at works
  have notPending : o.status ≠ .cancelPending := fun status => by
    rcases awaiting.revoked o.id o found status with ⟨a, mem, -⟩ | ⟨e, mem, -⟩
    · simp [idle] at mem
    · simp [empty] at mem
  cases status : o.status with
  | new => exact absurd status notNew
  | validated => exact absurd status notValidated
  | routed => exact absurd status notRouted
  | cancelPending => exact absurd status notPending
  | filled | rejected | cancelled => exact Or.inl (by decide)
  | partiallyFilled =>
    refine Or.inr ⟨rfl, awaiting.resting o.id o found status, ?_⟩
    by_contra requested
    obtain ⟨p, there, uncancellable⟩ := awaiting.requested o.id requested
    obtain rfl := Option.some.inj (found.symm.trans there)
    simp [status, uncancellableStatuses] at uncancellable

end System

section Claim

variable {settings : Settings} {opened : Db}

theorem run_awaiting (fresh : opened.Fresh .exact) (unlogged : opened.orderEvents = [])
    {actions : List Action}
    (draws : Along (System.step settings) System.Draws { db := opened } actions) :
    let s := run (System.step settings) { db := opened } actions
    s.Consistent ∧ Awaiting s.db s.work s.queue := by
  refine run_invariant_along (fun s : System => s.Consistent ∧ Awaiting s.db s.work s.queue)
    (fun _ a h drawn => ⟨h.1.step drawn, System.awaiting_step h.2 h.1 a⟩)
    ⟨fresh.consistent, ?_⟩ draws
  have none_ : ∀ k, opened.orders.find k = none := fun k =>
    Table.find_eq_none_iff.2 (by simp [fresh.orders])
  exact ⟨fun k o found => by simp [none_] at found, fun k o found => by simp [none_] at found,
    fun k requested => by simp [Db.cancelRequests, unlogged] at requested,
    fun k o found => by simp [none_] at found⟩

/-- Whenever the broker has nothing left to do, no order waits for it. -/
theorem drained_settled (fresh : opened.Fresh .exact) (unlogged : opened.orderEvents = [])
    (actions : List Action)
    (draws : Along (System.step settings) System.Draws { db := opened } actions) :
    let s := run (System.step settings) { db := opened } actions
    s.Drained → s.Settled := by
  intro s drained
  obtain ⟨consistent, awaiting⟩ := run_awaiting fresh unlogged draws
  exact consistent.settled awaiting drained

/-- Left alone, the system makes a bounded number of moves, whatever their order and whatever
the broker draws, and they end with every order settled. -/
theorem leftAlone_settles (fresh : opened.Fresh .exact) (unlogged : opened.orderEvents = [])
    (actions moves : List Action)
    (draws : Along (System.step settings) System.Draws { db := opened } (actions ++ moves)) :
    let s := run (System.step settings) { db := opened } actions
    let t := run (System.step settings) s moves
    Along (System.step settings) System.Moves s moves →
      moves.length ≤ s.weight ∧ ((∀ a, ¬ t.Moves a) → t.Drained ∧ t.Settled) := by
  intro s t effective
  refine ⟨length_le_of_falls System.weight (fun _ _ moves => moves.lighter) effective,
    fun ended => ?_⟩
  have reached : t = run (System.step settings) { db := opened } (actions ++ moves) :=
    (run_append ..).symm
  obtain ⟨consistent, awaiting⟩ := run_awaiting fresh unlogged draws
  have drained : t.Drained := System.drained_of_not_moves ended
    ⟨.rejected, false, 0, 0, 0⟩
  rw [reached] at drained ⊢
  exact ⟨drained, consistent.settled awaiting drained⟩

end Claim

theorem drained_settled_lateFill :
    (run (System.step {}) { db := traderDb .exact } lateActions).Settled :=
  drained_settled (openAccounts_fresh .exact _) rfl lateActions lateActions_drawn
    lateActions_drained

/-- The four moves that are left of the order filled in two parts. -/
theorem leftAlone_settles_twoFills :
    let s := run (System.step {}) { db := traderDb .exact } (fillingActions.take 2)
    s.weight = 4 ∧ (fillingActions.drop 2).length ≤ s.weight ∧
      (run (System.step {}) s (fillingActions.drop 2)).Settled := by
  intro s
  have effective : Along (System.step {}) System.Moves s (fillingActions.drop 2) := by
    decide +kernel
  have draws : Along (System.step {}) System.Draws { db := traderDb .exact }
      (fillingActions.take 2 ++ fillingActions.drop 2) := by
    decide +kernel
  obtain ⟨bound, ends⟩ :=
    leftAlone_settles (openAccounts_fresh .exact _) rfl (fillingActions.take 2)
    (fillingActions.drop 2) draws effective
  have weight : s.weight = 4 := by decide +kernel
  have work : (run (System.step {}) s (fillingActions.drop 2)).work.length = 0 := by decide +kernel
  have queue : (run (System.step {}) s (fillingActions.drop 2)).queue.length = 0 := by
    decide +kernel
  refine ⟨weight, bound, (ends fun a moves => ?_).2⟩
  cases a with
  | createOrder | requestCancellation | scanExpired | requestExpired => exact moves
  | advance i draw => exact absurd (work ▸ moves : i < 0) (Nat.not_lt_zero i)
  | deliver => exact moves (List.length_eq_zero_iff.1 queue)

end OrderManagement
