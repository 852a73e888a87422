import OrderManagement.ExecutionAgreement

/-! How much the broker executes. Each order is handed to it once, and its tasks share out what
was handed over; a cancellation only makes the service ignore some of it. -/

namespace OrderManagement

open Program TransitionRuns

def Activity.mayExecute (k : UUID) : Activity → ℚ
  | submitOrder b | simulateOrder b => if b.orderId = k then b.remainingQuantity else 0
  | finishOrder b remaining => if b.orderId = k then remaining else 0
  | cancelOrder _ _ | simulateCancellation _ _ => 0

def Activity.Open : Activity → Prop
  | submitOrder b | simulateOrder b => 0 < b.remainingQuantity
  | finishOrder _ remaining => 0 < remaining
  | cancelOrder _ _ | simulateCancellation _ _ => True

def inFlight (k : UUID) (work : List Activity) : ℚ := (work.map (Activity.mayExecute k)).sum

section Coroutines

variable {k : UUID} {draw : BrokerDraw} {a : Activity}

theorem Activity.Open.nonneg (h : a.Open) : 0 ≤ a.mayExecute k := by
  cases a with
  | cancelOrder | simulateCancellation => exact le_refl 0
  | submitOrder b | simulateOrder b | finishOrder b remaining =>
    dsimp only [mayExecute]
    split_ifs
    · exact le_of_lt h
    · exact le_refl 0

theorem inFlight_nonneg {work : List Activity} (h : ∀ a ∈ work, a.Open) : 0 ≤ inFlight k work := by
  refine List.sum_nonneg fun x mem => ?_
  obtain ⟨a, there, rfl⟩ := List.mem_map.1 mem
  exact (h a there).nonneg

theorem FillOf.filledFor {kind : BrokerEventType} {b : BrokerOrder} {quantity : ℚ}
    {e : BrokerExecutionEvent} (h : FillOf draw kind b quantity e) (isFill : kind.isFill = true) :
    filledFor k [e] = if b.orderId = k then quantity else 0 := by
  rw [filledFor_single, h.orderId, h.eventType, h.filledQuantity]
  simp [isFill]

theorem Activity.advance_executes (h : a.Open) :
    (∀ b ∈ (a.advance draw).2, b.Open) ∧
      filledFor k (a.advance draw).1 + inFlight k (a.advance draw).2 ≤ a.mayExecute k := by
  cases a with
  | submitOrder b =>
    exact ⟨by simpa [advance, Open] using h, by simp [advance, inFlight, mayExecute]⟩
  | cancelOrder => simp [advance, inFlight, mayExecute, Open]
  | simulateCancellation orderId reason =>
    simp [advance, inFlight, mayExecute, filledFor_single, cancelledEvent, BrokerEventType.isFill]
  | finishOrder b remaining =>
    have nonneg := h.nonneg (k := k)
    cases built : fillEvent? draw .fullFill b remaining with
    | none => simpa [advance, built, inFlight] using nonneg
    | some e => simp [advance, built, inFlight, (fillEvent?_some built).filledFor rfl, mayExecute]
  | simulateOrder b =>
    have nonneg := h.nonneg (k := k)
    have positive : 0 < b.remainingQuantity := h
    have simulated := simulateOrder_simulated draw b
    change (∀ c ∈ (OrderManagement.simulateOrder draw b).2, c.Open) ∧
      filledFor k (OrderManagement.simulateOrder draw b).1 +
        inFlight k (OrderManagement.simulateOrder draw b).2 ≤ _
    generalize OrderManagement.simulateOrder draw b = c at simulated
    cases simulated with
    | failed => simpa [inFlight] using nonneg
    | rejected =>
      simpa [inFlight, filledFor_single, rejectedEvent, BrokerEventType.isFill] using nonneg
    | full fill => simp [inFlight, fill.filledFor rfl, mayExecute]
    | @part e ratio fill =>
      have share := (partialQuantity_bounds ratio positive).2
      refine ⟨by simp, ?_⟩
      rw [fill.filledFor rfl, inFlight, List.map_nil, List.sum_nil, add_zero, mayExecute]
      split_ifs
      · exact share
      · exact le_refl 0
    | parts fill _ more =>
      refine ⟨by simpa [Open] using more, ?_⟩
      rw [fill.filledFor rfl, fill.filledQuantity]
      by_cases mine : b.orderId = k <;> simp [inFlight, mayExecute, mine]

end Coroutines

theorem Taken.frozen {o o' : Order} {e : BrokerExecutionEvent} {verdict : Verdict}
    (h : Taken o e verdict o') : o.Frozen o' := by
  cases h with
  | ignored => exact .refl o
  | filled isFill working book conclude => exact (Order.bookFill_frozen book).trans conclude.frozen
  | released becomes => exact becomes.frozen

namespace System

variable {settings : Settings} {s : System}

/-- The executions of an order and those still to come are covered by its quantity. -/
structure Covered (s : System) : Prop where
  positive : ∀ a ∈ s.work, a.Open
  covered : ∀ k, filledFor k s.emitted + inFlight k s.work ≤
    (s.db.orders.find k).elim 0 Order.quantity

theorem Covered.advanced (h : s.Covered) {before after : List Activity} {a : Activity}
    (work : s.work = before ++ a :: after) (draw : BrokerDraw) : Covered { s with
      work := before ++ after ++ (a.advance draw).2
      queue := s.queue ++ (a.advance draw).1 } := by
  have isOpen : a.Open := h.positive a (by simp [work])
  refine ⟨fun b mem => ?_, fun k => ?_⟩
  · rcases List.mem_append.1 mem with old | new
    · exact h.positive b (by simp only [work, List.mem_append, List.mem_cons] at old ⊢; tauto)
    · exact (a.advance_executes (k := 0) isOpen).1 b new
  · have covered := h.covered k
    have share : filledFor k (a.advance draw).1 + inFlight k (a.advance draw).2 ≤ a.mayExecute k :=
      (a.advance_executes isOpen).2
    have emitted : emitted { s with
        work := before ++ after ++ (a.advance draw).2
        queue := s.queue ++ (a.advance draw).1 } = s.emitted ++ (a.advance draw).1 :=
      (List.append_assoc ..).symm
    rw [emitted, filledFor_append]
    simp only [work, inFlight, List.map_append, List.map_cons, List.sum_append,
      List.sum_cons] at covered share ⊢
    linarith

theorem Covered.put (h : s.Covered) {t : System} (o : Order)
    (orders : t.db.orders = s.db.orders.put o)
    (emitted : t.emitted = s.emitted) {more : List Activity} (work : t.work = s.work ++ more)
    (positive : ∀ a ∈ more, a.Open)
    (covered : ∀ k, inFlight k more ≤ if o.id = k then
      o.quantity - (s.db.orders.find o.id).elim 0 Order.quantity else 0) : t.Covered := by
  refine ⟨fun a mem => ?_, fun k => ?_⟩
  · rw [work] at mem
    exact (List.mem_append.1 mem).elim (h.positive a) (positive a)
  · have before := h.covered k
    have extra := covered k
    rw [emitted, work, orders]
    unfold inFlight at before extra ⊢
    rw [List.map_append, List.sum_append]
    by_cases key : o.id = k
    · subst key
      rw [Table.find_put_of_eq rfl, Option.elim_some]
      rw [if_pos rfl] at extra
      linarith
    · rw [Table.find_put_of_ne key]
      rw [if_neg key] at extra
      linarith

theorem Covered.step (covered : s.Covered) (h : s.Consistent) (a : Action) :
    (s.step settings a).Covered := by
  have turned : Turn settings s a (s.step settings a) := turn h.ready.sound a
  generalize s.step settings a = t at turned
  cases turned with
  | idle => exact ⟨covered.positive, covered.covered⟩
  | @refused draw payload t inserted =>
    have absent : s.db.orders.find t.rejected.id = none := t.unplaced inserted
    refine covered.put t.rejected (by simp) rfl (List.append_nil _).symm (by simp) fun k => ?_
    rw [absent, Option.elim_none, sub_zero]
    split_ifs
    · exact payload.quantity_pos.le
    · exact le_refl 0
  | @placed draw payload t inserted =>
    have absent : s.db.orders.find t.routed.id = none := t.unplaced inserted
    refine covered.put t.routed (by simp) rfl rfl ?_ fun k => ?_
    · intro b mem
      obtain rfl := List.mem_singleton.1 mem
      exact payload.quantity_pos
    · rw [absent, Option.elim_none, sub_zero]
      simp only [inFlight, List.map_cons, List.map_nil, List.sum_cons, List.sum_nil, add_zero]
      exact le_refl _
  | @asked _ orderId reason order overdue found =>
    have key : (order.moved .cancelPending).id = orderId := Table.find_key (r := order) found
    refine covered.put (order.moved .cancelPending) ?_ rfl rfl (by simp [Activity.Open]) fun k => ?_
    · change s.db.orders.put ((order.moved .cancelPending).stored .exact) = _
      rw [Order.stored_exact]
    · rw [key, found]
      simp [inFlight, Activity.mayExecute, Order.moved]
  | advanced work => exact covered.advanced work _
  | @delivered event rest applied db' queue ran effect =>
    obtain ⟨o, verdict, o', rfl, d⟩ := effect.delivery (h.numbered.unprocessed queue)
    refine ⟨covered.positive, fun k => ?_⟩
    have emitted : emitted { s with
        db := db', queue := rest, delivered := s.delivered ++ [(event, some verdict.1)] } =
        s.emitted := by
      rw [emitted_cons queue]
      simp [emitted]
    rw [emitted]
    by_cases mine : k = event.orderId
    · have before := covered.covered k
      subst mine
      rw [d.found, Option.elim_some, ← d.taken.frozen.quantity] at before
      rwa [d.left, Option.elim_some]
    · rw [d.others k mine]
      exact covered.covered k
  | raised queue failure => exact (h.not_raised queue failure).elim

end System

section Claim

variable {settings : Settings} {opened : Db}

theorem run_covered (fresh : opened.Fresh .exact) {actions : List Action}
    (draws : Along (System.step settings) System.Draws { db := opened } actions) :
    (run (System.step settings) { db := opened } actions).Covered := by
  refine (run_invariant_along (fun s => System.Consistent s ∧ s.Covered)
    (fun _ a h drawn => ⟨h.1.step drawn, h.2.step h.1 a⟩) ⟨fresh.consistent, by simp, fun k => ?_⟩
    draws).2
  have none_ : opened.orders.find k = none := Table.find_eq_none_iff.2 (by simp [fresh.orders])
  simp [none_, System.emitted, inFlight]

/-- The broker never executes more of an order than its quantity, and what the service has
ignored or not yet seen of it is part of what is cancelled or remains. -/
theorem executions_bounded (fresh : opened.Fresh .exact) (actions : List Action)
    (draws : Along (System.step settings) System.Draws { db := opened } actions) :
    let s := run (System.step settings) { db := opened } actions
    ∀ k order, s.db.orders.find k = some order →
      filledFor k s.emitted + inFlight k s.work ≤ order.quantity ∧
      filledFor k (s.answered false) + filledFor k s.queue + inFlight k s.work ≤
        order.cancelledQuantity + order.remainingQuantity := by
  intro s k order found
  have h : s.Consistent := run_consistent fresh draws
  have covered : s.Covered := run_covered fresh draws
  have filled : s.Booked := run_booked fresh draws
  have total := covered.covered k
  have booked := filled k
  rw [found, Option.elim_some] at total booked
  refine ⟨total, ?_⟩
  have all : ∀ d ∈ s.delivered, ∃ applied, d.2 = some applied := fun d mem => by
    obtain ⟨verdict, answered, -⟩ := h.answered d mem
    exact ⟨verdict.1, answered⟩
  have parts : filledFor k s.emitted = filledFor k (s.answered true) +
      filledFor k (s.answered false) + filledFor k s.queue := by
    rw [System.emitted, filledFor_append, filledFor_answers all]
    rfl
  obtain ⟨-, -, -, -, -, -, -, -, -, sum⟩ := Order.violation_eq_none_iff.1
    (h.ready.sound.orders order (Table.mem_of_find found)).2
  linarith

end Claim

/-- All of the order is executed after its cancellation: as much as is cancelled. -/
theorem executions_bounded_lateFill :
    let s := run (System.step {}) { db := traderDb .exact } lateActions
    ∃ order, s.db.orders.find 2 = some order ∧ filledFor 2 s.emitted = 10 ∧
      filledFor 2 s.emitted + inFlight 2 s.work ≤ order.quantity := by
  intro s
  have there : (s.db.orders.find 2).isSome := by decide +kernel
  obtain ⟨order, found⟩ := Option.isSome_iff_exists.1 there
  exact ⟨order, found, by decide +kernel,
    (executions_bounded (openAccounts_fresh .exact _) lateActions
    lateActions_drawn 2 order found).1⟩

end OrderManagement
