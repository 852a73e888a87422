import OrderManagement.ClosedRuns

/-! What the broker has executed and what the service has booked. They differ by the fills that
come after a cancellation has been applied, which the service ignores. -/

namespace OrderManagement

open Program TransitionRuns

def filledFor (k : UUID) (events : List BrokerExecutionEvent) : ℚ :=
  ((events.filter fun e => e.orderId = k ∧ e.eventType.isFill = true).map
    BrokerExecutionEvent.filledQuantity).sum

namespace System

def answered (s : System) (applied : Bool) : List BrokerExecutionEvent :=
  (s.delivered.filter fun d => d.2 = some applied).map Prod.fst

/-- All tasks of the broker have ended, and its queue is empty. -/
def Drained (s : System) : Prop := s.work = [] ∧ s.queue = []

/-- Orders have been filled by what has been applied to them. -/
def Booked (s : System) : Prop :=
  ∀ k, (s.db.orders.find k).elim 0 Order.filledQuantity = filledFor k (s.answered true)

end System

section Fills

variable {k : UUID} {events more : List BrokerExecutionEvent} {e : BrokerExecutionEvent}

@[simp] theorem filledFor_nil : filledFor k [] = 0 := rfl

theorem filledFor_append :
    filledFor k (events ++ more) = filledFor k events + filledFor k more := by
  simp [filledFor, List.filter_append]

theorem filledFor_single : filledFor k [e] =
    if e.orderId = k ∧ e.eventType.isFill = true then e.filledQuantity else 0 := by
  by_cases own : e.orderId = k ∧ e.eventType.isFill = true <;> simp [filledFor, own]

theorem filledFor_cons : filledFor k (e :: events) =
    (if e.orderId = k ∧ e.eventType.isFill = true then e.filledQuantity else 0) +
      filledFor k events := by
  rw [← List.singleton_append, filledFor_append, filledFor_single]

theorem filledFor_nonneg : 0 ≤ filledFor k events := by
  refine List.sum_nonneg fun q mem => ?_
  obtain ⟨e, kept, rfl⟩ := List.mem_map.1 mem
  have own := (List.mem_filter.1 kept).2
  simp only [decide_eq_true_eq] at own
  exact (e.validateFillPayload own.2).1.le

theorem filledFor_eq_zero_iff :
    filledFor k events = 0 ↔ ∀ e ∈ events, e.orderId = k → e.eventType.isFill = false := by
  induction events with
  | nil => simp
  | cons e events ih =>
    rw [filledFor_cons, List.forall_mem_cons, ← ih]
    by_cases own : e.orderId = k ∧ e.eventType.isFill = true
    · have positive := (e.validateFillPayload own.2).1
      have others : 0 ≤ filledFor k events := filledFor_nonneg
      rw [if_pos own]
      constructor
      · intro none_
        linarith
      · rintro ⟨first, -⟩
        simp [own] at first
    · have first : e.orderId = k → e.eventType.isFill = false := fun key => by simpa [key] using own
      rw [if_neg own, zero_add]
      exact ⟨fun rest => ⟨first, rest⟩, fun both => both.2⟩

theorem filledFor_answers {answers : List (BrokerExecutionEvent × Option Bool)}
    (all : ∀ d ∈ answers, ∃ applied, d.2 = some applied) : filledFor k (answers.map Prod.fst) =
      filledFor k ((answers.filter fun d => d.2 = some true).map Prod.fst) +
        filledFor k ((answers.filter fun d => d.2 = some false).map Prod.fst) := by
  induction answers with
  | nil => simp
  | cons d answers ih =>
    obtain ⟨first, others⟩ := List.forall_mem_cons.1 all
    obtain ⟨applied, answered⟩ := first
    have rest := ih others
    cases applied <;> simp [answered, filledFor_cons, rest] <;> ring

theorem Taken.filledQuantity {o o' : Order} {verdict : Verdict} (h : Taken o e verdict o') :
    o'.filledQuantity = o.filledQuantity +
      if verdict.1 = true ∧ e.eventType.isFill = true then e.filledQuantity else 0 := by
  cases h with
  | ignored => simp
  | filled isFill working book conclude =>
    obtain ⟨-, rfl⟩ := Order.bookFill_ok book
    simp [conclude.filledQuantity, isFill]
  | released becomes =>
    cases becomes with
    | rejected kind => simp [Order.moved, kind, BrokerEventType.isFill]
    | cancelled kind => simp [Order.moved, Order.cancelRest, kind, BrokerEventType.isFill]

end Fills

namespace System

variable {settings : Settings} {s : System}

theorem Booked.step (booked : s.Booked) (h : s.Consistent) (a : Action) :
    (s.step settings a).Booked := by
  have turned : Turn settings s a (s.step settings a) := turn h.ready.sound a
  -- a step that fills nothing writes at most one order row
  have unfilled : ∀ {t : System} (o : Order), t.delivered = s.delivered →
      t.db.orders = s.db.orders.put o →
      o.filledQuantity = (s.db.orders.find o.id).elim 0 Order.filledQuantity → t.Booked := by
    intro t o delivered orders filled k
    rw [answered, delivered, orders]
    by_cases key : o.id = k
    · subst key
      rw [Table.find_put_of_eq rfl, Option.elim_some, filled]
      exact booked o.id
    · rw [Table.find_put_of_ne key]
      exact booked k
  generalize s.step settings a = t at turned
  cases turned with
  | idle | advanced => exact booked
  | refused t inserted =>
    refine unfilled t.rejected rfl (by simp) ?_
    rw [show s.db.orders.find t.rejected.id = none from t.unplaced inserted]
    rfl
  | placed t inserted =>
    refine unfilled t.routed rfl (by simp) ?_
    rw [show s.db.orders.find t.routed.id = none from t.unplaced inserted]
    rfl
  | @asked _ orderId reason order overdue found =>
    have key : (order.moved .cancelPending).id = orderId := Table.find_key (r := order) found
    refine unfilled (order.moved .cancelPending) rfl ?_ ?_
    · change s.db.orders.put ((order.moved .cancelPending).stored .exact) = _
      rw [Order.stored_exact]
    · rw [key, found]
      rfl
  | @delivered event rest applied db' queue ran effect =>
    obtain ⟨o, verdict, o', rfl, d⟩ := effect.delivery (h.numbered.unprocessed queue)
    intro k
    have answers : answered { s with
        db := db', queue := rest, delivered := s.delivered ++ [(event, some verdict.1)] } true =
        s.answered true ++ if verdict.1 = true then [event] else [] := by
      cases verdict.1 <;> simp [answered, List.filter_append]
    rw [answers, filledFor_append, ← booked k]
    by_cases mine : k = event.orderId
    · subst mine
      rw [d.left, d.found, Option.elim_some, Option.elim_some, d.taken.filledQuantity]
      cases verdict.1 <;> simp [filledFor_single]
    · rw [d.others k mine]
      cases verdict.1 <;> simp [filledFor_single, Ne.symm mine]
  | raised queue failure => exact (h.not_raised queue failure).elim

end System

section Claim

variable {settings : Settings} {opened : Db}

theorem run_booked (fresh : opened.Fresh .exact) {actions : List Action}
    (draws : Along (System.step settings) System.Draws { db := opened } actions) :
    (run (System.step settings) { db := opened } actions).Booked := by
  refine (run_invariant_along (fun s => System.Consistent s ∧ s.Booked)
    (fun _ a h drawn => ⟨h.1.step drawn, h.2.step h.1 a⟩) ⟨fresh.consistent, fun k => ?_⟩ draws).2
  have none_ : opened.orders.find k = none := Table.find_eq_none_iff.2 (by simp [fresh.orders])
  simp [none_, System.answered]

/-- Once the broker is done, its executions of an order are those booked and those ignored for
coming after a cancellation that has been requested. -/
theorem executions_agree (fresh : opened.Fresh .exact) (actions : List Action)
    (draws : Along (System.step settings) System.Draws { db := opened } actions) :
    let s := run (System.step settings) { db := opened } actions
    s.Drained → ∀ k order, s.db.orders.find k = some order →
      filledFor k s.emitted = order.filledQuantity + filledFor k (s.answered false) ∧
      (filledFor k s.emitted = order.filledQuantity ↔
        ∀ event ∈ s.answered false, event.orderId = k → event.eventType.isFill = false) ∧
      ∀ event ∈ s.answered false, event.orderId = k → event.eventType.isFill = true →
        s.db.cancelRequests k ≠ 0 ∧
        ∃ row, s.db.processedBrokerEvents.find event.eventId = some row ∧ row.outcome = .ignored ∧
          row.details = [("reason", .text "Order is already CANCELLED")] := by
  rintro s ⟨-, empty⟩ k order found
  have h : s.Consistent := run_consistent fresh draws
  have booked : s.Booked := run_booked fresh draws
  have total : filledFor k s.emitted = order.filledQuantity + filledFor k (s.answered false) := by
    have all : ∀ d ∈ s.delivered, ∃ applied, d.2 = some applied := fun d mem => by
      obtain ⟨verdict, answered, -⟩ := h.answered d mem
      exact ⟨verdict.1, answered⟩
    have mine := booked k
    rw [found, Option.elim_some] at mine
    rw [System.emitted, empty, List.append_nil, filledFor_answers all, mine]
    rfl
  refine ⟨total, ?_, fun event mem key isFill => ?_⟩
  · rw [total, add_eq_left]
    exact filledFor_eq_zero_iff
  · obtain ⟨d, delivered, rfl⟩ := List.mem_map.1 mem
    obtain ⟨old, ignored⟩ := List.mem_filter.1 delivered
    obtain ⟨verdict, answered, answer⟩ := h.answered d old
    have unapplied : verdict.1 = false := by simpa [answered] using ignored
    refine ⟨key ▸ answer.requested unapplied, _, answer.recorded, ?_, ?_⟩
    · simp [processedRow, unapplied]
    · simp [processedRow, answer.reason unapplied isFill]

end Claim

/-! An order is cancelled before the task that fills it goes on. -/

def revokingDraw : BrokerDraw :=
  { partialDraw with outcome := .fullFill, eventId := 65, execution := 66 }

def lateDraw : BrokerDraw :=
  { revokingDraw with eventId := 67, execution := 68 }

def lateActions : List Action :=
  [.createOrder ⟨2, 0⟩ limitBuy, .advance 0 lateDraw, .requestCancellation 2 "Changed my mind",
    .advance 1 revokingDraw, .advance 1 revokingDraw, .deliver, .advance 0 lateDraw, .deliver]

theorem lateActions_drawn :
    Along (System.step {}) System.Draws { db := traderDb .exact } lateActions := by
  decide +kernel

theorem lateActions_drained :
    (run (System.step {}) { db := traderDb .exact } lateActions).Drained :=
  ⟨List.length_eq_zero_iff.1 (by decide +kernel), List.length_eq_zero_iff.1 (by decide +kernel)⟩

theorem not_executionsBooked_lateFill :
    Along (System.step {}) System.Draws { db := traderDb .exact } lateActions ∧
      let s := run (System.step {}) { db := traderDb .exact } lateActions
      s.Drained ∧ ∃ order, s.db.orders.find 2 = some order ∧
        filledFor 2 s.emitted ≠ order.filledQuantity := by
  refine ⟨lateActions_drawn, lateActions_drained, ?_⟩
  have unbooked :
      ((run (System.step {}) { db := traderDb .exact } lateActions).db.orders.find 2).map
      Order.filledQuantity = some 0 := by decide +kernel
  have executed : filledFor 2
      (run (System.step {}) { db := traderDb .exact } lateActions).emitted = 10 := by
    decide +kernel
  obtain ⟨order, found, filled⟩ := Option.map_eq_some_iff.1 unbooked
  exact ⟨order, found, by rw [executed, filled]; norm_num⟩

theorem executions_agree_lateFill :
    let s := run (System.step {}) { db := traderDb .exact } lateActions
    ∃ order, s.db.orders.find 2 = some order ∧ order.status = .cancelled ∧
      filledFor 2 s.emitted = order.filledQuantity + filledFor 2 (s.answered false) := by
  intro s
  have cancelled : (s.db.orders.find 2).map Order.status = some .cancelled := by decide +kernel
  obtain ⟨order, found, status⟩ := Option.map_eq_some_iff.1 cancelled
  exact ⟨order, found, status, (executions_agree (openAccounts_fresh .exact _) lateActions
    lateActions_drawn lateActions_drained 2 order found).1⟩

end OrderManagement
