import OrderManagement.SystemPhases

/-! Runs of the closed system. The broker's events take the orders where their phases expect
them, so that `process_event` returns from every one of them. -/

namespace OrderManagement

open Program TransitionRuns

/-- Two events share neither their id nor an execution id. -/
def BrokerExecutionEvent.Distinct (d e : BrokerExecutionEvent) : Prop :=
  d.eventId ≠ e.eventId ∧ ∀ execution ∈ d.executionId, e.executionId ≠ some execution

/-- What is on record of an event that has been processed. -/
structure Answer (db : Db) (event : BrokerExecutionEvent) (verdict : Verdict) : Prop where
  recorded : db.processedBrokerEvents.find event.eventId = some (processedRow event verdict)
  requested : verdict.1 = false → db.cancelRequests event.orderId ≠ 0
  reason : verdict.1 = false → event.eventType.isFill = true →
    verdict.2 = some "Order is already CANCELLED"

namespace System

variable (s : System)

/-- Records of events and fills are those of delivered events, and no two events are confused. -/
structure Numbered : Prop where
  distinct : s.emitted.Pairwise BrokerExecutionEvent.Distinct
  short : ∀ e ∈ s.queue, ∀ execution ∈ e.executionId, execution.length ≤ 100
  processed : ∀ r ∈ s.db.processedBrokerEvents.rows, ∃ e ∈ s.delivered.map Prod.fst,
    e.eventId = r.brokerEventId
  fills : ∀ f ∈ s.db.fills.rows, ∃ e ∈ s.delivered.map Prod.fst, e.executionId = some f.executionId

def Answered : Prop := ∀ d ∈ s.delivered, ∃ verdict, d.2 = some verdict.1 ∧ Answer s.db d.1 verdict

structure Consistent : Prop where
  ready : s.db.Ready
  phased : Phased s.db s.work s.queue
  numbered : s.Numbered
  answered : s.Answered

end System

theorem Answer.later {db db' : Db} {event : BrokerExecutionEvent} {verdict : Verdict}
    (h : Answer db event verdict)
    (recorded : db'.processedBrokerEvents.find event.eventId =
      db.processedBrokerEvents.find event.eventId)
    (requests : db.cancelRequests event.orderId ≤ db'.cancelRequests event.orderId) :
    Answer db' event verdict :=
  ⟨recorded.trans h.recorded,
    fun ignored => (Nat.pos_of_ne_zero (h.requested ignored) |>.trans_le requests).ne', h.reason⟩

section Next

variable {asked : Prop} {o : Order} {work : List Activity} {queue : List BrokerExecutionEvent}
  {e : BrokerExecutionEvent}

theorem OrderPhase.next_price (h : OrderPhase asked o work (e :: queue))
    (isFill : e.eventType.isFill = true)
    (working : o.status ∈ workingStatuses) : e.fillPrice = some o.price := by
  cases h with
  | cancelled status => simp [status, workingStatuses] at working
  | rejecting kind => simp [kind, BrokerEventType.isFill] at isFill
  | part _ _ price => exact price
  | rest tail =>
    cases tail with
    | queued _ _ price => exact price

theorem OrderPhase.next_reason (h : OrderPhase asked o work (e :: queue))
    (kind : e.eventType = .rejected)
    (routed : o.status = .routed) : e.reason = some "Rejected by simulated broker" := by
  cases h with
  | cancelled status => simp [status] at routed
  | rejecting _ reason => exact reason
  | part full => simp [kind] at full
  | rest tail =>
    cases tail with
    | queued full => simp [kind] at full

end Next

namespace System

variable {settings : Settings} {s : System} {event : BrokerExecutionEvent}
  {rest : List BrokerExecutionEvent}

theorem emitted_cons (queue : s.queue = event :: rest) :
    s.emitted = s.delivered.map Prod.fst ++ event :: rest := by
  rw [emitted, queue]

theorem Numbered.apart (h : s.Numbered) (queue : s.queue = event :: rest) :
    ∀ d ∈ s.delivered.map Prod.fst, d.Distinct event := by
  have distinct := h.distinct
  rw [emitted_cons queue, List.pairwise_append] at distinct
  exact fun d mem => distinct.2.2 d mem event (by simp)

theorem Numbered.unprocessed (h : s.Numbered) (queue : s.queue = event :: rest) :
    s.db.processedBrokerEvents.find event.eventId = none := by
  rw [Table.find_eq_none_iff]
  intro r mem same
  obtain ⟨d, delivered, recorded⟩ := h.processed r mem
  exact (h.apart queue d delivered).1 (recorded.trans same)

theorem Numbered.unexecuted (h : s.Numbered) (queue : s.queue = event :: rest) {execution : String}
    (executed : event.executionId = some execution) : s.db.byExecutionId execution = none := by
  refine Table.first_eq_none_iff.2 fun f mem same => ?_
  obtain ⟨d, delivered, recorded⟩ := h.fills f mem
  have same : f.executionId = execution := by simpa using same
  exact (h.apart queue d delivered).2 _ recorded (executed.trans (congrArg some same.symm))

theorem Consistent.admitted (h : s.Consistent) (queue : s.queue = event :: rest) :
    RowsAdmitted s.db event := by
  have phased := queue ▸ h.phased
  have own : ∀ {o}, s.db.orders.find event.orderId = some o → event.eventType ≠ .cancelled →
      OrderPhase (s.db.cancelRequests event.orderId ≠ 0) o
        (s.work.filter (·.executes event.orderId))
        (event :: rest.filter (·.executes event.orderId)) := fun found kind => by
    have phase := phased.phase _ _ found
    rwa [List.filter_cons_of_pos (by simp [BrokerExecutionEvent.executes, kind])] at phase
  constructor
  · intro t account accountFound
    have kind : event.eventType ≠ .cancelled := fun kind => by
      have fill := t.isFill
      simp [kind, BrokerEventType.isFill] at fill
    obtain ⟨-, -, execution, executed, nonempty⟩ := event.validateFillPayload t.isFill
    have written : t.fill.executionId = execution := by
      simp [FillAttempt.fill, newFill, executed, orDefault, nonempty]
    refine ⟨?_, ?_, fun _ => ?_⟩
    · rw [written]
      exact h.numbered.short event (by simp [queue]) execution executed
    · rw [written]
      exact h.numbered.unexecuted queue executed
    · have price := (own t.found kind).next_price t.isFill t.working
      rw [t.priced, Option.some_inj] at price
      obtain ⟨-, checked⟩ := h.ready.sound.accounts account (Table.mem_of_find accountFound)
      obtain ⟨-, -, -, -, covered⟩ := Account.violation_eq_none_iff.1 checked
      rw [price, sub_self, mul_zero]
      exact sub_nonneg.2 covered
  · intro o found _ kind routed
    rw [(own found (by simp [kind])).next_reason kind routed]
    decide

theorem Consistent.not_raised (h : s.Consistent) (queue : s.queue = event :: rest) {f : Failure}
    (failure : EventFailure .exact s.db event f) : False := by
  obtain ⟨o, found⟩ := (queue ▸ h.phased).next_found
  exact (h.admitted queue).not_failed h.ready found failure

/-! Each step keeps the state consistent. -/

theorem create_db (draw : CreateDraw) (payload : OrderCreate) :
    (s.create settings draw payload).db =
    OrderManagement.step (.exact settings id) s.db (.createOrder draw payload) := by
  unfold create
  simp only [OrderManagement.step, committed, Deployment.exact]
  cases (OrderManagement.createOrder settings draw payload).run (postgres .exact) s.db <;> rfl

theorem request_db (settings : Settings) (orderId : UUID) (reason : String) :
    (s.request orderId reason).db =
    OrderManagement.step (.exact settings id) s.db (.requestCancellation orderId reason) := by
  unfold request
  simp only [OrderManagement.step, committed, Deployment.exact]
  cases (OrderManagement.requestCancellation orderId reason).run (postgres .exact) s.db <;> rfl

theorem step_ready (ready : s.db.Ready) (a : Action) : (s.step settings a).db.Ready := by
  cases a with
  | createOrder draw payload =>
    change (s.create settings draw payload).db.Ready
    rw [create_db]
    exact ready.step _
  | requestCancellation orderId reason =>
    change (s.request orderId reason).db.Ready
    rw [request_db settings]
    exact ready.step _
  | scanExpired ids =>
    change (if s.overdue = [] then { s with overdue := ids } else s).db.Ready
    split_ifs <;> exact ready
  | requestExpired =>
    cases overdue : s.overdue with
    | nil =>
      simp only [System.step, overdue]
      exact ready
    | cons orderId rest =>
      simp only [System.step, overdue]
      rw [request_db settings]
      exact ready.step _
  | advance i draw =>
    change (s.advance i draw).db.Ready
    unfold advance
    cases s.work[i]? <;> exact ready
  | deliver =>
    change s.deliver.db.Ready
    unfold deliver
    cases s.queue with
    | nil => exact ready
    | cons event rest =>
      dsimp only
      cases ran : (processEvent event).run (postgres .exact) s.db with
      | error f => exact ready
      | ok result => exact ready.processed ran

theorem Numbered.advanced (h : s.Numbered) {i : ℕ} {draw : BrokerDraw}
    (draws : s.Draws (.advance i draw))
    (work : List Activity) (a : Activity) :
    Numbered { s with work, queue := s.queue ++ (a.advance draw).1 } := by
  rcases a.advance_stamped draw with none_ | ⟨e, one, stamped⟩
  · rw [none_, List.append_nil]
    exact ⟨h.distinct, h.short, h.processed, h.fills⟩
  · rw [one]
    refine ⟨?_, fun d mem => ?_, h.processed, h.fills⟩
    · change (s.delivered.map Prod.fst ++ (s.queue ++ [e])).Pairwise _
      rw [← List.append_assoc, List.pairwise_append]
      refine ⟨h.distinct, List.pairwise_singleton _ e, fun d mem e' last => ?_⟩
      obtain rfl := List.mem_singleton.1 last
      obtain ⟨newId, newExecution⟩ := draws d mem
      refine ⟨stamped.eventId ▸ newId, fun execution executed same => newExecution ?_⟩
      rw [← stamped.executionId execution same]
      exact executed
    · rcases List.mem_append.1 mem with old | new
      · exact h.short d old
      · obtain rfl := List.mem_singleton.1 new
        intro execution executed
        rw [stamped.executionId execution executed, draw.executionId_length]
        decide

theorem Numbered.delivered (h : s.Numbered) (queue : s.queue = event :: rest) {db' : Db}
    {o o' : Order}
    {verdict : Verdict} (d : Delivery s.db event db' o verdict o') : Numbered
      { s with
        db := db'
        queue := rest
        delivered := s.delivered ++ [(event, some verdict.1)] } := by
  have events : (s.delivered ++ [(event, some verdict.1)]).map Prod.fst =
      s.delivered.map Prod.fst ++ [event] := by simp
  refine ⟨?_, fun e mem => h.short e (by simp [queue, mem]), ?_, fun f mem => ?_⟩
  · change ((s.delivered ++ [(event, some verdict.1)]).map Prod.fst ++ rest).Pairwise _
    rw [events, List.append_assoc, List.singleton_append, ← emitted_cons queue]
    exact h.distinct
  · rw [d.row, events]
    refine Table.forall_put ⟨event, by simp, rfl⟩ fun r mem => ?_
    obtain ⟨e, old, same⟩ := h.processed r mem
    exact ⟨e, by simp [old], same⟩
  · rw [events]
    rcases d.fills f mem with old | new
    · obtain ⟨e, before, same⟩ := h.fills f old
      exact ⟨e, by simp [before], same⟩
    · exact ⟨event, by simp, new⟩

theorem Answered.logged (h : s.Answered) {t : System} {es : List OrderEvent}
    (delivered : t.delivered = s.delivered)
    (processed : t.db.processedBrokerEvents = s.db.processedBrokerEvents)
    (events : t.db.orderEvents = s.db.orderEvents ++ es) : t.Answered := by
  intro d mem
  obtain ⟨verdict, answered, answer⟩ := h d (delivered ▸ mem)
  exact ⟨verdict, answered, answer.later (by rw [processed]) (Db.cancelRequests_le events)⟩

/-- An event of the broker's is ignored only after a request to cancel its order. -/
theorem Consistent.answer (h : s.Consistent) (queue : s.queue = event :: rest) {db' : Db}
    {o o' : Order} {verdict : Verdict} (d : Delivery s.db event db' o verdict o') :
    Answer db' event verdict := by
  have phased := queue ▸ h.phased
  have excused : verdict.1 = false → s.db.cancelRequests event.orderId ≠ 0 ∧
      (event.eventType.isFill = true → verdict.2 = some "Order is already CANCELLED") := by
    intro ignored
    by_cases kind : event.eventType = .cancelled
    · refine ⟨(phased.revoking _ (Or.inr ⟨event, by simp, ?_⟩)).1, fun isFill => ?_⟩
      · simp [BrokerExecutionEvent.revokes, kind]
      · simp [kind, BrokerEventType.isFill] at isFill
    · have phase := phased.phase _ o d.found
      rw [List.filter_cons_of_pos (by simp [BrokerExecutionEvent.executes, kind])] at phase
      cases d.taken with
      | filled | released => cases ignored
      | ignored ignores =>
        exact (phase.ignored ignores kind (phased.pending _ o d.found)).imp_right
          fun reason isFill => congrArg some (reason isFill)
  refine ⟨?_, fun ignored => ?_, fun ignored => (excused ignored).2⟩
  · rw [d.row]
    exact Table.find_put_self _ (processedRow event verdict)
  · rw [(d.unasked _).records]
    exact (excused ignored).1

theorem Consistent.delivered (h : s.Consistent) (queue : s.queue = event :: rest) {db' : Db}
    {o o' : Order} {verdict : Verdict} (d : Delivery s.db event db' o verdict o') : Answered
      { s with
        db := db'
        queue := rest
        delivered := s.delivered ++ [(event, some verdict.1)] } := by
  intro e mem
  rcases List.mem_append.1 mem with old | new
  · obtain ⟨before, answered, answer⟩ := h.answered e old
    have other : event.eventId ≠ e.1.eventId :=
      (h.numbered.apart queue e.1 (List.mem_map_of_mem old)).1.symm
    refine ⟨before, answered, answer.later ?_ (d.unasked _).records.ge⟩
    change db'.processedBrokerEvents.find e.1.eventId = _
    rw [d.row]
    exact Table.find_put_of_ne (show (processedRow event verdict).brokerEventId ≠ _ from other)
  · obtain rfl := List.mem_singleton.1 new
    exact ⟨verdict, rfl, h.answer queue d⟩

theorem Consistent.step (h : s.Consistent) {a : Action} (draws : s.Draws a) :
    (s.step settings a).Consistent := by
  have ready : (s.step settings a).db.Ready := step_ready h.ready a
  have turned : Turn settings s a (s.step settings a) := turn h.ready.sound a
  have same : ∀ {t : System}, t.delivered = s.delivered → t.queue = s.queue →
      t.db.processedBrokerEvents = s.db.processedBrokerEvents → t.db.fills = s.db.fills →
      t.Numbered := by
    intro t delivered queue processed fills
    refine ⟨?_, queue ▸ h.numbered.short, ?_, ?_⟩
    · rw [emitted, delivered, queue]
      exact h.numbered.distinct
    · rw [processed, delivered]
      exact h.numbered.processed
    · rw [fills, delivered]
      exact h.numbered.fills
  generalize s.step settings a = t at ready turned
  cases turned with
  | idle overdue =>
    exact ⟨ready, h.phased, same rfl rfl rfl rfl,
      h.answered.logged rfl rfl (List.append_nil _).symm⟩
  | refused t inserted =>
    have unasked : ∀ k, Unasked s.db (s.db.booked .exact t.rejected t.account none
        [t.created, t.rejection]) k := fun k =>
      .placed (t.rejected.stored .exact) (t.unplaced inserted) rfl rfl
        (by simp [Placement.created, Placement.rejection]) fun status => by cases status
    have phased := h.phased.placed (o := t.rejected) (t.unplaced inserted)
      (by rw [Db.booked_orders, Order.stored_exact]) unasked (fun b mem => absurd mem (by simp))
      fun asked => .idle asked _
    rw [List.append_nil] at phased
    exact ⟨ready, phased, same rfl rfl rfl rfl, h.answered.logged rfl rfl rfl⟩
  | @placed draw payload t inserted =>
    have unasked : ∀ k, Unasked s.db (s.db.booked .exact t.routed t.charged none
        [t.created, t.validation, t.routing]) k := fun k =>
      .placed (t.routed.stored .exact) (t.unplaced inserted) rfl rfl
        (by simp [Placement.created, Placement.validation, Placement.routing])
        fun status => by cases status
    refine ⟨ready, ?_, same rfl rfl rfl rfl, h.answered.logged rfl rfl rfl⟩
    refine h.phased.placed (o := t.routed) (t.unplaced inserted)
      (by rw [Db.booked_orders, Order.stored_exact]) unasked (fun b mem k => ?_) fun asked => ?_
    · obtain rfl := List.mem_singleton.1 mem
      exact ⟨rfl, rfl⟩
    · have untouched : t.routed.status ∈ untouchedStatuses := by
        simp [Placement.routed, Order.moved, untouchedStatuses]
      exact .placed ⟨rfl, rfl, rfl⟩ rfl payload.quantity_pos (Or.inl rfl) untouched
  | @asked _ orderId reason order overdue found cancellable =>
    have key : order.id = orderId := Table.find_key found
    subst key
    refine ⟨ready, h.phased.asked found cancellable ?_ rfl ?_, same rfl rfl rfl rfl,
      h.answered.logged rfl rfl rfl⟩
    · change s.db.orders.put ((order.moved .cancelPending).stored .exact) = _
      rw [Order.stored_exact]
    · simp [Db.cancelRequests, Db.logged]
  | advanced work =>
    exact ⟨ready, (work ▸ h.phased).advance _, h.numbered.advanced draws _ _,
      h.answered.logged rfl rfl (List.append_nil _).symm⟩
  | delivered queue ran effect =>
    obtain ⟨o, verdict, o', rfl, d⟩ := effect.delivery (h.numbered.unprocessed queue)
    exact ⟨ready, (queue ▸ h.phased).delivered d, h.numbered.delivered queue d, h.delivered queue d⟩
  | raised queue failure => exact (h.not_raised queue failure).elim

end System

section Claim

variable {settings : Settings} {opened : Db}

theorem Db.Fresh.consistent (fresh : opened.Fresh .exact) : System.Consistent { db := opened } where
  ready := fresh.ready
  phased := by
    have none_ : ∀ k, opened.orders.find k = none := fun k =>
      Table.find_eq_none_iff.2 (by simp [fresh.orders])
    exact ⟨fun k o found => by simp [none_] at found, fun k _ => by simp,
      fun k revokes => by simp at revokes, fun k o found => by simp [none_] at found⟩
  numbered := ⟨.nil, by simp, by simp [fresh.processed], by simp [fresh.fills]⟩
  answered := by simp [System.Answered]

theorem run_consistent (fresh : opened.Fresh .exact) {actions : List Action}
    (draws : Along (System.step settings) System.Draws { db := opened } actions) :
    (run (System.step settings) { db := opened } actions).Consistent :=
  run_invariant_along System.Consistent (fun _ _ h draws => h.step draws) fresh.consistent draws

/-- Every account stays solvent and `process_event` returns from every event, which it applies
if no cancellation of the order has been requested. -/
theorem closedSystem_safe (fresh : opened.Fresh .exact) (actions : List Action)
    (draws : Along (System.step settings) System.Draws { db := opened } actions) :
    let s := run (System.step settings) { db := opened } actions
    (∀ a ∈ s.db.accounts.rows, 0 ≤ a.reservedCash ∧ a.reservedCash ≤ a.cashBalance) ∧
    (∀ d ∈ s.delivered, d.2 ≠ none) ∧
    (∀ event rest, s.queue = event :: rest →
      ∃ answer, (processEvent event).run (postgres .exact) s.db = .ok answer) ∧
    ∀ event ∈ s.emitted, s.db.cancelRequests event.orderId = 0 → event ∈ s.queue ∨
      ∃ row, s.db.processedBrokerEvents.find event.eventId = some row ∧
        row.orderId = event.orderId ∧ row.outcome = .applied := by
  intro s
  have h : s.Consistent := run_consistent fresh draws
  refine ⟨fun a mem => ?_, fun d mem => ?_, fun event rest queue => ?_,
    fun event mem unrequested => ?_⟩
  · obtain ⟨-, -, -, reserved, covered⟩ :=
      Account.violation_eq_none_iff.1 (h.ready.sound.accounts a mem).2
    exact ⟨reserved, covered⟩
  · obtain ⟨verdict, answered, -⟩ := h.answered d mem
    simp [answered]
  · cases ran : (processEvent event).run (postgres .exact) s.db with
    | ok answer => exact ⟨answer, rfl⟩
    | error f => exact (h.not_raised queue (wp_error _ (processEvent_spec h.ready.sound) ran)).elim
  · rcases List.mem_append.1 mem with delivered | queued
    · obtain ⟨d, old, rfl⟩ := List.mem_map.1 delivered
      obtain ⟨verdict, -, answer⟩ := h.answered d old
      refine Or.inr ⟨_, answer.recorded, rfl, ?_⟩
      have applied : verdict.1 = true := by
        by_contra ignored
        exact answer.requested (Bool.eq_false_of_not_eq_true ignored) unrequested
      simp [processedRow, applied]
    · exact Or.inl queued

end Claim

/-! A DAY order, filled in two parts. -/

def partialDraw : BrokerDraw where
  outcome := .partialFill ⟨1 / 2, by norm_num, by norm_num⟩
  followUp := true
  eventId := 61
  execution := 62
  timestamp := 7

def lastDraw : BrokerDraw :=
  { partialDraw with eventId := 63, execution := 64 }

def fillingActions : List Action :=
  [.createOrder ⟨2, 0⟩ limitBuy,
    .advance 0 partialDraw, .advance 0 partialDraw, .advance 0 lastDraw,
    .deliver, .deliver]

theorem closedSystem_safe_twoFills :
    let s := run (System.step {}) { db := traderDb .exact } fillingActions
    s.emitted.map (·.filledQuantity) = [5, 5] ∧
      ∀ event ∈ s.emitted, ∃ row, s.db.processedBrokerEvents.find event.eventId = some row ∧
        row.outcome = .applied := by
  intro s
  have drained : s.queue.length = 0 := by decide +kernel
  refine ⟨by decide +kernel, fun event mem => ?_⟩
  have unrequested : ∀ event ∈ s.emitted, s.db.cancelRequests event.orderId = 0 := by decide +kernel
  have draws : Along (System.step {}) System.Draws { db := traderDb .exact } fillingActions := by
    decide +kernel
  obtain ⟨-, -, -, applied⟩ := closedSystem_safe (openAccounts_fresh .exact _) fillingActions draws
  rcases applied event mem (unrequested event mem) with queued | ⟨row, recorded, -, outcome⟩
  · have empty : s.queue = [] := List.length_eq_zero_iff.1 drained
    exact absurd (show event ∈ s.queue from queued) (by simp [empty])
  · exact ⟨row, recorded, outcome⟩

end OrderManagement
