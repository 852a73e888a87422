import OrderManagement.ExecutionBounds

/-! Runs of the system over several processes. A process starts with the database alone: a new
broker that knows no order and an empty queue. What the last process had in flight is lost, which
no order is overfilled by, and which only the orders with a pending cancellation do not survive. -/

namespace OrderManagement

open Program TransitionRuns

/-- Steps of the system and the end of a process at any of its states. -/
inductive LifeAction
  | act (a : Action)
  | restart

namespace System

/-- What the next process starts from; `delivered` goes on as the history of all. -/
def restart (s : System) : System := { db := s.db, delivered := s.delivered }

def live (settings : Settings) (s : System) : LifeAction → System
  | .act a => s.step settings a
  | .restart => s.restart

def LifeDraws (s : System) : LifeAction → Prop
  | .act a => s.Draws a
  | .restart => True

instance (s : System) : (a : LifeAction) → Decidable (s.LifeDraws a)
  | .act a => inferInstanceAs (Decidable (s.Draws a))
  | .restart => .isTrue trivial

variable {settings : Settings} {s : System}

theorem Consistent.restart (h : s.Consistent) : s.restart.Consistent where
  ready := h.ready
  phased := ⟨fun k o found => .idle _ o, fun _ _ => ⟨rfl, rfl⟩, by simp [System.restart],
    h.phased.pending⟩
  numbered :=
    { distinct := h.numbered.distinct.sublist (by simp [emitted, System.restart])
      short := by simp [System.restart]
      processed := h.numbered.processed
      fills := h.numbered.fills }
  answered := h.answered

theorem Covered.restart (h : s.Covered) : s.restart.Covered where
  positive := by simp [System.restart]
  covered k := by
    have before := h.covered k
    have lost : 0 ≤ filledFor k s.queue + inFlight k s.work :=
      add_nonneg filledFor_nonneg (inFlight_nonneg h.positive)
    have kept : filledFor k s.restart.emitted + inFlight k s.restart.work =
        filledFor k (s.delivered.map Prod.fst) := by
      simp [emitted, System.restart, inFlight]
    rw [emitted, filledFor_append] at before
    change _ ≤ (s.db.orders.find k).elim 0 Order.quantity
    rw [kept]
    linarith

theorem Consistent.live (h : s.Consistent) {a : LifeAction} (draws : s.LifeDraws a) :
    (s.live settings a).Consistent := by
  cases a with
  | act a => exact h.step draws
  | restart => exact h.restart

structure Steady (s : System) : Prop where
  consistent : s.Consistent
  booked : s.Booked
  covered : s.Covered

theorem Steady.live (h : s.Steady) {a : LifeAction} (draws : s.LifeDraws a) :
    (s.live settings a).Steady where
  consistent := h.consistent.live draws
  booked := by
    cases a with
    | act a => exact h.booked.step h.consistent a
    | restart => exact h.booked
  covered := by
    cases a with
    | act a => exact h.covered.step h.consistent a
    | restart => exact h.covered.restart

structure Idle (k : UUID) (o : Order) (s : System) : Prop where
  found : s.db.orders.find k = some o
  work : ∀ a ∈ s.work, a.executes k = false ∧ a.revokes k = false
  queue : ∀ e ∈ s.queue, e.orderId ≠ k

theorem Idle.placed {k : UUID} {o : Order} (h : s.Idle k o) {o' : Order} {db : Db}
    {more : List Activity} (new : s.db.orders.find o'.id = none)
    (orders : db.orders = s.db.orders.put o')
    (own : ∀ a ∈ more, a.executes k = decide (o'.id = k) ∧ a.revokes k = false) :
    Idle k o { s with db, work := s.work ++ more } := by
  have other : o'.id ≠ k := by
    rintro rfl
    exact absurd (h.found.symm.trans new) (by simp)
  refine ⟨?_, fun a mem => ?_, h.queue⟩
  · rw [orders, Table.find_put_of_ne other]
    exact h.found
  · rcases List.mem_append.1 mem with old | made
    · exact h.work a old
    · simpa [other] using own a made

/-- Nothing but a request can put the system to work on an idle order, and an order that takes
no request stays as it is. -/
theorem Idle.step {k : UUID} {o : Order} (h : s.Idle k o) (consistent : s.Consistent)
    (uncancellable : o.status ∉ cancellableOrderStatuses) (a : Action) :
    (s.step settings a).Idle k o := by
  have turned : Turn settings s a (s.step settings a) := turn consistent.ready.sound a
  generalize s.step settings a = t at turned
  cases turned with
  | idle => exact ⟨h.found, h.work, h.queue⟩
  | refused t inserted =>
    have orders : (s.db.booked .exact t.rejected t.account none [t.created, t.rejection]).orders =
        s.db.orders.put t.rejected := by rw [Db.booked_orders, Order.stored_exact]
    have idle := h.placed (t.unplaced inserted) orders (List.forall_mem_nil _)
    simpa using idle
  | placed t inserted =>
    have orders : (s.db.booked .exact t.routed t.charged none
        [t.created, t.validation, t.routing]).orders = s.db.orders.put t.routed := by
      rw [Db.booked_orders, Order.stored_exact]
    refine h.placed (t.unplaced inserted) orders fun b mem => ?_
    obtain rfl := List.mem_singleton.1 mem
    exact ⟨rfl, rfl⟩
  | @asked _ orderId reason order overdue found cancellable =>
    have key : order.id = orderId := Table.find_key found
    have other : orderId ≠ k := by
      rintro rfl
      rw [h.found, Option.some_inj] at found
      exact uncancellable (found ▸ cancellable)
    refine ⟨?_, fun b mem => ?_, h.queue⟩
    · change (s.db.orders.put ((order.moved .cancelPending).stored .exact)).find k = some o
      rw [Order.stored_exact]
      exact (Table.find_put_of_ne (show (order.moved .cancelPending).id ≠ k from key ▸ other)).trans
        h.found
    · rcases List.mem_append.1 mem with old | made
      · exact h.work b old
      · obtain rfl := List.mem_singleton.1 made
        exact ⟨rfl, decide_eq_false (key ▸ other)⟩
  | @advanced i draw before after activity work =>
    have mine := h.work activity (by simp [work])
    refine ⟨h.found, fun b mem => ?_, fun e mem => ?_⟩
    · rcases List.mem_append.1 mem with old | made
      · exact h.work b (by simp only [work, List.mem_append, List.mem_cons] at old ⊢; tauto)
      · obtain ⟨executes, revokes⟩ := (activity.advance_orders draw k).1 b made
        exact ⟨executes.trans mine.1, revokes.trans mine.2⟩
    · rcases List.mem_append.1 mem with old | made
      · exact h.queue e old
      · obtain ⟨executes, revokes⟩ := (activity.advance_orders draw k).2 e made
        rintro rfl
        rw [mine.1] at executes
        rw [mine.2] at revokes
        by_cases kind : e.eventType = .cancelled <;>
          simp [BrokerExecutionEvent.executes, BrokerExecutionEvent.revokes,
            kind] at executes revokes
  | @delivered event rest applied db' queue ran effect =>
    obtain ⟨p, verdict, p', rfl, d⟩ := effect.delivery (consistent.numbered.unprocessed queue)
    have other : event.orderId ≠ k := h.queue event (by simp [queue])
    exact ⟨(d.others k other.symm).trans h.found, h.work,
      fun e mem => h.queue e (by simp [queue, mem])⟩
  | @raised event rest f queue failure =>
    exact ⟨h.found, h.work, fun e mem => h.queue e (by simp [queue, mem])⟩

theorem Idle.restart {k : UUID} {o : Order} (found : s.db.orders.find k = some o) :
    s.restart.Idle k o := ⟨found, by simp [System.restart], by simp [System.restart]⟩

theorem request_of_cancellable {k : UUID} {o : Order} (sound : s.db.Sound .exact)
    (found : s.db.orders.find k = some o) (cancellable : o.status ∈ cancellableOrderStatuses)
    (reason : String) : ∃ db', s.request k reason =
      { s with db := db', work := s.work ++ [.cancelOrder k reason] } ∧
      db'.orders.find k = some (o.moved .cancelPending) := by
  obtain rfl : o.id = k := Table.find_key found
  have spec := @requestCancellation_spec _ _ o.id reason sound
  unfold request
  cases ran : (requestCancellation o.id reason).run (postgres .exact) s.db with
  | error f =>
    have failure := wp_error _ spec ran
    cases failure with
    | orderNotFound missing => exact absurd (found.symm.trans missing) (by simp)
    | notCancellable found' _ not =>
      rw [found, Option.some_inj] at found'
      exact (not (found' ▸ cancellable)).elim
  | ok result =>
    obtain ⟨requested, db'⟩ := result
    have effect := wp_ok _ spec ran
    cases effect with
    | pending found' pending =>
      rw [found, Option.some_inj] at found'
      rw [found', pending] at cancellable
      exact absurd cancellable (by decide)
    | requested found' =>
      rw [found, Option.some_inj] at found'
      subst found'
      refine ⟨_, rfl, ?_⟩
      change (s.db.orders.put ((o.moved .cancelPending).stored .exact)).find o.id = _
      rw [Order.stored_exact]
      exact Table.find_put_of_eq (show (o.moved .cancelPending).id = o.id from rfl)

theorem deliver_cancelled (h : s.Consistent) {k : UUID} {o : Order} {reason : String}
    {draw : BrokerDraw} (found : s.db.orders.find k = some o) (pending : o.status = .cancelPending)
    (queue : s.queue = [cancelledEvent draw k reason]) :
    s.deliver.db.orders.find k = some (o.cancelRest.moved .cancelled) := by
  unfold deliver
  rw [queue]
  dsimp only
  cases ran : (processEvent (cancelledEvent draw k reason)).run (postgres .exact) s.db with
  | error f => exact (h.not_raised queue (wp_error _ (processEvent_spec h.ready.sound) ran)).elim
  | ok result =>
    have effect := wp_ok _ (processEvent_spec h.ready.sound) ran
    obtain ⟨p, verdict, p', -, d⟩ := effect.delivery (h.numbered.unprocessed queue)
    obtain rfl : p = o := Option.some.inj (d.found.symm.trans found)
    have taken := d.taken
    have left : result.2.orders.find k = some p' := d.left
    rw [left]
    cases taken with
    | filled isFill => cases isFill
    | released becomes =>
      cases becomes with
      | rejected rejection => cases rejection
      | cancelled => rfl
    | ignored ignores =>
      cases ignores with
      | cancellationOfDone _ done => exact absurd (by simp [pending, workingStatuses]) done
      | fillOfDone fill | overfill fill => cases fill
      | partOfFull full => cases full
      | rejectionOfUnrouted rejection => cases rejection

end System

section Lives

variable {settings : Settings} {opened : Db}

theorem Db.Fresh.steady (fresh : opened.Fresh .exact) : System.Steady { db := opened } where
  consistent := fresh.consistent
  booked := @run_booked {} _ fresh [] trivial
  covered := @run_covered {} _ fresh [] trivial

theorem run_steady (fresh : opened.Fresh .exact) {actions : List LifeAction}
    (draws : Along (System.live settings) System.LifeDraws { db := opened } actions) :
    (run (System.live settings) { db := opened } actions).Steady :=
  run_invariant_along System.Steady (fun _ _ h draws => h.live draws) fresh.steady draws

/-- Whenever processes end and start, every event is processed without an error, and what all
of them have booked and may still execute of an order is covered by its quantity. -/
theorem lives_bounded (fresh : opened.Fresh .exact) (actions : List LifeAction)
    (draws : Along (System.live settings) System.LifeDraws { db := opened } actions) :
    let s := run (System.live settings) { db := opened } actions
    (∀ event rest, s.queue = event :: rest →
      ∃ answer, (processEvent event).run (postgres .exact) s.db = .ok answer) ∧
    ∀ k order, s.db.orders.find k = some order →
      order.filledQuantity = filledFor k (s.answered true) ∧
      filledFor k s.emitted + inFlight k s.work ≤ order.quantity := by
  intro s
  obtain ⟨consistent, booked, covered⟩ : s.Steady := run_steady fresh draws
  refine ⟨fun event rest queue => ?_, fun k order found => ⟨?_, ?_⟩⟩
  · cases ran : (processEvent event).run (postgres .exact) s.db with
    | ok answer => exact ⟨answer, rfl⟩
    | error f =>
      have failure := wp_error _ (processEvent_spec consistent.ready.sound) ran
      exact (consistent.not_raised queue failure).elim
  · have mine := booked k
    rw [found, Option.elim_some] at mine
    exact mine
  · have mine := covered.covered k
    rwa [found, Option.elim_some] at mine

/-- After a restart an order that does not take a cancellation request, such as one whose
request is pending, stays as it is forever; a request for any other leads to its cancellation. -/
theorem restarted_orders (fresh : opened.Fresh .exact) (actions : List LifeAction)
    (draws : Along (System.live settings) System.LifeDraws { db := opened } actions) :
    let s := (run (System.live settings) { db := opened } actions).restart
    ∀ k o, s.db.orders.find k = some o →
      (o.status ∉ cancellableOrderStatuses → ∀ later,
        Along (System.live settings) System.LifeDraws s later →
        (run (System.live settings) s later).db.orders.find k = some o) ∧
      (o.status ∈ cancellableOrderStatuses → ∀ reason draw, s.Draws (.advance 0 draw) →
        (run (System.step settings) s [.requestCancellation k reason, .advance 0 draw,
          .advance 0 draw, .deliver]).db.orders.find k =
            some ((o.moved .cancelPending).cancelRest.moved .cancelled)) := by
  intro s k o found
  have steady : (System.live settings _ .restart).Steady := (run_steady fresh draws).live trivial
  refine ⟨fun uncancellable later drawn => ?_, fun cancellable reason draw drawn => ?_⟩
  · have idle : s.Idle k o := System.Idle.restart found
    have both := run_invariant_along (fun t => System.Consistent t ∧ t.Idle k o)
      (fun t a h drawn => by
        refine ⟨h.1.live drawn, ?_⟩
        cases a with
        | act a => exact h.2.step h.1 uncancellable a
        | restart => exact System.Idle.restart h.2.found)
      ⟨steady.consistent, idle⟩ drawn
    exact both.2.found
  · obtain ⟨db', requested, pending⟩ :=
      System.request_of_cancellable steady.consistent.ready.sound found cancellable reason
    have asked : s.step settings (.requestCancellation k reason) =
        { s with db := db', work := [.cancelOrder k reason] } := requested
    have first : (s.step settings (.requestCancellation k reason)).Consistent :=
      steady.consistent.step trivial
    rw [asked] at first
    have second : (System.step settings _ (.advance 0 draw)).Consistent := first.step drawn
    have third : (System.step settings _ (.advance 0 draw)).Consistent := second.step drawn
    rw [run_cons, asked]
    exact System.deliver_cancelled third pending rfl rfl

end Lives

/-! A process that ends while a cancellation is on its way to the broker, after a first fill. -/

def interruptedActions : List LifeAction :=
  [.act (.createOrder ⟨2, 0⟩ limitBuy),
    .act (.advance 0 partialDraw), .act (.advance 0 partialDraw),
    .act .deliver, .act (.requestCancellation 2 "Changed my mind")]

theorem interruptedActions_drawn :
    Along (System.live {}) System.LifeDraws { db := traderDb .exact } interruptedActions := by
  decide +kernel

theorem lives_bounded_interrupted :
    let s := run (System.live {}) { db := traderDb .exact } interruptedActions
    ∃ o, s.db.orders.find 2 = some o ∧ o.filledQuantity = 5 ∧
      filledFor 2 s.emitted + inFlight 2 s.work ≤ o.quantity := by
  intro s
  have filled : (s.db.orders.find 2).map Order.filledQuantity = some 5 := by decide +kernel
  obtain ⟨o, found, five⟩ := Option.map_eq_some_iff.1 filled
  exact ⟨o, found, five, ((lives_bounded (openAccounts_fresh .exact _) interruptedActions
    interruptedActions_drawn).2 2 o found).2⟩

/-- The request is never answered; one that comes after the restart is. -/
theorem restarted_orders_interrupted :
    (let s := (run (System.live {}) { db := traderDb .exact } interruptedActions).restart
      ∃ o, s.db.orders.find 2 = some o ∧ o.status = .cancelPending ∧
        (run (System.live {}) s
          [.act (.requestCancellation 2 "Again"), .act .deliver]).db.orders.find
          2 = some o) ∧
    let s := (run (System.live {}) { db := traderDb .exact } (interruptedActions.take 4)).restart
    ∃ o, s.db.orders.find 2 = some o ∧ o.status = .partiallyFilled ∧
      (run (System.step {}) s [.requestCancellation 2 "Again", .advance 0 lastDraw,
        .advance 0 lastDraw, .deliver]).db.orders.find 2 =
          some ((o.moved .cancelPending).cancelRest.moved .cancelled) := by
  have drawn : Along (System.live {}) System.LifeDraws { db := traderDb .exact }
      (interruptedActions.take 4) := by decide +kernel
  have pending : ((run (System.live {}) { db := traderDb .exact }
      interruptedActions).restart.db.orders.find 2).map Order.status = some .cancelPending := by
    decide +kernel
  have working : ((run (System.live {}) { db := traderDb .exact }
      (interruptedActions.take 4)).restart.db.orders.find 2).map Order.status =
        some .partiallyFilled := by
    decide +kernel
  have later : Along (System.live {}) System.LifeDraws
      (run (System.live {}) { db := traderDb .exact } interruptedActions).restart
      [.act (.requestCancellation 2 "Again"), .act .deliver] := ⟨trivial, trivial, trivial⟩
  have unused : (run (System.live {}) { db := traderDb .exact }
      (interruptedActions.take 4)).restart.Draws (.advance 0 lastDraw) := by decide +kernel
  obtain ⟨o, found, status⟩ := Option.map_eq_some_iff.1 pending
  obtain ⟨p, found', status'⟩ := Option.map_eq_some_iff.1 working
  refine ⟨⟨o, found, status, ?_⟩, p, found', status', ?_⟩
  · exact (restarted_orders (openAccounts_fresh .exact _) interruptedActions
      interruptedActions_drawn 2 o found).1 (by rw [status]; decide) _ later
  · exact (restarted_orders (openAccounts_fresh .exact _) _ drawn 2 p found').2
      (by rw [status']; decide) "Again" lastDraw unused

end OrderManagement
