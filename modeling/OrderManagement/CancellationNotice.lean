import OrderManagement.SerializableCalls

/-! Telling the broker about a cancellation. `request_cancellation` commits
CANCEL_PENDING before it calls the broker, and a later request for the order returns
early; so one request is on record, and the broker is told by that request or never. -/

namespace OrderManagement

open Program ReadCommitted TransitionRuns

def Db.cancelRequests (db : Db) (k : UUID) : ℕ :=
  db.orderEvents.countP fun e => e.orderId = k ∧ e.eventType = .cancelRequested

/-- Statuses that an order can only have after a request, or without ever having one. -/
def uncancellableStatuses : List OrderStatus := [.cancelPending, .filled, .cancelled, .rejected]

def Call.cancels (k : UUID) : Call → Bool
  | requestCancellation orderId _ => orderId = k
  | createOrder _ _ | processEvent _ => false

def Reply.notifies : Reply → Bool
  | cancelRequested requested => requested.shouldNotifyBroker
  | created _ | processed _ => false

section Changes

variable {S : Deployment} {db db' : Db} {op : Op} {k : UUID}

theorem Db.cancelRequests_append {es : List OrderEvent}
    (events : db'.orderEvents = db.orderEvents ++ es)
    (none_ : ∀ e ∈ es, e.orderId = k → e.eventType ≠ .cancelRequested) :
    db'.cancelRequests k = db.cancelRequests k := by
  unfold Db.cancelRequests
  rw [events, List.countP_append, Nat.add_eq_left, List.countP_eq_zero]
  intro e he
  simp only [decide_eq_true_eq, not_and]
  exact none_ e he

theorem Concluded.records {data : EventData} {o o' : Order} {a a' : Account} {es : List OrderEvent}
    (h : Concluded data o a o' a' es) : ∀ e ∈ es, e.eventType ≠ .cancelRequested := by
  cases h <;> simp

theorem Concluded.statuses {data : EventData} {o o' : Order} {a a' : Account} {es : List OrderEvent}
    (h : Concluded data o a o' a' es) : (o'.status = .cancelPending → o.status = .cancelPending) ∧
      (o.status ∈ uncancellableStatuses → o'.status ∈ uncancellableStatuses) := by
  cases h with
  | filled | ioc => exact ⟨by simp [Order.moved], by simp [Order.moved, uncancellableStatuses]⟩
  | first rest resting routed =>
    exact ⟨by simp [Order.moved], by simp [routed, uncancellableStatuses]⟩
  | further => exact ⟨id, id⟩

theorem Released.statuses {event : BrokerExecutionEvent} {o o' : Order} {e : OrderEvent}
    (h : Released event o o' e) :
    o'.status ≠ .cancelPending ∧ o'.status ∈ uncancellableStatuses := by
  cases h <;> simp [Order.moved, uncancellableStatuses]

theorem Released.records {event : BrokerExecutionEvent} {o o' : Order} {e : OrderEvent}
    (h : Released event o o' e) : e.eventType ≠ .cancelRequested := by
  cases h <;> simp

/-- What an operation other than a request for the order does to its records and status. -/
structure Unasked (db db' : Db) (k : UUID) : Prop where
  records : db'.cancelRequests k = db.cancelRequests k
  pending : ∀ o', db'.orders.find k = some o' → o'.status = .cancelPending →
    ∃ o, db.orders.find k = some o ∧ o.status = .cancelPending
  stays : ∀ o, db.orders.find k = some o → o.status ∈ uncancellableStatuses →
    ∃ o', db'.orders.find k = some o' ∧ o'.status ∈ uncancellableStatuses

theorem Unasked.of_orders {es : List OrderEvent} (orders : db'.orders = db.orders)
    (events : db'.orderEvents = db.orderEvents ++ es)
    (none_ : ∀ e ∈ es, e.eventType ≠ .cancelRequested) : Unasked db db' k where
  records := Db.cancelRequests_append events fun e he _ => none_ e he
  pending o' found status := ⟨o', orders ▸ found, status⟩
  stays o found status := ⟨o, orders ▸ found, status⟩

theorem Unasked.of_put (o' : Order) {es : List OrderEvent} (orders : db'.orders = db.orders.put o')
    (events : db'.orderEvents = db.orderEvents ++ es)
    (none_ : ∀ e ∈ es, e.orderId = k → e.eventType ≠ .cancelRequested)
    (pending : o'.id = k → o'.status = .cancelPending →
      ∃ o, db.orders.find k = some o ∧ o.status = .cancelPending)
    (stays : ∀ o, o'.id = k → db.orders.find k = some o → o.status ∈ uncancellableStatuses →
      o'.status ∈ uncancellableStatuses) : Unasked db db' k where
  records := Db.cancelRequests_append events none_
  pending p found status := by
    rw [orders] at found
    by_cases key : o'.id = k
    · rw [Table.find_put_of_eq key, Option.some_inj] at found
      exact pending key (found ▸ status)
    · rw [Table.find_put_of_ne key] at found
      exact ⟨p, found, status⟩
  stays p found status := by
    rw [orders]
    by_cases key : o'.id = k
    · exact ⟨o', Table.find_put_of_eq key, stays p key found status⟩
    · exact ⟨p, (Table.find_put_of_ne key).trans found, status⟩

theorem Unasked.replaced {k' : UUID} {o : Order} (o' : Order) {es : List OrderEvent}
    (found : db.orders.find k' = some o) (id : o'.id = o.id)
    (orders : db'.orders = db.orders.put o') (events : db'.orderEvents = db.orderEvents ++ es)
    (none_ : ∀ e ∈ es, e.eventType ≠ .cancelRequested)
    (pending : o'.status = .cancelPending → o.status = .cancelPending)
    (stays : o.status ∈ uncancellableStatuses → o'.status ∈ uncancellableStatuses) :
    Unasked db db' k := by
  have key : o'.id = k' := id.trans (Table.find_key found)
  refine .of_put o' orders events (fun e he _ => none_ e he) (fun same status => ?_)
    fun p same was status => ?_
  · exact ⟨o, (same.symm.trans key) ▸ found, pending status⟩
  · rw [same.symm.trans key, found, Option.some_inj] at was
    exact stays (was ▸ status)

theorem Unasked.placed (o' : Order) {es : List OrderEvent} (new : db.orders.find o'.id = none)
    (orders : db'.orders = db.orders.put o') (events : db'.orderEvents = db.orderEvents ++ es)
    (none_ : ∀ e ∈ es, e.eventType ≠ .cancelRequested) (status : o'.status ≠ .cancelPending) :
    Unasked db db' k := by
  refine .of_put o' orders events (fun e he _ => none_ e he)
    (fun _ pending => absurd pending status)
    fun p same was _ => ?_
  rw [same, was] at new
  cases new

/-- Only a request for the order makes it CANCEL_PENDING, and nothing makes it cancellable again. -/
theorem Change.unasked (h : Change S db op db')
    (other : ∀ reason, op ≠ .requestCancellation k reason) :
    Unasked db db' k := by
  cases h with
  | unchanged => exact .of_orders rfl (List.append_nil _).symm (by simp)
  | ticked => exact .of_orders rfl (List.append_nil _).symm (by simp)
  | ignored => exact .of_orders rfl rfl (by simp)
  | refused t inserted short =>
    exact .placed (t.rejected.stored S.num) (t.unplaced inserted) rfl rfl
      (by simp [Placement.created, Placement.rejection]) (fun status => by cases status)
  | routed t inserted covered kept =>
    exact .placed (t.routed.stored S.num) (t.unplaced inserted) rfl rfl
      (by simp [Placement.created, Placement.validation, Placement.routing])
      (fun status => by cases status)
  | filled t =>
    obtain ⟨pending, stays⟩ := t.conclude.statuses
    rw [t.booked_status] at pending stays
    exact .replaced (t.final.stored S.num) t.found t.frozen.id (by simp [AppliedFill.after])
      rfl t.conclude.records pending stays
  | @released event order final account left record found unprocessed accountFound becomes =>
    obtain ⟨notPending, done⟩ := becomes.statuses
    exact .replaced (final.stored S.num) found becomes.frozen.id (by simp) rfl
      (by simpa using becomes.records) (fun pending => absurd pending notPending) fun _ => done
  | @cancelRequested orderId reason order found cancellable =>
    have elsewhere : order.id ≠ k := by
      rw [Table.find_key found]
      rintro rfl
      exact other reason rfl
    exact .of_put ((order.moved .cancelPending).stored S.num) rfl rfl
      (by simpa using fun same => absurd same elsewhere)
      (fun same => absurd same elsewhere) fun _ same => absurd same elsewhere
  | @routingFailed orderId reason order account found wasRouted accountFound kept =>
    exact .replaced (((order.unroutable reason).moved .rejected).stored S.num) found rfl
      (by simp) rfl (by simp) (fun status => by cases status) fun _ => by
        simp [Order.stored, Order.moved, uncancellableStatuses]

end Changes

section Serial

variable {ι : Type} {S : Deployment} {calls : ι → Call} {db₀ db : Db} {k : UUID}
  {log : List (ι × Reply)}

def notifiers (calls : ι → Call) (k : UUID) (log : List (ι × Reply)) : List (ι × Reply) :=
  log.filter fun e => (calls e.1).cancels k && e.2.notifies

structure Tally (calls : ι → Call) (k : UUID) (log : List (ι × Reply)) (db : Db) : Prop where
  records : db.cancelRequests k = (notifiers calls k log).length
  once : (notifiers calls k log).length ≤ 1
  unrequested : notifiers calls k log = [] → ∀ o, db.orders.find k = some o →
    o.status ≠ .cancelPending
  requested : notifiers calls k log ≠ [] → ∃ o, db.orders.find k = some o ∧
    o.status ∈ uncancellableStatuses
  returned : ∀ e ∈ log, (calls e.1).cancels k = true → notifiers calls k log ≠ []

theorem notifiers_concat (e : ι × Reply) : notifiers calls k (log ++ [e]) =
    notifiers calls k log ++ if (calls e.1).cancels k && e.2.notifies then [e] else [] := by
  unfold notifiers
  rw [List.filter_append, List.filter_singleton, Bool.cond_eq_ite]

theorem Tally.unasked {db' : Db} (h : Tally calls k log db) (unasked : Unasked db db' k)
    {e : ι × Reply} (other : (calls e.1).cancels k = false) : Tally calls k (log ++ [e]) db' := by
  have same : notifiers calls k (log ++ [e]) = notifiers calls k log := by
    simp [notifiers_concat, other]
  constructor <;> rw [same]
  · exact unasked.records.trans h.records
  · exact h.once
  · intro none_ o found pending
    obtain ⟨p, was, pending⟩ := unasked.pending o found pending
    exact h.unrequested none_ p was pending
  · intro some_
    obtain ⟨o, found, status⟩ := h.requested some_
    exact unasked.stays o found status
  · intro e' mem cancels
    rcases List.mem_append.1 mem with old | new
    · exact h.returned e' old cancels
    · rw [List.mem_singleton.1 new, other] at cancels
      cases cancels

theorem Tally.asked {db' : Db} {requested : CancelRequested} {reason : String}
    (h : Tally calls k log db) (effect : CancelEffect S.num db k reason requested db') {i : ι}
    (cancels : (calls i).cancels k = true) :
    Tally calls k (log ++ [(i, .cancelRequested requested)]) db' := by
  cases effect with
  | @pending order found pending =>
    have same : notifiers calls k (log ++ [(i, .cancelRequested ⟨order, false⟩)]) =
        notifiers calls k log := by
      simp [notifiers_concat, Reply.notifies]
    have some_ : notifiers calls k log ≠ [] := fun none_ => h.unrequested none_ order found pending
    constructor <;> rw [same]
    · exact h.records
    · exact h.once
    · exact h.unrequested
    · exact h.requested
    · exact fun _ _ _ => some_
  | @requested order found cancellable =>
    have none_ : notifiers calls k log = [] := by
      by_contra some_
      obtain ⟨o, was, status⟩ := h.requested some_
      obtain rfl := Option.some.inj (found.symm.trans was)
      revert cancellable status
      cases order.status <;> decide
    have more :
        notifiers calls k (log ++ [(i, .cancelRequested ⟨order.moved .cancelPending, true⟩)]) =
        [(i, .cancelRequested ⟨order.moved .cancelPending, true⟩)] := by
      simp [notifiers_concat, Reply.notifies, none_, cancels]
    have key : order.id = k := Table.find_key found
    constructor <;> rw [more]
    · have before := h.records
      rw [none_, List.length_nil] at before
      unfold Db.cancelRequests at before ⊢
      rw [Db.logged, List.countP_append, before]
      simp [key]
    · exact le_refl 1
    · exact fun empty => absurd empty (by simp)
    · refine fun _ => ⟨(order.moved .cancelPending).stored S.num, ?_, ?_⟩
      · exact Table.find_put_of_eq key
      · simp [Order.stored, Order.moved, uncancellableStatuses]
    · exact fun _ _ _ => by simp

theorem Serial.tally (sound : db₀.Sound S.num) (none_ : db₀.cancelRequests k = 0)
    (unrequested : ∀ o, db₀.orders.find k = some o → o.status ≠ .cancelPending)
    (h : Serial (lockingPostgres S.num) (fun i => (calls i).program S.settings) Reply.Same db₀
      log db) : db.Sound S.num ∧ Tally calls k log db := by
  induction h with
  | nil => exact ⟨sound, ⟨none_, Nat.zero_le 1, fun _ => unrequested, by simp [notifiers], by simp⟩⟩
  | @snoc log db' db'' i reply reply' before ran same ih =>
    obtain ⟨sound, tally⟩ := ih
    have change := Call.change sound ran
    refine ⟨change.sound sound, ?_⟩
    cases cancels : (calls i).cancels k with
    | false =>
      refine tally.unasked (change.unasked fun reason asked => ?_) cancels
      cases call : calls i <;> simp_all [Call.op, Call.cancels]
    | true =>
      cases call : calls i with
      | createOrder | processEvent => simp [call, Call.cancels] at cancels
      | requestCancellation orderId reason =>
        obtain rfl : orderId = k := by simpa [call, Call.cancels] using cancels
        rw [call] at ran
        obtain ⟨requested, asked, rfl⟩ := (run_bind_pure_eq_ok (postgres S.num)).1 ran
        cases same
        exact tally.asked (wp_ok _ (requestCancellation_spec sound) asked) cancels

end Serial

/-! The calls of the broker, which follow the commits. -/

section Notices

variable {ι : Type} {S : Deployment} {calls : ι → Call} {db₀ : Db} {k : UUID}

/-- The transactions side by side, and for each call whether its `broker.cancel_order` has
completed or raised. -/
structure NoticeSite (ι : Type) where
  site : Site Stmt Failure Db Write Lock ι Reply
  notified : ι → Option Bool

namespace NoticeSite

variable (u : NoticeSite ι) (i : ι)

def Finished : Prop :=
  (∃ cause, u.site.phase i = .failed cause) ∨
    ∃ reply, u.site.phase i = .committed reply ∧ (reply.notifies = true → u.notified i ≠ none)

def Returned : Prop :=
  ∃ reply, u.site.phase i = .committed reply ∧ (reply.notifies = true → u.notified i = some true)

end NoticeSite

variable [DecidableEq ι]

/-- A statement or the end of a transaction, or a call of the broker, which may raise. -/
inductive NoticeStep (S : Deployment) (u : NoticeSite ι) : NoticeSite ι → Prop
  | transaction {t : Site Stmt Failure Db Write Lock ι Reply}
      (step : Step (lockingPostgres S.num) u.site t) : NoticeStep S u { u with site := t }
  | notify {i : ι} {reply : Reply} (raises : Bool) (committed : u.site.phase i = .committed reply)
      (notifies : reply.notifies = true) (waiting : u.notified i = none) :
      NoticeStep S u { u with notified := Function.update u.notified i (some !raises) }

def NoticeSite.start (S : Deployment) (db₀ : Db) (calls : ι → Call) : NoticeSite ι :=
  ⟨ReadCommitted.start db₀ fun i => (calls i).program S.settings, fun _ => none⟩

theorem step_keeps_committed {E : LockingEngine Stmt Failure Db Write Lock}
    {t t' : Site Stmt Failure Db Write Lock ι Reply} (h : Step E t t') {i : ι} {reply : Reply}
    (committed : t.phase i = .committed reply) : t'.phase i = .committed reply := by
  have other : ∀ {j : ι} {q : Txn Reply} {ws : List Write} {locks : List Lock},
      t.phase j = .active q ws locks → i ≠ j := by
    rintro j q ws locks active rfl
    rw [committed] at active
    cases active
  cases h with
  | statement active | refused active | raised active | aborted active | committed active =>
    exact (Function.update_of_ne (other active) _ _).trans committed

/-- What the broker has been told was told by calls that committed a request. -/
theorem notice_invariant {u : NoticeSite ι}
    (reachable : Relation.ReflTransGen (NoticeStep S) (.start S db₀ calls) u) :
    Reachable (lockingPostgres S.num) db₀ (fun i => (calls i).program S.settings) u.site ∧
      ∀ i, u.notified i ≠ none → ∃ reply, u.site.phase i = .committed reply ∧
        reply.notifies = true := by
  induction reachable with
  | refl => exact ⟨.refl, fun i told => absurd rfl told⟩
  | tail _ step ih =>
    obtain ⟨before, told⟩ := ih
    cases step with
    | transaction step =>
      refine ⟨before.tail step, fun i some_ => ?_⟩
      obtain ⟨reply, committed, notifies⟩ := told i some_
      exact ⟨reply, step_keeps_committed step committed, notifies⟩
    | @notify i reply raises committed notifies waiting =>
      refine ⟨before, fun j some_ => ?_⟩
      by_cases same : j = i
      · exact ⟨reply, same ▸ committed, notifies⟩
      · exact told j (by simpa [Function.update_of_ne same] using some_)

/-- Once the calls have finished and a cancellation has been accepted, one request is on record,
and the broker has been told exactly once unless its `cancel_order` raised. -/
theorem cancellation_notified_iff (sound : db₀.Sound S.num) (none_ : db₀.cancelRequests k = 0)
    (unrequested : ∀ o, db₀.orders.find k = some o → o.status ≠ .cancelPending) {u : NoticeSite ι}
    (reachable : Relation.ReflTransGen (NoticeStep S) (.start S db₀ calls) u)
    (finished : ∀ i, (calls i).cancels k = true → u.Finished i)
    (accepted : ∃ i, (calls i).cancels k = true ∧ u.Returned i) :
    u.site.db.cancelRequests k = 1 ∧
      ((∃! i, (calls i).cancels k = true ∧ u.notified i = some true) ↔
        ∀ i, (calls i).cancels k = true → u.notified i ≠ some false) := by
  obtain ⟨within, told⟩ := notice_invariant reachable
  have consistent := Reachable.consistent (calls_replayable S calls) sound within
  obtain ⟨-, tally⟩ := Serial.tally sound none_ unrequested consistent.serial
  obtain ⟨i, cancels, reply, committed, -⟩ := accepted
  have some_ := tally.returned (i, reply) (consistent.logged.2 committed) cancels
  obtain ⟨⟨n, requested⟩, only⟩ : ∃ e, notifiers calls k u.site.log = [e] :=
    List.length_eq_one_iff.1 (le_antisymm tally.once (List.length_pos_iff.2 some_))
  refine ⟨by rw [tally.records, only]; rfl, ?_⟩
  have member : (n, requested) ∈ notifiers calls k u.site.log := by simp [only]
  obtain ⟨logged, names⟩ := List.mem_filter.1 member
  obtain ⟨mine, notifies⟩ := Bool.and_eq_true_iff.1 names
  have done := consistent.logged.1 logged
  -- whichever call the broker heard of, it was this one
  have unique : ∀ j, (calls j).cancels k = true → u.notified j ≠ none → j = n := by
    intro j asks heard
    obtain ⟨reply', committed', notifies'⟩ := told j heard
    have kept : (j, reply') ∈ notifiers calls k u.site.log :=
      List.mem_filter.2 ⟨consistent.logged.2 committed', by simp [asks, notifies']⟩
    rw [only, List.mem_singleton] at kept
    exact congrArg Prod.fst kept
  have heard : u.notified n ≠ none := by
    rcases finished n mine with ⟨cause, failed⟩ | ⟨reply', committed', waits⟩
    · rw [done] at failed
      cases failed
    · rw [done] at committed'
      cases committed'
      exact waits notifies
  constructor
  · rintro ⟨j, ⟨asks, completed⟩, -⟩ l asks' raised
    have first := unique j asks (by simp [completed])
    have second := unique l asks' (by simp [raised])
    rw [first, ← second, raised] at completed
    cases completed
  · intro never
    refine ⟨n, ⟨mine, ?_⟩, fun j ⟨asks, completed⟩ => unique j asks (by simp [completed])⟩
    obtain ⟨b, hb⟩ := Option.ne_none_iff_exists'.1 heard
    cases b with
    | true => exact hb
    | false => exact absurd hb (never n mine)

end Notices

/-! Two requests for one order: the second returns early, then the broker is called. -/

def cancelledTwice : Bool → Call := fun _ => .requestCancellation 2 "Client requested cancellation"

def bothCommitted : Option (Site Stmt Failure Db Write Lock Bool Reply) :=
  schedule (lockingPostgres .exact)
    (ReadCommitted.start routedDb fun i => (cancelledTwice i).program {})
    (List.replicate 4 true ++ List.replicate 2 false)

theorem bothCommitted_notified (raises : Bool) :
    ∃ u : NoticeSite Bool, Relation.ReflTransGen (NoticeStep (.exact {} id))
        (.start (.exact {} id) routedDb cancelledTwice) u ∧ (∀ i, u.Finished i) ∧ u.Returned false ∧
      u.notified = Function.update (fun _ => none) true (some !raises) := by
  have turns : (bothCommitted.map fun site => site.log.map fun e => (e.1, e.2.notifies)) =
      some [(true, true), (false, false)] := by decide +kernel
  obtain ⟨site, scheduled, log⟩ := Option.map_eq_some_iff.1 turns
  have within := schedule_reachable .refl scheduled
  have sound : routedDb.Sound (Deployment.exact {} id).num :=
    run_sound (openAccounts_fresh .exact _).sound _
  have consistent :=
    Reachable.consistent (calls_replayable (.exact {} id) cancelledTwice) sound within
  have phase : ∀ i b, (i, b) ∈ site.log.map (fun e => (e.1, e.2.notifies)) →
      ∃ reply, site.phase i = .committed reply ∧ reply.notifies = b := by
    intro i b mem
    obtain ⟨⟨j, reply⟩, logged, eq⟩ := List.mem_map.1 mem
    obtain ⟨rfl, rfl⟩ := Prod.mk.inj eq
    exact ⟨reply, consistent.logged.1 logged, rfl⟩
  obtain ⟨first, firstDone, notifies⟩ := phase true true (by simp [log])
  obtain ⟨second, secondDone, early⟩ := phase false false (by simp [log])
  have lifted : Relation.ReflTransGen (NoticeStep (.exact {} id))
      (.start (.exact {} id) routedDb cancelledTwice) ⟨site, fun _ => none⟩ :=
    Relation.ReflTransGen.lift (p := NoticeStep (.exact {} id))
      (fun t => (⟨t, fun _ => none⟩ : NoticeSite Bool))
      (fun _ _ step => NoticeStep.transaction step)
      _ _ within
  refine ⟨⟨site, Function.update (fun _ => none) true (some !raises)⟩,
    lifted.tail (.notify raises firstDone notifies rfl), ?_, ?_, rfl⟩
  · rintro (_ | _)
    · exact Or.inr ⟨second, secondDone, by simp [early]⟩
    · exact Or.inr ⟨first, firstDone, by simp⟩
  · exact ⟨second, secondDone, by simp [early]⟩

theorem not_notified_brokerRaised :
    ∃ u : NoticeSite Bool, Relation.ReflTransGen (NoticeStep (.exact {} id))
        (.start (.exact {} id) routedDb cancelledTwice) u ∧ (∀ i, u.Finished i) ∧ u.Returned false ∧
      ¬ ∃ i, u.notified i = some true := by
  obtain ⟨u, reachable, finished, returned, notified⟩ := bothCommitted_notified true
  refine ⟨u, reachable, finished, returned, ?_⟩
  rintro ⟨(_ | _), told⟩ <;> simp [notified] at told

theorem notified_once :
    ∃ u : NoticeSite Bool, u.site.db.cancelRequests 2 = 1 ∧ ∃! i, u.notified i = some true := by
  obtain ⟨u, reachable, finished, returned, notified⟩ := bothCommitted_notified false
  obtain ⟨one, told⟩ := cancellation_notified_iff (k := 2)
    (run_sound (openAccounts_fresh .exact _).sound _) (by decide +kernel) (by decide +kernel)
    reachable
    (fun i _ => finished i) ⟨false, rfl, returned⟩
  have never : ∀ i, u.notified i ≠ some false := by
    rintro (_ | _) <;> simp [notified]
  exact ⟨u, one, by simpa [cancelledTwice, Call.cancels] using told.2 fun i _ => never i⟩

end OrderManagement
