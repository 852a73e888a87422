import OrderManagement.OrderShape

/-! The audit log as a second representation of an order. Replaying the records of an
order, from its creation on, leads to the status and the quantities of its row. -/

namespace OrderManagement

open Program TransitionRuns

def Db.auditLog (db : Db) (orderId : UUID) : List OrderEvent :=
  db.orderEvents.filter fun e => e.orderId = orderId

namespace OrderEvent

def decimal (e : OrderEvent) (key : String) : ℚ :=
  match e.eventData.lookup key with
  | some (.decimal value) => value
  | _ => 0

def filled (e : OrderEvent) : ℚ :=
  if e.eventType = .partialFillReceived ∨ e.eventType = .fullFillReceived then e.decimal "quantity"
  else 0

def cancelled (e : OrderEvent) : ℚ :=
  if e.eventType = .orderCancelled then e.decimal "cancelled_quantity" else 0

end OrderEvent

/-- The log leads from the creation of an order to the status and the quantities. -/
structure Recounts (log : List OrderEvent) (status : OrderStatus) (filled cancelled : ℚ) :
    Prop where
  created : ∃ first ∈ log.head?, first.eventType = .orderCreated ∧ first.previousStatus = none ∧
    first.newStatus = some .new
  linked : log.IsChain fun e e' => e'.previousStatus = e.newStatus
  allowed : ∀ e ∈ log.tail, ∃ previous next, e.previousStatus = some previous ∧
    e.newStatus = some next ∧ (next = previous ∨ next ∈ allowedTransitions previous)
  last : ∃ e ∈ log.getLast?, e.newStatus = some status
  filled : (log.map OrderEvent.filled).sum = filled
  cancelled : (log.map OrderEvent.cancelled).sum = cancelled

section Replay

variable {log : List OrderEvent} {status status' : OrderStatus} {filled cancelled : ℚ}

theorem Recounts.creation {e : OrderEvent} (kind : e.eventType = .orderCreated)
    (previous : e.previousStatus = none) (new : e.newStatus = some .new) :
    Recounts [e] .new 0 0 where
  created := ⟨e, rfl, kind, previous, new⟩
  linked := by simp
  allowed := by simp
  last := ⟨e, rfl, new⟩
  filled := by simp [OrderEvent.filled, kind]
  cancelled := by simp [OrderEvent.cancelled, kind]

theorem Recounts.append (h : Recounts log status filled cancelled) {e : OrderEvent}
    (previous : e.previousStatus = some status) (new : e.newStatus = some status')
    (step : status' = status ∨ status' ∈ allowedTransitions status) :
    Recounts (log ++ [e]) status' (filled + e.filled) (cancelled + e.cancelled) := by
  have sums : ∀ f : OrderEvent → ℚ, ((log ++ [e]).map f).sum = (log.map f).sum + f e := fun f => by
    simp
  obtain ⟨first, isFirst, created⟩ := h.created
  obtain ⟨l, isLast, reached⟩ := h.last
  refine ⟨?_, ?_, ?_, ⟨e, List.getLast?_concat, new⟩, h.filled ▸ sums _, h.cancelled ▸ sums _⟩
  all_goals obtain ⟨rest, rfl⟩ : ∃ rest, log = first :: rest := List.head?_eq_some_iff.1 isFirst
  · exact ⟨first, rfl, created⟩
  · refine List.isChain_append.2 ⟨h.linked, by simp, fun l' hl' e' he' => ?_⟩
    obtain rfl : l = l' := Option.some.inj (isLast.symm.trans hl')
    obtain rfl : e = e' := Option.some.inj he'
    exact previous.trans reached.symm
  · intro e' he'
    rcases List.mem_append.1 (show e' ∈ rest ++ [e] from he') with old | isNew
    · exact h.allowed e' old
    · obtain rfl := List.mem_singleton.1 isNew
      exact ⟨status, status', previous, new, step⟩

theorem Recounts.note (h : Recounts log status filled cancelled) {e : OrderEvent}
    (previous : e.previousStatus = some status) (new : e.newStatus = some status)
    (unfilled : e.filled = 0) (uncancelled : e.cancelled = 0) :
    Recounts (log ++ [e]) status filled cancelled := by
  have := h.append previous new (Or.inl rfl)
  rwa [unfilled, uncancelled, add_zero, add_zero] at this

theorem Recounts.transition (h : Recounts log status filled cancelled) {e : OrderEvent}
    (previous : e.previousStatus = some status) (new : e.newStatus = some status')
    (allowed : status' ∈ allowedTransitions status)
    (unfilled : e.filled = 0) (uncancelled : e.cancelled = 0) :
    Recounts (log ++ [e]) status' filled cancelled := by
  have := h.append previous new (Or.inr allowed)
  rwa [unfilled, uncancelled, add_zero, add_zero] at this

end Replay

/-- A fill event for an order that can take it, whose sum with what is filled already is
rounded by its column. -/
def roundsFilled (num : Numeric) (db : Db) (event : BrokerExecutionEvent) : Bool :=
  match db.orders.find event.orderId with
  | none => false
  | some order =>
    decide (event.eventType.isFill = true ∧ order.status ∈ workingStatuses ∧
      event.filledQuantity ≤ order.remainingQuantity ∧
      ¬ num.Keeps (order.filledQuantity + event.filledQuantity)) &&
      (db.processedBrokerEvents.find event.eventId).isNone

def Op.keepsFilled (num : Numeric) (db : Db) : Op → Bool
  | .processEvent event => !roundsFilled num db event
  | _ => true

structure Db.Audited (db : Db) : Prop where
  replays : ∀ o ∈ db.orders.rows,
    Recounts (db.auditLog o.id) o.status o.filledQuantity o.cancelledQuantity
  uncancelled : ∀ o ∈ db.orders.rows, o.status ∈ workingStatuses → o.cancelledQuantity = 0
  known : ∀ e ∈ db.orderEvents, (db.orders.find e.orderId).isSome

section Steps

variable {num : Numeric} {db db' : Db} {event : BrokerExecutionEvent}

theorem FillAttempt.roundsFilled_iff (t : FillAttempt db event) :
    roundsFilled num db event = true ↔
      ¬ num.Keeps (t.order.filledQuantity + event.filledQuantity) := by
  simp [roundsFilled, t.found, t.unprocessed, t.isFill, t.working, t.covered]

theorem Db.auditLog_append {es : List OrderEvent} {k : UUID}
    (events : db'.orderEvents = db.orderEvents ++ es) (own : ∀ e ∈ es, e.orderId = k) :
    db'.auditLog k = db.auditLog k ++ es := by
  unfold Db.auditLog
  rw [events, List.filter_append, List.filter_eq_self.2 fun e he => decide_eq_true (own e he)]

theorem Db.auditLog_other {es : List OrderEvent} {k k' : UUID}
    (events : db'.orderEvents = db.orderEvents ++ es) (own : ∀ e ∈ es, e.orderId = k)
    (other : k ≠ k') : db'.auditLog k' = db.auditLog k' := by
  unfold Db.auditLog
  have none_ : es.filter (fun e => decide (e.orderId = k')) = [] := by
    refine List.filter_eq_nil_iff.2 fun e he => ?_
    simp [own e he, other]
  rw [events, List.filter_append, none_, List.append_nil]

theorem Db.Audited.unlogged (h : db.Audited) {k : UUID} (missing : db.orders.find k = none) :
    db.auditLog k = [] := by
  refine List.filter_eq_nil_iff.2 fun e he => ?_
  have := h.known e he
  simp only [decide_eq_true_eq]
  rintro rfl
  simp [missing] at this

theorem Db.Audited.write (h : db.Audited) (o' : Order) {es : List OrderEvent}
    (orders : db'.orders = db.orders.put (o'.stored num))
    (events : db'.orderEvents = db.orderEvents ++ es) (own : ∀ e ∈ es, e.orderId = o'.id)
    (replays : Recounts (db.auditLog o'.id ++ es) o'.status o'.filledQuantity o'.cancelledQuantity)
    (filled : num.Keeps o'.filledQuantity) (cancelled : num.Keeps o'.cancelledQuantity)
    (uncancelled : o'.status ∈ workingStatuses → o'.cancelledQuantity = 0) : db'.Audited where
  replays o mem := by
    rw [orders] at mem
    rcases Table.mem_put.1 mem with rfl | ⟨old, other⟩
    · rw [Order.stored_id, Db.auditLog_append events own]
      rw [← show num.round o'.filledQuantity = o'.filledQuantity from filled,
        ← show num.round o'.cancelledQuantity = o'.cancelledQuantity from cancelled] at replays
      exact replays
    · rw [Db.auditLog_other events own (Ne.symm other)]
      exact h.replays o old
  uncancelled := by
    rw [orders]
    refine Table.forall_put (fun working => ?_) h.uncancelled
    exact (congrArg num.round (uncancelled working)).trans num.round_zero
  known e he := by
    rw [events] at he
    rw [orders]
    rcases List.mem_append.1 he with old | isNew
    · exact Table.find_put_isSome _ (h.known e old)
    · rw [own e isNew]
      exact Option.isSome_of_eq_some (Table.find_put_self db.orders (o'.stored num))

theorem fillData_quantity (price : ℚ) :
    (fillData event price).lookup "quantity" = some (.decimal event.filledQuantity) := rfl

theorem Concluded.replays {log es : List OrderEvent} {b o' : Order} {a a' : Account} {price c : ℚ}
    {f : ℚ} (h : Concluded (fillData event price) b a o' a' es)
    (working : b.status ∈ workingStatuses)
    (before : Recounts log b.status f c) :
    Recounts (log ++ es) o'.status (f + event.filledQuantity)
        (c + (o'.cancelledQuantity - b.cancelledQuantity)) := by
  have quantity : (fillData event price).lookup "quantity" = some (.decimal event.filledQuantity) :=
    fillData_quantity price
  cases h with
  | filled done =>
    have step := before.append (e := ⟨b.id, .fullFillReceived, some b.status, some .filled,
      fillData event price⟩) rfl rfl (Or.inr (working_allows_filled working))
    simpa [OrderEvent.filled, OrderEvent.cancelled, OrderEvent.decimal, quantity, Order.moved]
      using step
  | ioc rest ioc release =>
    have first := before.append (e := ⟨b.id, .partialFillReceived, some b.status, some b.status,
      fillData event price⟩) rfl rfl (Or.inl rfl)
    have cancelled : (fillData event price ++
        [("cancelled_quantity", DataValue.decimal b.remainingQuantity),
          ("reason", .text "IOC remainder cancelled")]).lookup "cancelled_quantity" =
        some (.decimal b.remainingQuantity) := rfl
    have second := first.append (e := ⟨b.id, .orderCancelled, some b.status, some .cancelled,
      fillData event price ++ [("cancelled_quantity", .decimal b.remainingQuantity),
        ("reason", .text "IOC remainder cancelled")]⟩) rfl rfl
      (Or.inr (working_allows_cancelled working))
    simpa [OrderEvent.filled, OrderEvent.cancelled, OrderEvent.decimal, quantity, cancelled,
      Order.moved, Order.cancelRest] using second
  | first rest resting routed =>
    have step := before.append (e := ⟨b.id, .partialFillReceived, some b.status,
      some .partiallyFilled, fillData event price⟩) rfl rfl (Or.inr (by rw [routed]; decide))
    simpa [OrderEvent.filled, OrderEvent.cancelled, OrderEvent.decimal, quantity, Order.moved]
      using step
  | further =>
    have step := before.append (e := ⟨b.id, .partialFillReceived, some b.status, some b.status,
      fillData event price⟩) rfl rfl (Or.inl rfl)
    simpa [OrderEvent.filled, OrderEvent.cancelled, OrderEvent.decimal, quantity] using step

theorem Placement.replays {settings : Settings} {draw : CreateDraw} {payload : OrderCreate}
    (t : Placement db settings draw payload) :
    Recounts [t.created, t.rejection] .rejected 0 0 ∧
      Recounts [t.created, t.validation, t.routing] .routed 0 0 := by
  have created : Recounts [t.created] .new 0 0 := .creation rfl rfl rfl
  have validated : Recounts [t.created, t.validation] .validated 0 0 :=
    created.transition rfl rfl (by decide) rfl rfl
  exact ⟨created.transition rfl rfl (by decide) rfl rfl,
    validated.transition rfl rfl (by decide) rfl rfl⟩

variable {S : Deployment}

theorem AppliedFill.replays (t : AppliedFill num db event) (audited : db.Audited) :
    Recounts (db.auditLog t.order.id ++ t.log) t.final.status
      (t.order.filledQuantity + event.filledQuantity) t.final.cancelledQuantity := by
  have before := audited.replays t.order (Table.mem_of_find t.found)
  rw [← t.booked_status] at before
  have after := t.conclude.replays (t.booked_status ▸ t.working) before
  have same : t.booked.cancelledQuantity = t.order.cancelledQuantity := by
    obtain ⟨-, booked⟩ := Order.bookFill_ok t.book
    rw [booked]
  rwa [same, add_sub_cancel] at after

theorem Concluded.cancelledQuantity {data : EventData} {o o' : Order} {a a' : Account}
    {es : List OrderEvent} (h : Concluded data o a o' a' es) :
    o'.cancelledQuantity = o.cancelledQuantity ∨ o'.status = .cancelled ∧
      o'.cancelledQuantity = o.cancelledQuantity + o.remainingQuantity ∧
      o'.remainingQuantity = 0 := by
  cases h with
  | ioc => exact Or.inr ⟨rfl, rfl, rfl⟩
  | filled | first | further => exact Or.inl rfl

theorem AppliedFill.final_cancelled (t : AppliedFill num db event) (sound : db.Sound num)
    (uncancelled : t.order.cancelledQuantity = 0)
    (keeps : num.Keeps (t.order.filledQuantity + event.filledQuantity)) :
    num.Keeps t.final.cancelledQuantity ∧
      (t.final.status ∈ workingStatuses → t.final.cancelledQuantity = 0) := by
  have mem := Table.mem_of_find t.found
  rcases t.conclude.cancelledQuantity with same | ⟨status, cancelled, rest⟩
  · obtain ⟨-, booked⟩ := Order.bookFill_ok t.book
    have zero : t.final.cancelledQuantity = 0 := by rw [same, booked, uncancelled]
    exact ⟨zero ▸ num.keeps_zero, fun _ => zero⟩
  refine ⟨?_, fun working => absurd working (by rw [status]; decide)⟩
  -- the columns of the row add up, and all but one keep what they are given
  have before := (sound.conserved mem).sum
  have after := (Order.conserved_of_violation t.kept.order).sum
  have whole : num.round t.final.quantity = t.order.quantity := by
    rw [t.frozen.quantity]
    exact congrArg Order.quantity (sound.orders t.order mem).1
  have kept : num.round t.final.filledQuantity = t.order.filledQuantity + event.filledQuantity := by
    rw [t.final_filled]
    exact keeps
  obtain ⟨-, booked⟩ := Order.bookFill_ok t.book
  simp only [Order.stored, whole, kept, rest, num.round_zero, add_zero] at after
  rw [uncancelled] at before
  change num.round t.final.cancelledQuantity = t.final.cancelledQuantity
  rw [eq_sub_of_add_eq' after, cancelled, booked]
  dsimp only
  linarith

theorem Released.replays {o final : Order} {record : OrderEvent} (h : Released event o final record)
    {log : List OrderEvent} (before : Recounts log o.status o.filledQuantity o.cancelledQuantity)
    (uncancelled : o.cancelledQuantity = 0) :
    Recounts (log ++ [record]) final.status final.filledQuantity final.cancelledQuantity ∧
      record.orderId = final.id ∧ final.filledQuantity = o.filledQuantity ∧
      (final.cancelledQuantity = o.cancelledQuantity ∨
        final.cancelledQuantity = o.remainingQuantity) := by
  cases h with
  | rejected rejection routed =>
    have step := before.transition (e := ⟨o.id, .orderRejected, some o.status, some .rejected,
      [("broker_event_id", .uuid event.eventId),
        ("reason", .text (orDefault event.reason "Rejected by broker"))]⟩) rfl rfl
      (by rw [routed]; decide) rfl rfl
    exact ⟨step, rfl, rfl, Or.inl rfl⟩
  | cancelled cancellation working =>
    have step := before.append (e := ⟨o.id, .orderCancelled, some o.status, some .cancelled,
      [("broker_event_id", .uuid event.eventId),
        ("cancelled_quantity", .decimal o.remainingQuantity),
        ("reason", .text (orDefault event.reason "Cancelled by broker"))]⟩) rfl rfl
      (Or.inr (working_allows_cancelled working))
    have cancelled : [("broker_event_id", DataValue.uuid event.eventId),
        ("cancelled_quantity", .decimal o.remainingQuantity),
        ("reason", .text (orDefault event.reason "Cancelled by broker"))].lookup
          "cancelled_quantity" = some (.decimal o.remainingQuantity) := rfl
    refine ⟨by simpa [OrderEvent.filled, OrderEvent.cancelled, OrderEvent.decimal, Order.moved,
      Order.cancelRest, cancelled] using step, rfl, rfl, Or.inr ?_⟩
    simp [Order.moved, Order.cancelRest, uncancelled]

theorem Change.audited {op : Op} (h : Change S db op db') (sound : db.Sound S.num)
    (decided : db.Decided) (audited : db.Audited) (keeps : op.keepsFilled S.num db = true) :
    db'.Audited := by
  have zero := S.num.keeps_zero
  have row : ∀ {k : UUID} {o : Order}, db.orders.find k = some o →
      Recounts (db.auditLog o.id) o.status o.filledQuantity o.cancelledQuantity ∧
      S.num.Keeps o.filledQuantity ∧ S.num.Keeps o.cancelledQuantity := fun found => by
    have mem := Table.mem_of_find found
    obtain ⟨filled, cancelled, -⟩ := Order.stored_quantities (sound.orders _ mem).1
    exact ⟨audited.replays _ mem, filled, cancelled⟩
  cases h with
  | unchanged | ticked => exact ⟨audited.replays, audited.uncancelled, audited.known⟩
  | @refused draw payload t inserted short =>
    have empty : db.auditLog t.rejected.id = [] := audited.unlogged (t.unplaced inserted)
    exact audited.write t.rejected rfl rfl (by simp; exact ⟨rfl, rfl⟩)
      (by rw [empty]; exact t.replays.1) zero zero fun _ => rfl
  | routed t inserted covered kept =>
    have empty : db.auditLog t.routed.id = [] := audited.unlogged (t.unplaced inserted)
    exact audited.write t.routed rfl rfl (by simp; exact ⟨rfl, rfl, rfl⟩)
      (by rw [empty]; exact t.replays.2) zero zero fun _ => rfl
  | @ignored event order reason found unprocessed ignores =>
    obtain ⟨replays, filled, cancelled⟩ := row found
    have mem := Table.mem_of_find found
    have same : db.orders = db.orders.put (order.stored S.num) := by
      rw [(sound.orders order mem).1, Table.put_self ((Table.find_key found).symm ▸ found)]
    exact audited.write _ same rfl (by simp) (replays.note rfl rfl rfl rfl) filled cancelled
      (audited.uncancelled order mem)
  | @filled event t =>
    have mem := Table.mem_of_find t.found
    have kept : S.num.Keeps (t.order.filledQuantity + event.filledQuantity) := by
      by_contra rounds
      rw [← t.roundsFilled_iff] at rounds
      simp [Op.keepsFilled, rounds] at keeps
    obtain ⟨cancelled, uncancelled⟩ :=
      t.final_cancelled sound (audited.uncancelled t.order mem t.working) kept
    have replays := t.replays audited
    rw [← t.final_filled, show t.order.id = t.final.id from t.frozen.id.symm] at replays
    refine audited.write t.final (by simp [AppliedFill.after]) rfl (fun e he => ?_) replays
      (t.final_filled ▸ kept) cancelled uncancelled
    rw [t.conclude.log_orderId e he, t.conclude.order_id]
  | @released event order final account left record found unprocessed accountFound becomes =>
    obtain ⟨before, filled, cancelled⟩ := row found
    have mem := Table.mem_of_find found
    have rest := (Order.stored_quantities (sound.orders order mem).1).2.2
    have none_ := audited.uncancelled order mem becomes.working
    obtain ⟨replays, own, same, cancels⟩ := becomes.replays before none_
    rw [← becomes.frozen.id] at replays
    refine audited.write final (by simp) rfl (by simpa using own) replays (same ▸ filled) ?_
      fun working => ?_
    · rcases cancels with eq | eq
      · exact eq ▸ cancelled
      · exact eq ▸ rest
    · cases becomes <;> exact absurd working (by simp [Order.moved, workingStatuses])
  | @cancelRequested orderId reason order found cancellable =>
    obtain ⟨before, filled, cancelled⟩ := row found
    have mem := Table.mem_of_find found
    have step := before.transition (e := ⟨order.id, .cancelRequested, some order.status,
      some .cancelPending, [("reason", .text reason)]⟩) rfl rfl
      (by revert cancellable; cases order.status <;> decide) rfl rfl
    refine audited.write (order.moved .cancelPending) rfl rfl (by simp; rfl) step filled
      cancelled fun _ => ?_
    exact audited.uncancelled order mem (decided.working mem cancellable)
  | @routingFailed orderId reason order account found wasRouted accountFound kept =>
    obtain ⟨before, filled, cancelled⟩ := row found
    have step := before.transition (e := ⟨order.id, .orderRejected, some order.status,
      some .rejected, [("reason", .text ("Broker routing failed: " ++ reason))]⟩) rfl rfl
      (by rw [wasRouted]; decide) rfl rfl
    exact audited.write ((order.unroutable reason).moved .rejected) (by simp) rfl
      (by simp; rfl) step filled cancelled fun working =>
        absurd working (by simp [Order.moved, workingStatuses])

theorem Change.log_prefix {op : Op} (h : Change S db op db') :
    db.orderEvents <+: db'.orderEvents := by
  cases h with
  | unchanged | ticked => exact List.prefix_refl _
  | refused | routed | ignored | filled | released | cancelRequested | routingFailed =>
    exact List.prefix_append _ _

theorem AppliedFill.not_replays (t : AppliedFill num db event) (audited : db.Audited)
    (rounds : roundsFilled num db event = true) :
    ¬ Recounts (t.after.auditLog t.order.id) (t.final.stored num).status
      (t.final.stored num).filledQuantity (t.final.stored num).cancelledQuantity := by
  intro after
  have own : ∀ e ∈ t.log, e.orderId = t.order.id := fun e he =>
    (t.conclude.log_orderId e he).trans t.booked_id
  rw [Db.auditLog_append rfl own] at after
  refine t.roundsFilled_iff.1 rounds ?_
  have sums := (t.replays audited).filled.symm.trans after.filled
  exact (congrArg num.round t.final_filled).symm.trans sums.symm

end Steps

/-- In every run whose fills are not rounded, the audit log replays to every order; records
are only ever appended; and a rounded fill breaks the replay. -/
theorem run_auditLog {S : Deployment} {db₀ : Db} (fresh : db₀.Fresh S.num)
    (unlogged : db₀.orderEvents = []) (ops : List Op)
    (keeps : Along (step S) (fun db op => op.keepsFilled S.num db = true) db₀ ops) :
    let db := run (step S) db₀ ops
    (∀ o ∈ db.orders.rows,
      Recounts (db.auditLog o.id) o.status o.filledQuantity o.cancelledQuantity) ∧
    (∀ after, db.orderEvents <+: (run (step S) db after).orderEvents) ∧
    ∀ event, ∀ t : AppliedFill S.num db event, roundsFilled S.num db event = true →
      ∃ o ∈ t.after.orders.rows,
        ¬ Recounts (t.after.auditLog o.id) o.status o.filledQuantity o.cancelledQuantity := by
  intro db
  have start : db₀.Audited :=
    ⟨by simp [fresh.orders], by simp [fresh.orders], by simp [unlogged]⟩
  have inv : db.Sound S.num ∧ db.Decided ∧ db.Audited :=
    run_invariant_along (fun db => db.Sound S.num ∧ db.Decided ∧ db.Audited)
      (fun db op inv keeps =>
        have change := step_change S inv.1 op
        ⟨change.sound inv.1, change.decided inv.2.1, change.audited inv.1 inv.2.1 inv.2.2 keeps⟩)
      ⟨fresh.sound, by simp [Db.Decided, fresh.orders], start⟩ keeps
  obtain ⟨sound, -, audited⟩ := inv
  refine ⟨audited.replays, fun after => ?_, fun event t rounds =>
    ⟨t.final.stored S.num, Table.mem_put_self _ _, ?_⟩⟩
  · exact run_induction S (fun now => db.orderEvents <+: now.orderEvents) sound
      (fun _ _ _ _ before change => before.trans change.log_prefix) (List.prefix_refl _)
  · rw [Order.stored_id, t.frozen.id]
    exact t.not_replays audited rounds

theorem run_auditLog_partialFill :
    let S : Deployment := ⟨.column 24 8, {}, id⟩
    let db :=
      run (step S) (traderDb S.num) [.createOrder ⟨2, 0⟩ limitBuy, .processEvent partialFill]
    (∃ o ∈ db.orders.rows, o.status = .partiallyFilled) ∧ ∀ o ∈ db.orders.rows,
      Recounts (db.auditLog o.id) o.status o.filledQuantity o.cancelledQuantity := by
  intro S db
  exact ⟨by decide +kernel, (run_auditLog (S := S) (openAccounts_fresh _ [(1, traderAccount)])
    (by decide +kernel) [.createOrder ⟨2, 0⟩ limitBuy, .processEvent partialFill]
    ⟨by decide +kernel, by decide +kernel, trivial⟩).1⟩

/-- The record of the fill of 9.999999996 keeps what the columns round to 10. -/
theorem not_replays_almostFullFill :
    let S : Deployment := ⟨.column 24 8, {}, id⟩
    let db := run (step S) (traderDb S.num)
      [.createOrder ⟨2, 0⟩ limitBuy, .processEvent almostFullFill]
    ∃ o ∈ db.orders.rows, o.filledQuantity = 10 ∧
      ((db.auditLog o.id).map OrderEvent.filled).sum = 9999999996 / 1000000000 ∧
      ¬ Recounts (db.auditLog o.id) o.status o.filledQuantity o.cancelledQuantity := by
  have row : ∃ o ∈ (run (step ⟨.column 24 8, {}, id⟩) (traderDb (.column 24 8))
      [.createOrder ⟨2, 0⟩ limitBuy, .processEvent almostFullFill]).orders.rows,
      o.filledQuantity = 10 ∧ (((run (step ⟨.column 24 8, {}, id⟩) (traderDb (.column 24 8))
        [.createOrder ⟨2, 0⟩ limitBuy, .processEvent almostFullFill]).auditLog o.id).map
          OrderEvent.filled).sum = 9999999996 / 1000000000 := by decide +kernel
  obtain ⟨o, mem, filled, sum⟩ := row
  refine ⟨o, mem, filled, sum, fun replays => ?_⟩
  have := sum.symm.trans (replays.filled.trans filled)
  norm_num at this

end OrderManagement
