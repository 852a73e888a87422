import OrderManagement.FillOutcomes

/-! Symbolic execution of `process_event`: every run ends in an `EventEffect` or
raises one of the `EventFailure`s. -/

namespace OrderManagement

open Program

variable {num : Numeric} {db : Db} {event : BrokerExecutionEvent}

theorem Concluded.order_id {data : EventData} {o o' : Order} {a a' : Account}
    {es : List OrderEvent} (h : Concluded data o a o' a' es) : o'.id = o.id := by
  cases h <;> rfl

theorem Concluded.account_id {data : EventData} {o o' : Order} {a a' : Account}
    {es : List OrderEvent} (h : Concluded data o a o' a' es) : a'.id = a.id := by
  cases h with
  | filled => rfl
  | ioc rest ioc release => exact releaseRemainingReservation_id release
  | first => rfl
  | further => rfl

theorem FillSettled.booked_id (t : FillSettled db event) : t.booked.id = t.order.id := by
  obtain ⟨-, eq⟩ := Order.bookFill_ok t.book
  rw [eq]

theorem FillSettled.booked_accountId (t : FillSettled db event) :
    t.booked.accountId = t.order.accountId := by
  obtain ⟨-, eq⟩ := Order.bookFill_ok t.book
  rw [eq]

theorem FillSettled.booked_status (t : FillSettled db event) :
    t.booked.status = t.order.status := by
  obtain ⟨-, eq⟩ := Order.bookFill_ok t.book
  rw [eq]

theorem FillSettled.settled_id (t : FillSettled db event) : t.settled.id = t.order.accountId :=
  (Account.settleFill_id t.settle).trans (Table.find_key t.accountFound)

/-- What an applied fill leaves before the event is recorded as processed. -/
def AppliedFill.booking (t : AppliedFill num db event) : Db :=
  { db.booked num t.final t.finalAccount (some t.executed) t.log with
    fills := db.fills.put (t.fill.stored num) }

/-- The end of an applied fill, from any database in which booking the concluded
rows gives what booking them in `db` gives. -/
theorem concludeFill_applied (t : FillSettled db event) {executed : Position} {db' : Db}
    {s : Session} {Q : Session → Db → Prop}
    (execute : t.held.executed t.order.side event.filledQuantity t.price t.mark = .ok executed)
    (fillKept : (t.fill.stored num).refusal num db = none)
    (holds : s.Holds t.booked t.settled (some executed)) (synced : s.Synced num db')
    (collapse : ∀ (o : Order) (a : Account) (es : List OrderEvent), o.id = t.booked.id →
      a.id = t.settled.id → db'.booked num o a (some executed) es =
        { db.booked num o a (some executed) es with
          fills := db.fills.put (t.fill.stored num) })
    (done : ∀ (f : AppliedFill num db event) (u : Session), Q u f.booking) :
    (concludeFill s (fillData event t.price)).wp (postgres num) Q (EventFailure num db event)
      db' := by
  refine concludeFill_spec (t.booked_status ▸ t.working) holds synced
    (t.settled_id.trans t.booked_accountId.symm) (fun f hf => .executedRow t execute hf)
    (fun f rest ioc hf => .releaseRest t rest ioc hf)
    (fun o a es conclude f hf => .concludedRow t execute conclude hf) ?_
  intro o a es conclude settledKept kept u
  rw [collapse o a es conclude.order_id conclude.account_id]
  exact done { t with executed, final := o, finalAccount := a, log := es, fillKept, execute,
                      conclude, settledKept, kept } u

theorem applyExecution_spec (sound : db.Sound num) (t : FillSettled db event) {db' : Db}
    {s : Session} {Q : Session → Db → Prop}
    (fillKept : (t.fill.stored num).refusal num db = none)
    (order : s.order.attrs = t.booked) (account : s.account = some ⟨t.account, t.settled⟩)
    (noPosition : s.position = none) (synced : s.Synced num db')
    (rows : db' = { db.flushed num { order := .of t.booked } with
      fills := db.fills.put (t.fill.stored num) })
    (done : ∀ (f : AppliedFill num db event) (u : Session), Q u f.booking) :
    (applyExecution s event.filledQuantity t.price >>= fun s =>
      concludeFill s (fillData event t.price)).wp (postgres num) Q (EventFailure num db event)
      db' := by
  have holding : (t.booked.accountId, t.booked.symbol) = (t.order.accountId, t.order.symbol) := by
    obtain ⟨-, eq⟩ := Order.bookFill_ok t.book
    rw [eq]
  have symbol : t.booked.symbol = t.order.symbol := congrArg Prod.snd holding
  have side : t.booked.side = t.order.side := by
    obtain ⟨-, eq⟩ := Order.bookFill_ok t.book
    rw [eq]
  have positions : db'.positions = db.positions := by rw [rows]; rfl
  have prices : db'.marketPrices = db.marketPrices := by rw [rows]; rfl
  have mark : ((db'.marketPrices.find t.order.symbol).map MarketPrice.price).getD t.price =
      t.mark := by rw [prices]; rfl
  unfold applyExecution
  simp only [wp_bind, order, side, symbol, wp_positionForUpdate, wp_marketPrice, mark, positions,
    t.booked_accountId]
  cases found : db.positions.find (t.order.accountId, t.order.symbol) with
  | some row =>
    have held : t.held = row := by simp [FillAttempt.held, found]
    simp only [wp_bind, wp_liftExcept, wp_pure]
    refine ⟨fun executed execute => ?_, fun f error => .execute t (held.symm ▸ error)⟩
    have kept := sound.positions row (Table.mem_of_find found)
    refine concludeFill_applied t (held.symm ▸ execute) fillKept
      ⟨order, by simp [account], rfl⟩ ?_ ?_ done
    · refine ⟨synced.order, synced.orderSound, synced.orderId, synced.account, fun p hp => ?_⟩
      obtain rfl := Option.some.inj hp
      refine ⟨?_, kept.1.symm ▸ kept.2, Position.executed_holding execute⟩
      rw [positions, Table.find_key found, kept.1]
      exact found
    · intro o a es sameOrder _
      rw [rows]
      apply Db.ext <;> try rfl
      exact Table.put_put sameOrder.symm
  | none =>
    have held : t.held = t.opened := by simp [FillAttempt.held, found]
    have holdsBefore : s.Holds t.booked t.settled none :=
      ⟨order, by simp [account], by simp [noPosition]⟩
    simp only [wp_bind]
    refine wp_flush synced (fun f hf => .settledRow t (holdsBefore.refused hf)) ?_
    intro accepted
    rw [wp_insertPosition]
    have noConflict : ((t.opened.stored num).refusal num (db'.flushed num s)) =
        (t.opened.stored num).violation num := by
      have absent : (db'.flushed num s).positions.find t.opened.holding = none := by
        simp only [Db.flushed, noPosition, positions]
        exact found
      simp [Position.refusal, absent, conflict]
    change (∀ f, (t.opened.stored num).refusal num (db'.flushed num s) = some f → _) ∧
      ((t.opened.stored num).refusal num (db'.flushed num s) = none → _)
    rw [noConflict]
    refine ⟨fun f hf => .openedRow t hf, fun opened => ?_⟩
    simp only [wp_liftExcept, wp_pure]
    refine ⟨fun executed execute => ?_, fun f error => .execute t (held.symm ▸ error)⟩
    have again := accepted.synced_flushed db'
    refine concludeFill_applied t (held.symm ▸ execute) fillKept
      ⟨order, by simp [Session.flushed, account, Instance.flushed, Instance.of], rfl⟩ ?_ ?_ done
    · refine ⟨again.order, again.orderSound, again.orderId, again.account, fun p hp => ?_⟩
      obtain rfl := Option.some.inj hp
      refine ⟨?_, opened, Position.executed_holding execute⟩
      exact Table.find_put_self _ (t.opened.stored num)
    · intro o a es sameOrder sameAccount
      have key : t.opened.holding = executed.holding := (Position.executed_holding execute).symm
      rw [rows]
      apply Db.ext <;> try rfl
      · simp only [Db.booked, Db.logged, Db.flushed, account]
        exact Table.put_put sameAccount.symm
      · simp only [Db.booked, Db.logged, Db.flushed, order, Instance.of]
        rw [Table.put_put rfl]
        exact Table.put_put sameOrder.symm
      · simp only [Db.booked, Db.logged, Db.flushed, noPosition]
        exact Table.put_put key

section Dispatch

variable {Q : Session × Verdict → Db → Prop} {order : Order}

theorem applyFill_spec (sound : db.Sound num) (found : db.orders.find event.orderId = some order)
    (unprocessed : db.processedBrokerEvents.find event.eventId = none)
    (isFill : event.eventType.isFill = true)
    (ignored : ∀ reason, Ignores order event reason →
      Q ({ order := .of order }, false, some reason) db)
    (filled : ∀ (f : AppliedFill num db event) (u : Session), Q (u, true, none) f.booking) :
    (applyFill { order := .of order } event).wp (postgres num) Q (EventFailure num db event)
      db := by
  have synced := sound.synced found
  unfold applyFill
  by_cases working : order.status ∈ workingStatuses
  swap
  · simpa [Instance.of, working] using ignored _ (.fillOfDone isFill working)
  obtain ⟨positive, ⟨price, priced, -⟩, -⟩ := event.validateFillPayload isFill
  have positive := not_le.2 positive
  by_cases beyond : order.remainingQuantity < event.filledQuantity
  · simpa [Instance.of, working, priced, positive, beyond] using
      ignored _ (.overfill isFill working beyond)
  by_cases part : event.eventType = .fullFill ∧ event.filledQuantity ≠ order.remainingQuantity
  · simpa [Instance.of, working, priced, positive, beyond, part] using
      ignored _ (.partOfFull part.1 working (lt_of_le_of_ne (not_lt.1 beyond) part.2))
  simp only [Instance.of, working, not_true_eq_false, if_false, priced, positive, gt_iff_lt, beyond,
    part]
  have whole : event.eventType = .fullFill → event.filledQuantity = order.remainingQuantity :=
    fun full => by_contra fun ne => part ⟨full, ne⟩
  let attempt : FillAttempt db event :=
    { order, price, found, unprocessed, isFill, working, priced,
      covered := not_lt.1 beyond, whole }
  rw [wp_bind, wp_liftExcept]
  refine ⟨fun booked book => ?_, fun f error => .book attempt error⟩
  have sameId : booked.id = order.id := by
    obtain ⟨-, eq⟩ := Order.bookFill_ok book
    rw [eq]
  have sameAccount : booked.accountId = order.accountId := by
    obtain ⟨-, eq⟩ := Order.bookFill_ok book
    rw [eq]
  rw [wp_bind]
  refine wp_flush (synced.set_order sameId) ?_ ?_
  · rintro f (⟨held, -⟩ | refused | ⟨held, -⟩)
    · cases held
    · exact .bookedRow attempt book refused
    · cases held
  intro accepted
  rw [wp_bind, wp_insertFill]
  refine ⟨fun f refused => .fillRow attempt refused, fun fillKept => ?_⟩
  rw [wp_bind]
  refine wp_accountForUpdate_fresh rfl (fun missing => ?_) ?_
  · change EventFailure num db event (.domain (.accountNotFound booked.accountId))
    rw [sameAccount]
    exact .accountNotFound found (sameAccount ▸ missing)
  intro account accountFound
  have accountFound : db.accounts.find order.accountId = some account :=
    sameAccount ▸ accountFound
  rw [wp_bind, wp_liftExcept]
  refine ⟨fun settled settle => ?_, fun f error => .settle attempt accountFound error⟩
  let t : FillSettled db event :=
    { attempt with booked, account, settled, book, accountFound, settle }
  have accountSound := sound.accounts account (Table.mem_of_find accountFound)
  -- the database and the session when `apply_execution` is called
  let db' : Db := { db.flushed num { order := .of booked } with
    fills := db.fills.put (t.fill.stored num) }
  let s : Session := { order := .of booked, account := some ⟨account, settled⟩ }
  have before : Session.Synced num db' { order := .of booked } :=
    (accepted.synced_flushed db).of_tables rfl rfl rfl
  have now : s.Synced num db' := by
    refine ⟨before.order, before.orderSound, before.orderId, fun a ha => ?_, by simp [s]⟩
    obtain rfl := Option.some.inj ha
    rw [accountSound.1]
    exact ⟨(Table.find_key accountFound).symm ▸ accountFound, accountSound.2,
      Account.settleFill_id settle⟩
  have execution : (applyExecution s event.filledQuantity price >>= fun s =>
      concludeFill s (fillData event price)).wp (postgres num) (fun u d => Q (u, true, none) d)
      (EventFailure num db event) db' :=
    applyExecution_spec sound t fillKept rfl rfl rfl now rfl fun f u => filled f u
  simp only [wp_bind, wp_pure] at execution ⊢
  exact execution

theorem applyRejection_spec (sound : db.Sound num)
    (found : db.orders.find event.orderId = some order)
    (unprocessed : db.processedBrokerEvents.find event.eventId = none)
    (rejection : event.eventType = .rejected)
    (ignored : ∀ reason, Ignores order event reason →
      Q ({ order := .of order }, false, some reason) db)
    (released : ∀ final account left record,
      db.accounts.find order.accountId = some account → Released event order final record →
      releaseRemainingReservation account order = .ok left → AcceptedRows num final left none →
      ∀ u, Q (u, true, none) (db.booked num final left none [record])) :
    (applyRejection { order := .of order } event).wp (postgres num) Q (EventFailure num db event)
      db := by
  have synced := sound.synced found
  unfold applyRejection
  by_cases routed : order.status = .routed
  swap
  · simpa [Instance.of, routed] using ignored _ (.rejectionOfUnrouted rejection routed)
  simp only [Instance.of, routed, ne_eq, not_true_eq_false, if_false, wp_bind]
  refine wp_accountForUpdate_fresh rfl (fun missing => .accountNotFound found missing) ?_
  intro account accountFound
  have accountSound := sound.accounts account (Table.mem_of_find accountFound)
  have becomes := @Released.rejected event order rejection routed
  simp only [wp_liftExcept]
  refine ⟨fun left release => ?_,
    fun f error => .release found unprocessed accountFound becomes error⟩
  let s : Session := { order := .of order, account := some ⟨account, left⟩ }
  let refusedOrder (o : Order) : Order :=
    { o with rejectionReason := some (orDefault event.reason "Rejected by broker") }
  have synced : (s.setOrder refusedOrder).Synced num db :=
    (sound.synced_account found accountFound (releaseRemainingReservation_id release)).set_order rfl
  have holds : (s.setOrder refusedOrder).Holds (refusedOrder order) left none := ⟨rfl, rfl, rfl⟩
  have allowed : OrderStatus.rejected ∈ allowedTransitions order.status := by
    rw [routed]
    decide
  exact holds.wp_transition synced allowed
    (fun f refused => .releasedRow found unprocessed accountFound becomes release refused)
    fun accepted u _ _ _ => released _ _ _ _ accountFound becomes release accepted u

theorem applyCancellation_spec (sound : db.Sound num)
    (found : db.orders.find event.orderId = some order)
    (unprocessed : db.processedBrokerEvents.find event.eventId = none)
    (cancellation : event.eventType = .cancelled)
    (ignored : ∀ reason, Ignores order event reason →
      Q ({ order := .of order }, false, some reason) db)
    (released : ∀ final account left record,
      db.accounts.find order.accountId = some account → Released event order final record →
      releaseRemainingReservation account order = .ok left → AcceptedRows num final left none →
      ∀ u, Q (u, true, none) (db.booked num final left none [record])) :
    (applyCancellation { order := .of order } event).wp (postgres num) Q
      (EventFailure num db event) db := by
  unfold applyCancellation
  by_cases working : order.status ∈ workingStatuses
  swap
  · simpa [Instance.of, working] using ignored _ (.cancellationOfDone cancellation working)
  simp only [Instance.of, working, not_true_eq_false, if_false, wp_bind]
  have synced := sound.synced found
  cases accountFound : db.accounts.find order.accountId with
  | none =>
    unfold cancelRemaining
    rw [wp_bind]
    refine wp_accountForUpdate_fresh rfl (fun _ => .accountNotFound found accountFound) ?_
    intro row rowFound
    exact absurd (rowFound.symm.trans accountFound) (by simp)
  | some account =>
    obtain ⟨kept, checked⟩ := sound.accounts account (Table.mem_of_find accountFound)
    have key := Table.find_key accountFound
    have becomes := Released.cancelled cancellation working
    refine cancelRemaining_spec working rfl rfl synced (fun R done => ?_)
      (fun f error => .release found unprocessed accountFound becomes error)
      (fun left release f refused =>
        .releasedRow found unprocessed accountFound becomes release refused)
      fun left release accepted u => ?_
    · refine wp_accountForUpdate_fresh rfl
        (fun missing => absurd (accountFound.symm.trans missing) (by simp)) fun row rowFound => ?_
      obtain rfl : account = row := Option.some.inj (accountFound.symm.trans rowFound)
      exact done _ rfl rfl (kept.symm ▸ checked)
        (by simp only [Instance.of, kept, key, accountFound])
    · exact released _ _ _ _ accountFound becomes release accepted u

theorem dispatch_spec (sound : db.Sound num) (found : db.orders.find event.orderId = some order)
    (unprocessed : db.processedBrokerEvents.find event.eventId = none)
    (ignored : ∀ reason, Ignores order event reason →
      Q ({ order := .of order }, false, some reason) db)
    (filled : ∀ (f : AppliedFill num db event) (u : Session), Q (u, true, none) f.booking)
    (released : ∀ final account left record,
      db.accounts.find order.accountId = some account → Released event order final record →
      releaseRemainingReservation account order = .ok left → AcceptedRows num final left none →
      ∀ u, Q (u, true, none) (db.booked num final left none [record])) :
    (dispatch { order := .of order } event).wp (postgres num) Q (EventFailure num db event) db := by
  unfold dispatch
  cases kind : event.eventType with
  | fullFill | partialFill =>
    exact applyFill_spec sound found unprocessed (by rw [kind]; rfl) ignored filled
  | rejected => exact applyRejection_spec sound found unprocessed kind ignored released
  | cancelled => exact applyCancellation_spec sound found unprocessed kind ignored released

end Dispatch

theorem wp_insertProcessed_new {Q : Unit → Db → Prop} {X : Failure → Prop} {verdict : Verdict}
    (unprocessed : db.processedBrokerEvents.find event.eventId = none)
    (done : Q () (db.recorded event verdict)) :
    (issue (Stmt.insertProcessed (processedRow event verdict)) : Txn _).wp (postgres num) Q X
      db := by
  have kept : (processedRow event verdict).refusal db = none := by
    simp [ProcessedBrokerEvent.refusal, processedRow, conflict, unprocessed]
  rw [wp_insertProcessed, kept]
  exact ⟨by simp, fun _ => done⟩

theorem wp_appendIgnored {Q : Session → Db → Prop} {order : Order} {eventType : OrderEventType}
    {status : Option OrderStatus} {data : EventData} {verdict : Verdict} {X : Failure → Prop}
    (sound : db.Sound num) (found : db.orders.find event.orderId = some order)
    (done : ∀ u, Q u (({ db with orderEvents := db.orderEvents ++
      [⟨order.id, eventType, status, status, data⟩] } : Db).recorded event verdict)) :
    (appendEvent { order := .of order } eventType status status data).wp (postgres num) Q X
      (db.recorded event verdict) := by
  obtain ⟨kept, checked⟩ := sound.orders order (Table.mem_of_find found)
  have synced : Session.Synced num (db.recorded event verdict) { order := .of order } :=
    (sound.synced found).of_tables rfl rfl rfl
  refine wp_appendEvent synced ?_ fun _ => ?_
  · rintro f (⟨held, -⟩ | refused | ⟨held, -⟩)
    · cases held
    · rw [Instance.of, kept, checked] at refused
      cases refused
    · cases held
  · have same : db.orders.put (order.stored num) = db.orders := by
      rw [kept]
      exact Table.put_self ((Table.find_key found).symm ▸ found)
    have := done (Session.flushed { order := .of order })
    simp only [Db.logged, Db.flushed, Db.recorded, Instance.of, same]
    exact this

theorem processEvent_spec (sound : db.Sound num) :
    (processEvent event).wp (postgres num) (EventEffect num db event)
      (EventFailure num db event) db := by
  unfold processEvent
  simp only [wp_bind, wp_orderForUpdate]
  cases found : db.orders.find event.orderId with
  | none => exact .orderNotFound found
  | some order =>
    simp only [wp_bind, wp_processedByEventId]
    cases processed : db.processedBrokerEvents.find event.eventId with
    | some row => exact .duplicate found processed
    | none =>
      simp only [wp_bind]
      refine dispatch_spec sound found processed ?_ ?_ ?_
      · intro reason ignores
        refine wp_insertProcessed_new processed ?_
        simp only [Bool.false_eq_true, if_false, wp_bind]
        exact wp_appendIgnored sound found fun _ => .ignored found processed ignores
      · exact fun f u => wp_insertProcessed_new processed (.filled f)
      · exact fun final account left record accountFound becomes release accepted u =>
          wp_insertProcessed_new processed
            (.released found processed accountFound becomes release accepted)

end OrderManagement
