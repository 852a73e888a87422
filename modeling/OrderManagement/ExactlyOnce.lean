import OrderManagement.OrderRuns

/-! Exactly-once application. Which events have been processed is read and written
only by `process_event` itself, so a call that is not applied is invisible to every
later transaction. -/

namespace OrderManagement

open Program TransitionRuns

/-- Statements that concern no processed events but those of `known` ids. -/
def Stmt.Concerns (known : UUID → Prop) {β : Type} : Stmt β → Prop
  | .processedByEventId eventId => known eventId
  | .insertProcessed row => known row.brokerEventId
  | _ => True

section Uses

variable {known : UUID → Prop}

theorem flush_concerns (s : Session) : (flush s).Uses (Stmt.Concerns known) := by
  refine uses_bind ?_ fun _ => uses_bind (uses_issue trivial) fun _ => uses_bind ?_ fun _ => trivial
  · cases s.account with
    | none => trivial
    | some a => exact uses_issue trivial
  · cases s.position with
    | none => trivial
    | some p => exact uses_issue trivial

theorem appendEvent_concerns (s : Session) (eventType : OrderEventType)
    (previous new : Option OrderStatus) (data : EventData) :
    (appendEvent s eventType previous new data).Uses (Stmt.Concerns known) :=
  uses_bind (flush_concerns s) fun _ => uses_bind (uses_issue trivial) fun _ => trivial

theorem transition_concerns (s : Session) (target : OrderStatus) (eventType : OrderEventType)
    (data : EventData) : (transition s target eventType data).Uses (Stmt.Concerns known) :=
  uses_bind (uses_liftExcept _) fun _ => appendEvent_concerns _ _ _ _ _

theorem accountForUpdate_concerns (s : Session) : (accountForUpdate s).Uses (Stmt.Concerns known) :=
  uses_bind (uses_issue trivial) fun found => by cases found <;> trivial

theorem cancelRemaining_concerns (s : Session) (reason : String) (data : EventData) :
    (cancelRemaining s reason data).Uses (Stmt.Concerns known) :=
  uses_bind (accountForUpdate_concerns s) fun _ => uses_bind (uses_liftExcept _) fun _ =>
    transition_concerns _ _ _ _

theorem concludeFill_concerns (s : Session) (data : EventData) :
    (concludeFill s data).Uses (Stmt.Concerns known) :=
  uses_ite (transition_concerns _ _ _ _) <|
    uses_ite (uses_bind (appendEvent_concerns _ _ _ _ _) fun _ => cancelRemaining_concerns _ _ _) <|
      uses_ite (transition_concerns _ _ _ _) (appendEvent_concerns _ _ _ _ _)

theorem applyExecution_concerns (s : Session) (q price : ℚ) :
    (applyExecution s q price).Uses (Stmt.Concerns known) := by
  refine uses_bind (uses_issue trivial) fun found => uses_bind (uses_issue trivial) fun _ => ?_
  cases found with
  | some row => exact uses_bind (uses_liftExcept _) fun _ => trivial
  | none =>
    exact uses_bind (flush_concerns s) fun _ => uses_bind (uses_issue trivial) fun _ =>
      uses_bind (uses_liftExcept _) fun _ => trivial

theorem applyFill_concerns (s : Session) (event : BrokerExecutionEvent) :
    (applyFill s event).Uses (Stmt.Concerns known) := by
  refine uses_ite trivial ?_
  cases event.fillPrice with
  | none => trivial
  | some fillPrice =>
    refine uses_ite trivial (uses_ite trivial (uses_ite trivial ?_))
    exact uses_bind (uses_liftExcept _) fun _ => uses_bind (flush_concerns _) fun _ =>
      uses_bind (uses_issue trivial) fun _ => uses_bind (accountForUpdate_concerns _) fun _ =>
      uses_bind (uses_liftExcept _) fun _ => uses_bind (applyExecution_concerns _ _ _) fun _ =>
      uses_bind (concludeFill_concerns _ _) fun _ => trivial

theorem applyRejection_concerns (s : Session) (event : BrokerExecutionEvent) :
    (applyRejection s event).Uses (Stmt.Concerns known) :=
  uses_ite trivial <| uses_bind (accountForUpdate_concerns s) fun _ =>
    uses_bind (uses_liftExcept _) fun _ => uses_bind (transition_concerns _ _ _ _) fun _ => trivial

theorem applyCancellation_concerns (s : Session) (event : BrokerExecutionEvent) :
    (applyCancellation s event).Uses (Stmt.Concerns known) :=
  uses_ite trivial <| uses_bind (cancelRemaining_concerns _ _ _) fun _ => trivial

theorem dispatch_concerns (s : Session) (event : BrokerExecutionEvent) :
    (dispatch s event).Uses (Stmt.Concerns known) := by
  unfold dispatch
  cases event.eventType with
  | fullFill | partialFill => exact applyFill_concerns s event
  | rejected => exact applyRejection_concerns s event
  | cancelled => exact applyCancellation_concerns s event

theorem placeOrder_concerns (settings : Settings) (draw : CreateDraw) (payload : OrderCreate)
    (account : Instance Account) :
    (placeOrder settings draw payload account).Uses (Stmt.Concerns known) := by
  refine uses_bind (uses_issue trivial) fun _ => uses_bind (appendEvent_concerns _ _ _ _ _)
    fun session => ?_
  dsimp only
  cases ensureSufficientBuyingPower account.attrs.availableCash
    (requiredBuyingPower payload.side payload.quantity payload.price) with
  | error exc => exact uses_bind (transition_concerns _ _ _ _) fun _ => trivial
  | ok _ =>
    exact uses_bind (transition_concerns _ _ _ _) fun _ =>
      uses_bind (transition_concerns _ _ _ _) fun _ => trivial

theorem createOrder_concerns (settings : Settings) (draw : CreateDraw) (payload : OrderCreate) :
    (createOrder settings draw payload).Uses (Stmt.Concerns known) := by
  refine uses_bind (uses_issue trivial) fun found => ?_
  cases found with
  | none => trivial
  | some account =>
    refine uses_bind (uses_issue trivial) fun keyed => ?_
    cases keyed with
    | some existing => exact uses_ite trivial trivial
    | none =>
      refine uses_bind (uses_issue trivial) fun taken => ?_
      cases taken with
      | some _ => trivial
      | none => exact placeOrder_concerns _ _ _ _

theorem requestCancellation_concerns (orderId : UUID) (reason : String) :
    (requestCancellation orderId reason).Uses (Stmt.Concerns known) := by
  refine uses_bind (uses_issue trivial) fun found => ?_
  cases found with
  | none => trivial
  | some order =>
    exact uses_ite trivial <| uses_ite trivial <|
      uses_bind (transition_concerns _ _ _ _) fun _ => trivial

theorem markRoutingFailure_concerns (orderId : UUID) (reason : String) :
    (markRoutingFailure none orderId reason).Uses (Stmt.Concerns known) := by
  refine uses_bind (uses_issue trivial) fun found => ?_
  cases found with
  | none => trivial
  | some order =>
    exact uses_ite trivial <| uses_bind (accountForUpdate_concerns _) fun _ =>
      uses_bind (transition_concerns _ _ _ _) fun _ => trivial

theorem applyTick_concerns (upper : String → String) (symbol : String) (price : ℚ)
    (observedAt : Timestamp) :
    (applyTick upper symbol price observedAt).Uses (Stmt.Concerns known) := by
  have marks : ∀ ps, (markPositions price ps).Uses (Stmt.Concerns known) := by
    intro ps
    induction ps with
    | nil => trivial
    | cons p ps ih => exact uses_bind (uses_issue trivial) fun _ => ih
  refine uses_bind (uses_bind (uses_issue trivial) fun found => ?_) fun applied => ?_
  · cases found with
    | none => exact uses_bind (uses_issue trivial) fun _ => trivial
    | some found => exact uses_ite (uses_bind (uses_issue trivial) fun _ => trivial) trivial
  · exact uses_ite (uses_bind (uses_issue trivial) fun _ => marks _) trivial

theorem processEvent_concerns {event : BrokerExecutionEvent} (same : known event.eventId) :
    (processEvent event).Uses (Stmt.Concerns known) := by
  refine uses_bind (uses_issue trivial) fun found => ?_
  cases found with
  | none => trivial
  | some order =>
    refine uses_bind (uses_issue same) fun processed => ?_
    cases processed with
    | some _ => trivial
    | none =>
      exact uses_bind (dispatch_concerns _ _) fun _ => uses_bind (uses_issue same) fun _ =>
        uses_ite trivial (uses_bind (appendEvent_concerns _ _ _ _ _) fun _ => trivial)

end Uses

/-- Two databases that differ in audit records only, in that the first may know more
processed events, and in none of `known` ids. -/
structure Db.Alike (known : UUID → Prop) (x y : Db) : Prop where
  accounts : x.accounts = y.accounts
  orders : x.orders = y.orders
  fills : x.fills = y.fills
  positions : x.positions = y.positions
  marketPrices : x.marketPrices = y.marketPrices
  processed : ∀ e, x.processedBrokerEvents.find e = none → y.processedBrokerEvents.find e = none
  shared : ∀ e, known e → x.processedBrokerEvents.find e = y.processedBrokerEvents.find e

section Alike

variable {num : Numeric} {known : UUID → Prop} {x y : Db}

theorem Db.Alike.exec {β : Type} {s : Stmt β} (concerns : s.Concerns known)
    (alike : x.Alike known y) : exec num s x = exec num s y := by
  obtain ⟨accounts, orders, fills, positions, marketPrices, -, shared⟩ := alike
  cases s with
  | processedByEventId e => simp only [OrderManagement.exec, shared e concerns]
  | insertProcessed r =>
    simp only [OrderManagement.exec, ProcessedBrokerEvent.refusal, shared _ concerns]
  | _ =>
    simp only [OrderManagement.exec, Account.refusal, Order.refusal, Fill.refusal,
      Position.refusal, MarketPrice.refusal, Db.byClientOrderId, Db.byIdempotencyKey,
      Db.byExecutionId, accounts, orders, fills, positions, marketPrices]

theorem Db.Alike.apply (alike : x.Alike known y) (w : Write) :
    (x.apply w).Alike known (y.apply w) := by
  obtain ⟨accounts, orders, fills, positions, marketPrices, processed, shared⟩ := alike
  cases w with
  | insertProcessed r =>
    refine ⟨accounts, orders, fills, positions, marketPrices, fun e => ?_, fun e he => ?_⟩
    · simp only [Db.apply, Table.find_put]
      split_ifs
      · exact id
      · exact processed e
    · simp only [Db.apply, Table.find_put, shared e he]
  | _ =>
    constructor <;>
      simp only [Db.apply, accounts, orders, fills, positions, marketPrices] <;> assumption

theorem Db.Alike.view (alike : x.Alike known y) (ws : List Write) :
    ((postgres num).view x ws).Alike known ((postgres num).view y ws) := by
  induction ws generalizing x y with
  | nil => exact alike
  | cons w ws ih => exact ih (alike.apply w)

theorem Db.Alike.committed {α : Type} {p : Txn α} (uses : p.Uses (Stmt.Concerns known))
    (alike : x.Alike known y) : (committed num p x).Alike known (committed num p y) := by
  unfold OrderManagement.committed
  have outcomes : (∃ e, p.run (postgres num) x = .error e ∧ p.run (postgres num) y = .error e) ∨
      ∃ a x' y', p.run (postgres num) x = .ok (a, x') ∧ p.run (postgres num) y = .ok (a, y') ∧
        x'.Alike known y' :=
    run_of_agree (fun s _ _ hs h => h.exec hs) (fun s _ _ _ ws _ h _ => h.view ws) uses alike
  rcases outcomes with ⟨e, hx, hy⟩ | ⟨a, x', y', hx, hy, alike'⟩
  · simpa only [hx, hy] using alike
  · simpa only [hx, hy] using alike'

theorem Db.Alike.weaken (alike : x.Alike known y) : x.Alike (fun _ => False) y :=
  { alike with shared := fun _ h => h.elim }

end Alike

section Calls

variable (S : Deployment) (db : Db)

def Op.event : Op → Option BrokerExecutionEvent
  | .processEvent event => some event
  | _ => none

def Op.eventId (op : Op) : Option UUID := op.event.map BrokerExecutionEvent.eventId

def recordedBy (op : Op) : List ProcessedBrokerEvent :=
  match op.event with
  | none => []
  | some event =>
    if (db.processedBrokerEvents.find event.eventId).isSome then []
    else ((step S db op).processedBrokerEvents.find event.eventId).toList

/-- Whether a call has to be kept: one of another operation, or of `process_event`
recording its event as applied. -/
def hasEffect (op : Op) : Bool :=
  op.event.isNone || (recordedBy S db op).any fun r => r.outcome = .applied

def Db.holdings (db : Db) : List (UUID × ℚ) × List Position :=
  (db.accounts.rows.map fun a => (a.id, a.cashBalance), db.positions.rows)

def executedBy (op : Op) : List String :=
  match op.event with
  | none => []
  | some event =>
    if (step S db op).holdings = db.holdings then []
    else [orDefault event.executionId event.eventId.str]

end Calls

variable {S : Deployment} {db db' : Db}

theorem processedRow_outcome (event : BrokerExecutionEvent) (verdict : Verdict) :
    (processedRow event verdict).outcome = .applied ↔ verdict.1 = true := by
  unfold processedRow
  cases verdict.1 <;> simp

inductive Recording (db : Db) : Op → Db → List ProcessedBrokerEvent → Prop
  | nothing {op : Op} {db' : Db} (same : db'.processedBrokerEvents = db.processedBrokerEvents) :
      Recording db op db' []
  | row {event : BrokerExecutionEvent} {db' : Db} (verdict : Verdict)
      (unprocessed : db.processedBrokerEvents.find event.eventId = none)
      (put : db'.processedBrokerEvents =
        db.processedBrokerEvents.put (processedRow event verdict)) :
      Recording db (.processEvent event) db' [processedRow event verdict]

theorem Change.recording {op : Op} (h : Change S db op db') :
    ∃ rows, Recording db op db' rows := by
  cases h with
  | ignored found unprocessed ignores => exact ⟨_, .row _ unprocessed rfl⟩
  | filled t => exact ⟨_, .row (true, none) t.unprocessed rfl⟩
  | released found unprocessed => exact ⟨_, .row (true, none) unprocessed rfl⟩
  | _ => exact ⟨_, .nothing rfl⟩

theorem Recording.rows {op : Op} {rows : List ProcessedBrokerEvent}
    (h : Recording db op db' rows) :
    db'.processedBrokerEvents.rows = db.processedBrokerEvents.rows ++ rows := by
  cases h with
  | nothing same => rw [same, List.append_nil]
  | row verdict unprocessed put =>
    rw [put]
    exact Table.rows_put_of_new unprocessed

theorem Recording.recordedBy {op : Op} {rows : List ProcessedBrokerEvent}
    (h : Recording db op (step S db op) rows) : recordedBy S db op = rows := by
  unfold OrderManagement.recordedBy
  cases h with
  | @row event _ verdict unprocessed put =>
    have found : (step S db (.processEvent event)).processedBrokerEvents.find event.eventId =
        some (processedRow event verdict) := by
      rw [put]
      exact Table.find_put_self _ (processedRow event verdict)
    simp only [Op.event, unprocessed, found]
    rfl
  | nothing same =>
    cases op with
    | processEvent event =>
      simp only [Op.event, same]
      cases db.processedBrokerEvents.find event.eventId <;> rfl
    | _ => rfl

theorem recordedBy_recording (sound : db.Sound S.num) (op : Op) :
    Recording db op (step S db op) (recordedBy S db op) := by
  obtain ⟨rows, h⟩ := (step_change S sound op).recording
  exact h.recordedBy.symm ▸ h

theorem kept_events (sound : db.Sound S.num) (op : Op) :
    (if hasEffect S db op then [op] else []).filterMap Op.eventId =
      ((recordedBy S db op).filter fun r => r.outcome = .applied).map
        ProcessedBrokerEvent.brokerEventId := by
  have recording := recordedBy_recording sound op
  unfold hasEffect
  generalize recordedBy S db op = rows at recording
  cases recording with
  | nothing => cases op <;> simp [Op.eventId, Op.event]
  | row verdict =>
    by_cases applied : verdict.1 = true <;> simp [Op.eventId, Op.event, processedRow, applied]

structure Hidden (db db' : Db) : Prop where
  accounts : db'.accounts = db.accounts
  orders : db'.orders = db.orders
  fills : db'.fills = db.fills
  positions : db'.positions = db.positions
  marketPrices : db'.marketPrices = db.marketPrices

theorem Change.hidden_or_applied {op : Op} (h : Change S db op db') : Hidden db db' ∨
    op.event = none ∨ ∃ event, op = .processEvent event ∧
      Recording db (.processEvent event) db' [processedRow event (true, none)] := by
  cases h with
  | unchanged => exact Or.inl ⟨rfl, rfl, rfl, rfl, rfl⟩
  | ignored => exact Or.inl ⟨rfl, rfl, rfl, rfl, rfl⟩
  | filled t => exact Or.inr (Or.inr ⟨_, rfl, .row _ t.unprocessed rfl⟩)
  | released found unprocessed => exact Or.inr (Or.inr ⟨_, rfl, .row _ unprocessed rfl⟩)
  | _ => exact Or.inr (Or.inl rfl)

theorem Db.Alike.drop {x y : Db} {op : Op} (sound : x.Sound S.num)
    (alike : x.Alike (fun _ => False) y) (noEffect : hasEffect S x op = false) :
    (step S x op).Alike (fun _ => False) y := by
  obtain ⟨accounts, orders, fills, positions, marketPrices, processed, -⟩ := alike
  have earlier : ∀ e, (step S x op).processedBrokerEvents.find e = none →
      x.processedBrokerEvents.find e = none := by
    obtain ⟨rows, recording⟩ := (step_change S sound op).recording
    cases recording with
    | nothing same => exact fun e h => same ▸ h
    | row verdict unprocessed put =>
      intro e h
      rw [put, Table.find_put] at h
      split_ifs at h
      exact h
  rcases (step_change S sound op).hidden_or_applied with hidden | other | ⟨event, rfl, applied⟩
  · exact ⟨hidden.accounts.trans accounts, hidden.orders.trans orders, hidden.fills.trans fills,
      hidden.positions.trans positions, hidden.marketPrices.trans marketPrices,
      fun e h => processed e (earlier e h), fun _ h => h.elim⟩
  · simp [hasEffect, other] at noEffect
  · unfold hasEffect at noEffect
    rw [applied.recordedBy] at noEffect
    simp [processedRow] at noEffect

theorem Db.Alike.keep {x y : Db} {op : Op}
    (alike : x.Alike (fun _ => False) y) (effect : hasEffect S x op = true) :
    (step S x op).Alike (fun _ => False) (step S y op) := by
  cases op with
  | createOrder draw payload => exact alike.committed (createOrder_concerns _ _ _)
  | requestCancellation orderId reason => exact alike.committed (requestCancellation_concerns _ _)
  | markRoutingFailure orderId reason => exact alike.committed (markRoutingFailure_concerns _ _)
  | applyTick symbol price observedAt => exact alike.committed (applyTick_concerns _ _ _ _)
  | processEvent event =>
    have unprocessed : x.processedBrokerEvents.find event.eventId = none := by
      unfold hasEffect recordedBy at effect
      by_contra processed
      simp [Op.event, Option.isSome_iff_ne_none, processed] at effect
    have here : x.Alike (event.eventId = ·) y :=
      { alike with
        shared := by
          rintro _ rfl
          rw [unprocessed, alike.processed _ unprocessed] }
    exact (here.committed (processEvent_concerns rfl)).weaken

theorem Db.Alike.refl (known : UUID → Prop) (db : Db) : db.Alike known db :=
  ⟨rfl, rfl, rfl, rfl, rfl, fun _ h => h, fun _ _ => rfl⟩

theorem Change.still_or_filled {op : Op} (sound : db.Sound S.num) (h : Change S db op db') :
    (db'.fills = db.fills ∧ (op.event ≠ none → db'.holdings = db.holdings)) ∨
      ∃ event, ∃ t : AppliedFill S.num db event, op = .processEvent event ∧ db' = t.after := by
  cases h with
  | unchanged | ignored => exact Or.inl ⟨rfl, fun _ => rfl⟩
  | filled t => exact Or.inr ⟨_, t, rfl, rfl⟩
  | @released event order final account released record found unprocessed accountFound becomes
      release kept =>
    refine Or.inl ⟨rfl, fun _ => Prod.ext ?_ rfl⟩
    have id := releaseRemainingReservation_id release
    have row := sound.accounts account (Table.mem_of_find accountFound)
    have here : db.accounts.find released.id = some account :=
      (id.trans (Table.find_key accountFound)) ▸ accountFound
    have cash : S.num.round released.cashBalance = account.cashBalance := by
      rw [releaseRemainingReservation_cash release]
      exact congrArg Account.cashBalance row.1
    exact Table.map_put (show db.accounts.find (released.stored S.num).id = _ from here)
      (Prod.ext id cash)
  | _ => exact Or.inl ⟨rfl, fun h => (h rfl).elim⟩

theorem AppliedFill.rows_fills {num : Numeric} {event : BrokerExecutionEvent}
    (t : AppliedFill num db event) : t.after.fills.rows = db.fills.rows ++ [t.fill.stored num] :=
  Table.rows_put_of_new (Fill.refusal_eq_none_iff.1 t.fillKept).2.1

theorem executedBy_sublist (sound : db.Sound S.num) (op : Op) :
    ∃ new, (step S db op).fills.rows.map Fill.executionId =
        db.fills.rows.map Fill.executionId ++ new ∧ (executedBy S db op).Sublist new := by
  rcases (step_change S sound op).still_or_filled sound with ⟨same, still⟩ | ⟨event, t, rfl, after⟩
  · refine ⟨[], by rw [same, List.append_nil], ?_⟩
    cases op with
    | processEvent event => simp [executedBy, Op.event, still (Option.some_ne_none event)]
    | _ => exact .slnil
  · refine ⟨[(t.fill.stored S.num).executionId], ?_, ?_⟩
    · rw [after, t.rows_fills, List.map_append]
      rfl
    · unfold executedBy
      dsimp only [Op.event]
      split_ifs
      · exact List.nil_sublist _
      · exact List.Sublist.refl _

/-- Event ids and orders of the fills, and of the fill events recorded as applied. -/
def Db.fillMarks (db : Db) : List (UUID × UUID) :=
  db.fills.rows.map fun f => (f.brokerEventId, f.orderId)

def Db.appliedFillMarks (db : Db) : List (UUID × UUID) :=
  (db.processedBrokerEvents.rows.filter fun r => r.outcome = .applied ∧ r.eventType.isFill).map
    fun r => (r.brokerEventId, r.orderId)

theorem Db.appliedFillMarks_recorded {event : BrokerExecutionEvent} {verdict : Verdict}
    (unprocessed : db.processedBrokerEvents.find event.eventId = none)
    (put : db'.processedBrokerEvents = db.processedBrokerEvents.put (processedRow event verdict)) :
    db'.appliedFillMarks = db.appliedFillMarks ++
      if verdict.1 ∧ event.eventType.isFill then [(event.eventId, event.orderId)] else [] := by
  have rows : db'.processedBrokerEvents.rows =
      db.processedBrokerEvents.rows ++ [processedRow event verdict] := by
    rw [put]
    exact Table.rows_put_of_new unprocessed
  have kept : decide ((processedRow event verdict).outcome = .applied ∧
      (processedRow event verdict).eventType.isFill) =
        decide (verdict.1 ∧ event.eventType.isFill) :=
    decide_eq_decide.2 (and_congr_left' (processedRow_outcome event verdict))
  unfold appliedFillMarks
  rw [rows, List.filter_append, List.map_append, List.filter_singleton, kept]
  by_cases applied : verdict.1 ∧ event.eventType.isFill
  · rw [if_pos applied, decide_eq_true applied]
    rfl
  · rw [if_neg applied, decide_eq_false applied]
    rfl

/-- Recording an event keeps the two lists in step when its fill is booked with it. -/
theorem Db.fillMarks_recorded {event : BrokerExecutionEvent} {verdict : Verdict}
    (marks : db.fillMarks = db.appliedFillMarks)
    (unprocessed : db.processedBrokerEvents.find event.eventId = none)
    (put : db'.processedBrokerEvents = db.processedBrokerEvents.put (processedRow event verdict))
    (fills : db'.fillMarks = db.fillMarks ++
      if verdict.1 ∧ event.eventType.isFill then [(event.eventId, event.orderId)] else []) :
    db'.fillMarks = db'.appliedFillMarks := by
  rw [fills, marks, appliedFillMarks_recorded unprocessed put]

theorem Change.fillMarks {op : Op} (h : Change S db op db')
    (marks : db.fillMarks = db.appliedFillMarks) : db'.fillMarks = db'.appliedFillMarks := by
  cases h with
  | ignored found unprocessed =>
    exact Db.fillMarks_recorded marks unprocessed rfl (List.append_nil _).symm
  | @filled event t =>
    have key : t.order.id = event.orderId := Table.find_key t.found
    refine Db.fillMarks_recorded marks t.unprocessed rfl ?_
    simp [Db.fillMarks, t.rows_fills, t.isFill, FillAttempt.fill, newFill, Fill.stored, key]
  | @released event order final account released record found unprocessed accountFound becomes =>
    have noFill : event.eventType.isFill = false := by
      cases becomes with
      | rejected rejection => rw [rejection]; rfl
      | cancelled cancellation => rw [cancellation]; rfl
    refine Db.fillMarks_recorded marks unprocessed rfl ?_
    simp [Db.fillMarks, noFill]
  | _ => exact marks

theorem Change.executionIds {op : Op} (sound : db.Sound S.num) (h : Change S db op db')
    (nodup : (db.fills.rows.map Fill.executionId).Nodup) :
    (db'.fills.rows.map Fill.executionId).Nodup := by
  rcases h.still_or_filled sound with ⟨same, -⟩ | ⟨event, t, -, rfl⟩
  · rwa [same]
  · have free := Table.first_eq_none_iff.1 (Fill.refusal_eq_none_iff.1 t.fillKept).2.2
    rw [t.rows_fills, List.map_append]
    refine nodup.append (List.nodup_singleton _) ?_
    simp only [List.map_cons, List.map_nil, List.disjoint_singleton, List.mem_map, not_exists,
      not_and]
    intro f mem same
    exact free f mem (by simpa using same)

variable {db₀ : Db}

/-- Redelivered, reordered and refused events leave no trace in a run: orders, accounts,
positions and fills are those of the run without them. -/
theorem run_exactlyOnce (fresh : db₀.Fresh S.num) (ops : List Op) :
    let db := run (step S) db₀ ops
    let calls := kept (step S) (hasEffect S) db₀ ops
    let db' := run (step S) db₀ calls
    (db.orders = db'.orders ∧ db.accounts = db'.accounts ∧ db.positions = db'.positions ∧
      db.fills = db'.fills) ∧
    calls.filterMap Op.eventId =
      (db.processedBrokerEvents.rows.filter fun r => r.outcome = .applied).map
        ProcessedBrokerEvent.brokerEventId ∧
    db.fills.rows.map (fun f => (f.brokerEventId, f.orderId)) =
      (db.processedBrokerEvents.rows.filter fun r => r.outcome = .applied ∧ r.eventType.isFill).map
        (fun r => (r.brokerEventId, r.orderId)) ∧
    emitted (step S) (recordedBy S) db₀ ops = db.processedBrokerEvents.rows ∧
    (db.processedBrokerEvents.rows.map ProcessedBrokerEvent.brokerEventId).Nodup ∧
    (emitted (step S) (executedBy S) db₀ ops).Nodup := by
  intro db calls db'
  have keeps : ∀ db op, db.Sound S.num → (step S db op).Sound S.num := fun _ op h => step_sound h op
  have alike : db.Alike (fun _ => False) db' :=
    run_kept (Db.Sound S.num) (Db.Alike fun _ => False) keeps
      (fun _ _ _ sound alike noEffect => alike.drop sound noEffect)
      (fun _ _ _ _ alike effect => alike.keep effect) fresh.sound (.refl _ _)
  have recorded := log_run (Db.Sound S.num) (fun db => db.processedBrokerEvents.rows) keeps
    (fun db op sound => (recordedBy_recording sound op).rows) fresh.sound ops
  refine ⟨⟨alike.orders, alike.accounts, alike.positions, alike.fills⟩, ?_, ?_, ?_,
    db.processedBrokerEvents.nodup, ?_⟩
  · have applied := log_run (Db.Sound S.num) (fun db => (db.processedBrokerEvents.rows.filter
      fun r => r.outcome = .applied).map ProcessedBrokerEvent.brokerEventId) keeps
      (fun db op sound => by
        rw [(recordedBy_recording sound op).rows, List.filter_append, List.map_append,
          ← kept_events sound op]) fresh.sound ops
    rw [fresh.processed, List.filter_nil, List.map_nil, List.nil_append] at applied
    exact (filterMap_emitted Op.eventId _).trans applied.symm
  · exact run_induction S (fun db => db.fillMarks = db.appliedFillMarks) fresh.sound
      (fun db op db' _ marks change => change.fillMarks marks)
      (by simp [Db.fillMarks, Db.appliedFillMarks, fresh.fills, fresh.processed])
  · simpa [fresh.processed] using recorded.symm
  · have nodup : (db.fills.rows.map Fill.executionId).Nodup :=
      run_induction S (fun db => (db.fills.rows.map Fill.executionId).Nodup) fresh.sound
        (fun db op db' sound nodup change => change.executionIds sound nodup)
        (by simp [fresh.fills])
    obtain ⟨new, eq, sub⟩ := emitted_sublist (Db.Sound S.num)
      (fun db => db.fills.rows.map Fill.executionId) keeps
      (fun db op sound => executedBy_sublist sound op) fresh.sound ops
    rw [fresh.fills, List.map_nil, List.nil_append] at eq
    exact (eq ▸ nodup).sublist sub

theorem run_exactlyOnce_redelivered :
    let ops : List Op := [.createOrder ⟨2, 0⟩ limitBuy, .processEvent partialFill,
      .processEvent partialFill]
    let db := run (step (.exact {} id)) (traderDb .exact) ops
    let calls := kept (step (.exact {} id)) (hasEffect (.exact {} id)) (traderDb .exact) ops
    calls.length = 2 ∧ db.fills.rows.length = 1 ∧
      db.fills = (run (step (.exact {} id)) (traderDb .exact) calls).fills :=
  ⟨by decide +kernel, by decide +kernel, (run_exactlyOnce (openAccounts_fresh _ _) _).1.2.2.2⟩

end OrderManagement
