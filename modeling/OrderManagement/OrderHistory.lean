import OrderManagement.AuditTrail
import OrderManagement.ExactlyOnce
import OrderManagement.SerializableCalls

/-! What later reads of the store can tell from earlier ones. An order row is
replaced only by one of a higher version that the state machine leads to, so the
version names the row; fills, processed events and audit records are only added;
and an order in a final status takes nothing more than notes of ignored events. -/

namespace OrderManagement

open ReadCommitted TransitionRuns

theorem Table.find_put_or {α κ : Type} [DecidableEq κ] {key : α → κ} {t : Table α key}
    {R : α → α → Prop} {row : α} (replaces : ∀ old, t.find (key row) = some old → R old row)
    {k : κ} {r : α} (found : t.find k = some r) :
    ∃ r', (t.put row).find k = some r' ∧ (r' = r ∨ R r r') := by
  by_cases same : key row = k
  · exact ⟨row, Table.find_put_of_eq same, Or.inr (replaces r (same ▸ found))⟩
  · exact ⟨r, (Table.find_put_of_ne same).trans found, Or.inl rfl⟩

def OrderStatus.LeadsTo : OrderStatus → OrderStatus → Prop :=
  Relation.ReflTransGen fun current target => target ∈ allowedTransitions current

/-- `o'` is what a later transaction has made of `o`. -/
structure Order.Precedes (o o' : Order) : Prop where
  frozen : o.Frozen o'
  expiresAt : o'.expiresAt = o.expiresAt
  version : o.version < o'.version
  unfinished : o.status ∉ terminalOrderStatuses
  status : o.status.LeadsTo o'.status
  filledQuantity : o.filledQuantity ≤ o'.filledQuantity
  cancelledQuantity : o.cancelledQuantity ≤ o'.cancelledQuantity
  remainingQuantity : o'.remainingQuantity ≤ o.remainingQuantity
  rejectionReason : o'.rejectionReason = o.rejectionReason ∨ o'.status = .rejected

structure Account.Precedes (a a' : Account) : Prop where
  id : a'.id = a.id
  userId : a'.userId = a.userId
  currency : a'.currency = a.currency
  version : a.version < a'.version

namespace Order.Precedes

variable {num : Numeric} {o p q : Order}

theorem trans (h : o.Precedes p) (g : p.Precedes q) : o.Precedes q where
  frozen := h.frozen.trans g.frozen
  expiresAt := g.expiresAt.trans h.expiresAt
  version := h.version.trans g.version
  unfinished := h.unfinished
  status := Relation.ReflTransGen.trans h.status g.status
  filledQuantity := h.filledQuantity.trans g.filledQuantity
  cancelledQuantity := h.cancelledQuantity.trans g.cancelledQuantity
  remainingQuantity := g.remainingQuantity.trans h.remainingQuantity
  rejectionReason := by
    -- a rejected order is not written again
    have same : p.rejectionReason = o.rejectionReason :=
      h.rejectionReason.resolve_right fun rejected =>
        g.unfinished (by rw [rejected]; decide)
    rcases g.rejectionReason with eq | rejected
    · exact Or.inl (eq.trans same)
    · exact Or.inr rejected

theorem stored (h : o.Precedes p) (kept : o.stored num = o) : o.Precedes (p.stored num) := by
  obtain ⟨filled, cancelled, remaining⟩ := Order.stored_quantities kept
  exact
    { frozen := h.frozen.stored kept
      expiresAt := h.expiresAt
      version := h.version
      unfinished := h.unfinished
      status := h.status
      filledQuantity := filled ▸ num.round_mono h.filledQuantity
      cancelledQuantity := cancelled ▸ num.round_mono h.cancelledQuantity
      remainingQuantity := by
        rw [← remaining]
        exact num.round_mono h.remainingQuantity
      rejectionReason := h.rejectionReason }

end Order.Precedes

theorem OrderStatus.unfinished_of_allowed {status target : OrderStatus}
    (allowed : target ∈ allowedTransitions status) : status ∉ terminalOrderStatuses := by
  rw [← allowedTransitions_eq_nil_iff]
  exact List.ne_nil_of_mem allowed

theorem Order.precedes_moved (o : Order) {target : OrderStatus}
    (allowed : target ∈ allowedTransitions o.status) : o.Precedes (o.moved target) where
  frozen := ⟨rfl, rfl, rfl, rfl, rfl, rfl, rfl, rfl, rfl, rfl⟩
  expiresAt := rfl
  version := Nat.lt_succ_self _
  unfinished := OrderStatus.unfinished_of_allowed allowed
  status := .single allowed
  filledQuantity := le_refl _
  cancelledQuantity := le_refl _
  remainingQuantity := le_refl _
  rejectionReason := Or.inl rfl

theorem Order.precedes_rejected (o : Order) (reason : Option String) (routed : o.status = .routed) :
    o.Precedes ({ o with rejectionReason := reason }.moved .rejected) where
  frozen := ⟨rfl, rfl, rfl, rfl, rfl, rfl, rfl, rfl, rfl, rfl⟩
  expiresAt := rfl
  version := Nat.lt_succ_self _
  unfinished := by rw [routed]; decide
  status := .single (show OrderStatus.rejected ∈ allowedTransitions o.status by rw [routed]; decide)
  filledQuantity := le_refl _
  cancelledQuantity := le_refl _
  remainingQuantity := le_refl _
  rejectionReason := Or.inr rfl

theorem Order.precedes_cancelRest {o : Order} (working : o.status ∈ workingStatuses)
    (remaining : 0 ≤ o.remainingQuantity) : o.Precedes (o.cancelRest.moved .cancelled) where
  frozen := ⟨rfl, rfl, rfl, rfl, rfl, rfl, rfl, rfl, rfl, rfl⟩
  expiresAt := rfl
  version := show o.version < o.version + 1 + 1 by omega
  unfinished := Order.not_terminal_of_working working
  status := .single (working_allows_cancelled working)
  filledQuantity := le_refl _
  cancelledQuantity := le_add_of_nonneg_right remaining
  remainingQuantity := remaining
  rejectionReason := Or.inl rfl

theorem Order.bookFill_precedes {o b : Order} {q price : ℚ} (book : o.bookFill q price = .ok b)
    (working : o.status ∈ workingStatuses) (positive : 0 < q) : o.Precedes b := by
  obtain ⟨-, rfl⟩ := Order.bookFill_ok book
  exact
    { frozen := ⟨rfl, rfl, rfl, rfl, rfl, rfl, rfl, rfl, rfl, rfl⟩
      expiresAt := rfl
      version := Nat.lt_succ_self _
      unfinished := Order.not_terminal_of_working working
      status := .refl
      filledQuantity := le_add_of_nonneg_right positive.le
      cancelledQuantity := le_refl _
      remainingQuantity := sub_le_self _ positive.le
      rejectionReason := Or.inl rfl }

theorem Concluded.precedes {data : EventData} {b o' : Order} {a a' : Account}
    {es : List OrderEvent} (h : Concluded data b a o' a' es) (working : b.status ∈ workingStatuses)
    (remaining : 0 ≤ b.remainingQuantity) : o' = b ∨ b.Precedes o' := by
  cases h with
  | filled done => exact Or.inr (b.precedes_moved (working_allows_filled working))
  | ioc rest ioc release => exact Or.inr (Order.precedes_cancelRest working remaining)
  | first rest resting routed =>
    exact Or.inr (b.precedes_moved (by rw [routed]; decide))
  | further => exact Or.inl rfl

theorem Released.precedes {event : BrokerExecutionEvent} {o final : Order} {record : OrderEvent}
    (h : Released event o final record) (remaining : 0 ≤ o.remainingQuantity) :
    o.Precedes final := by
  cases h with
  | rejected rejection routed => exact o.precedes_rejected _ routed
  | cancelled cancellation working => exact Order.precedes_cancelRest working remaining

theorem AppliedFill.precedes {num : Numeric} {db : Db} {event : BrokerExecutionEvent}
    (t : AppliedFill num db event) : t.order.Precedes t.final := by
  have booked := Order.bookFill_precedes t.book t.working t.positive
  have rest : 0 ≤ t.booked.remainingQuantity := by
    obtain ⟨-, eq⟩ := Order.bookFill_ok t.book
    rw [eq]
    exact sub_nonneg.2 t.covered
  have working : t.booked.status ∈ workingStatuses := by
    rw [t.booked_status]
    exact t.working
  rcases t.conclude.precedes working rest with same | later
  · exact same ▸ booked
  · exact booked.trans later

/-! Accounts. -/

theorem Account.precedes_version {a a' : Account} (id : a'.id = a.id)
    (userId : a'.userId = a.userId)
    (currency : a'.currency = a.currency) (version : a'.version = a.version + 1) : a.Precedes a' :=
  ⟨id, userId, currency, version ▸ Nat.lt_succ_self _⟩

theorem Account.Precedes.trans {a b c : Account} (h : a.Precedes b) (g : b.Precedes c) :
    a.Precedes c :=
  ⟨g.id.trans h.id, g.userId.trans h.userId, g.currency.trans h.currency, h.version.trans g.version⟩

theorem Account.Precedes.stored {num : Numeric} {a b : Account} (h : a.Precedes b) :
    a.Precedes (b.stored num) := ⟨h.id, h.userId, h.currency, h.version⟩

theorem releaseRemainingReservation_precedes {a b : Account} {o : Order}
    (h : releaseRemainingReservation a o = .ok b) : b = a ∨ a.Precedes b := by
  rcases releaseRemainingReservation_ok h with ⟨-, rfl⟩ | ⟨-, -, -, rfl⟩
  · exact Or.inl rfl
  · exact Or.inr (Account.precedes_version rfl rfl rfl rfl)

theorem Account.settleFill_precedes {a b : Account} {o : Order} {q price : ℚ}
    (h : a.settleFill o q price = .ok b) : a.Precedes b := by
  rcases Account.settleFill_ok h with ⟨-, -, -, rfl⟩ | ⟨-, rfl⟩ <;>
    exact Account.precedes_version rfl rfl rfl rfl

theorem Concluded.account_precedes {data : EventData} {b o' : Order} {a a' : Account}
    {es : List OrderEvent} (h : Concluded data b a o' a' es) : a' = a ∨ a.Precedes a' := by
  cases h with
  | ioc rest ioc release => exact releaseRemainingReservation_precedes release
  | filled | first | further => exact Or.inl rfl

theorem AppliedFill.account_precedes {num : Numeric} {db : Db} {event : BrokerExecutionEvent}
    (t : AppliedFill num db event) : t.account.Precedes t.finalAccount := by
  have settled := Account.settleFill_precedes t.settle
  rcases t.conclude.account_precedes with same | later
  · exact same ▸ settled
  · exact settled.trans later

/-! The store. -/

/-- What `db'` keeps of `db`, whatever was committed in between. -/
structure Db.Later (db db' : Db) : Prop where
  orders : ∀ {k : UUID} {o : Order}, db.orders.find k = some o →
    ∃ o', db'.orders.find k = some o' ∧ (o' = o ∨ o.Precedes o')
  accounts : ∀ {k : UUID} {a : Account}, db.accounts.find k = some a →
    ∃ a', db'.accounts.find k = some a' ∧ (a' = a ∨ a.Precedes a')
  positions : ∀ {k : UUID × String}, (db.positions.find k).isSome → (db'.positions.find k).isSome
  fills : db.fills.rows <+: db'.fills.rows
  processed : db.processedBrokerEvents.rows <+: db'.processedBrokerEvents.rows
  orderEvents : db.orderEvents <+: db'.orderEvents

namespace Db.Later

variable {db db' db'' : Db}

theorem refl (db : Db) : db.Later db where
  orders found := ⟨_, found, Or.inl rfl⟩
  accounts found := ⟨_, found, Or.inl rfl⟩
  positions := id
  fills := List.prefix_refl _
  processed := List.prefix_refl _
  orderEvents := List.prefix_refl _

theorem trans (h : db.Later db') (g : db'.Later db'') : db.Later db'' where
  orders found := by
    obtain ⟨p, found', first⟩ := h.orders found
    obtain ⟨q, found'', second⟩ := g.orders found'
    refine ⟨q, found'', ?_⟩
    rcases first with rfl | first
    · exact second
    · rcases second with rfl | second
      · exact Or.inr first
      · exact Or.inr (first.trans second)
  accounts found := by
    obtain ⟨b, found', first⟩ := h.accounts found
    obtain ⟨c, found'', second⟩ := g.accounts found'
    refine ⟨c, found'', ?_⟩
    rcases first with rfl | first
    · exact second
    · rcases second with rfl | second
      · exact Or.inr first
      · exact Or.inr (first.trans second)
  positions found := g.positions (h.positions found)
  fills := h.fills.trans g.fills
  processed := h.processed.trans g.processed
  orderEvents := h.orderEvents.trans g.orderEvents

theorem version (h : db.Later db') {k : UUID} {o o' : Order} (found : db.orders.find k = some o)
    (found' : db'.orders.find k = some o') :
    o.version ≤ o'.version ∧ (o'.version = o.version ↔ o' = o) := by
  obtain ⟨p, foundP, became⟩ := h.orders found
  obtain rfl : p = o' := Option.some.inj (foundP.symm.trans found')
  rcases became with rfl | later
  · exact ⟨le_refl _, by simp⟩
  · have grows := later.version
    refine ⟨grows.le, fun same => absurd same grows.ne', ?_⟩
    rintro rfl
    exact absurd grows (lt_irrefl _)

end Db.Later

section Steps

variable {S : Deployment} {db db' : Db} {op : Op}

theorem markedTable_isSome {num : Numeric} {price : ℚ} {ps : List Position}
    {t : Table Position Position.holding} {k : UUID × String} (found : (t.find k).isSome) :
    ((markedTable num price ps t).find k).isSome := by
  induction ps generalizing t with
  | nil => exact found
  | cons p ps ih => exact ih (Table.find_put_isSome _ found)

theorem Change.order_precedes (h : Change S db op db') (sound : db.Sound S.num) {k : UUID}
    {o : Order} (found : db.orders.find k = some o) :
    ∃ o', db'.orders.find k = some o' ∧ (o' = o ∨ o.Precedes o') := by
  have placed : ∀ {draw : CreateDraw} {p' : Order}, db.orders.find draw.orderId = none →
      p'.id = draw.orderId → ∃ o', (db.orders.put p').find k = some o' ∧
      (o' = o ∨ o.Precedes o') := by
    intro draw p' unplaced id
    refine Table.find_put_or (fun old was => ?_) found
    rw [id, unplaced] at was
    cases was
  have replaced : ∀ {k' : UUID} {p p' : Order}, db.orders.find k' = some p → p.Precedes p' →
      ∃ o', (db.orders.put (p'.stored S.num)).find k = some o' ∧ (o' = o ∨ o.Precedes o') := by
    intro k' p p' was later
    have kept := (sound.orders p (Table.mem_of_find was)).1
    refine Table.find_put_or (fun old found' => ?_) found
    have key : p'.id = k' := later.frozen.id.trans (Table.find_key was)
    rw [Order.stored_id, key, was, Option.some_inj] at found'
    exact found' ▸ later.stored kept
  have remaining : ∀ {k' : UUID} {p : Order}, db.orders.find k' = some p →
      0 ≤ p.remainingQuantity :=
    fun was => (sound.conserved (Table.mem_of_find was)).remaining
  cases h with
  | unchanged | ignored | ticked => exact ⟨o, found, Or.inl rfl⟩
  | refused t inserted short => exact placed (t.unplaced inserted) rfl
  | routed t inserted covered kept => exact placed (t.unplaced inserted) rfl
  | filled t => exact replaced t.found t.precedes
  | released was unprocessed accountFound becomes release kept =>
    exact replaced was (becomes.precedes (remaining was))
  | @cancelRequested orderId reason order was cancellable =>
    refine replaced was (order.precedes_moved ?_)
    revert cancellable
    cases order.status <;> decide
  | routingFailed was wasRouted accountFound kept =>
    exact replaced was (Order.precedes_rejected _ _ wasRouted)

theorem Change.account_precedes (h : Change S db op db') (sound : db.Sound S.num) {k : UUID}
    {a : Account} (found : db.accounts.find k = some a) :
    ∃ a', db'.accounts.find k = some a' ∧ (a' = a ∨ a.Precedes a') := by
  have replaced : ∀ {k' : UUID} {b b' : Account}, db.accounts.find k' = some b → b'.id = b.id →
      b' = b ∨ b.Precedes b' →
      ∃ a', (db.accounts.put (b'.stored S.num)).find k = some a' ∧ (a' = a ∨ a.Precedes a') := by
    intro k' b b' was id became
    have kept := (sound.accounts b (Table.mem_of_find was)).1
    rcases became with rfl | later
    · rw [kept, Table.put_self ((Table.find_key was).symm ▸ was)]
      exact ⟨a, found, Or.inl rfl⟩
    · refine Table.find_put_or (fun old found' => ?_) found
      have key : b'.id = k' := id.trans (Table.find_key was)
      rw [Account.stored_id, key, was, Option.some_inj] at found'
      exact found' ▸ later.stored
  cases h with
  | unchanged | ignored | cancelRequested | ticked => exact ⟨a, found, Or.inl rfl⟩
  | refused t inserted short => exact replaced t.accountFound rfl (Or.inl rfl)
  | routed t inserted covered kept =>
    refine replaced t.accountFound t.charged_id ?_
    unfold Placement.charged
    split_ifs
    · exact Or.inr (Account.precedes_version rfl rfl rfl rfl)
    · exact Or.inl rfl
  | filled t => exact replaced t.accountFound t.account_precedes.id (Or.inr t.account_precedes)
  | released was unprocessed accountFound becomes release kept =>
    exact replaced accountFound (releaseRemainingReservation_id release)
      (releaseRemainingReservation_precedes release)
  | routingFailed was wasRouted accountFound kept =>
    refine replaced accountFound (Account.refund_id _ _) ?_
    unfold Account.refund
    split_ifs
    · exact Or.inr (Account.precedes_version rfl rfl rfl rfl)
    · exact Or.inl rfl

theorem Change.fills_prefix (h : Change S db op db') : db.fills.rows <+: db'.fills.rows := by
  cases h with
  | filled t => exact t.rows_fills ▸ List.prefix_append _ _
  | _ => exact List.prefix_refl _

theorem Change.later (h : Change S db op db') (sound : db.Sound S.num) : db.Later db' where
  orders := h.order_precedes sound
  accounts := h.account_precedes sound
  positions found := by
    cases h with
    | filled t => exact Table.find_put_isSome _ found
    | ticked => exact markedTable_isSome found
    | _ => exact found
  fills := h.fills_prefix
  processed := by
    obtain ⟨rows, recording⟩ := h.recording
    rw [recording.rows]
    exact List.prefix_append _ _
  orderEvents := h.log_prefix

theorem run_later (sound : db.Sound S.num) (ops : List Op) : db.Later (run (step S) db ops) :=
  run_induction S db.Later sound
    (fun _ _ _ sound before change => before.trans (change.later sound)) (.refl db)

end Steps

/-- Between any two moments of any interleaving of calls the committed store only moves
forward, so two reads of an order with one version are the same row. -/
theorem interleaved_later {ι : Type} [DecidableEq ι] {S : Deployment} {calls : ι → Call} {db₀ : Db}
    (sound : db₀.Sound S.num) {site site' : Site Stmt Failure Db Write Lock ι Reply}
    (reachable : Reachable (lockingPostgres S.num) db₀ (fun i => (calls i).program S.settings) site)
    (steps : Relation.ReflTransGen (Step (lockingPostgres S.num)) site site') :
    site.db.Later site'.db ∧ ∀ {k : UUID} {o o' : Order}, site.db.orders.find k = some o →
      site'.db.orders.find k = some o' →
      o.version ≤ o'.version ∧ (o'.version = o.version ↔ o' = o) := by
  have serial : ∀ {t : Site Stmt Failure Db Write Lock ι Reply},
      Reachable (lockingPostgres S.num) db₀ (fun i => (calls i).program S.settings) t →
      t.db = run (step S) db₀ ((t.log.map Prod.fst).map fun i => (calls i).op) := fun reached =>
    (Serial.run_eq (Reachable.consistent (calls_replayable S calls) sound reached).serial).trans
      (run_map (fun i => (calls i).op) _)
  obtain ⟨rest, log⟩ := steps_log_prefix steps
  have later : site.db.Later site'.db := by
    rw [serial (reachable.trans steps), ← log, List.map_append, List.map_append, run_append,
      ← serial reachable]
    have committed : site.db.Sound S.num := serial reachable ▸ run_sound sound _
    exact run_later committed _
  exact ⟨later, later.version⟩

theorem interleaved_later_fillOvertaken : ∃ site, fillOvertaken = some site ∧
    routedDb.Later site.db ∧ ∃ o o' : Order, routedDb.orders.find 2 = some o ∧
      site.db.orders.find 2 = some o' ∧ o.version < o'.version := by
  have versions : ∃ site, fillOvertaken = some site ∧ ∃ o o' : Order,
      routedDb.orders.find 2 = some o ∧ site.db.orders.find 2 = some o' ∧
      o.version < o'.version := by
    have known : (fillOvertaken.bind fun site => do
        let o ← routedDb.orders.find 2
        let o' ← site.db.orders.find 2
        return decide (o.version < o'.version)) = some true := by decide +kernel
    obtain ⟨site, scheduled, rest⟩ := Option.bind_eq_some_iff.1 known
    obtain ⟨o, found, rest⟩ := Option.bind_eq_some_iff.1 rest
    obtain ⟨o', found', rest⟩ := Option.bind_eq_some_iff.1 rest
    exact ⟨site, scheduled, o, o', found, found', of_decide_eq_true (Option.some.inj rest)⟩
  obtain ⟨site, scheduled, grows⟩ := versions
  have sound : routedDb.Sound (Deployment.exact {} id).num :=
    run_sound (openAccounts_fresh .exact _).sound _
  have begun : Reachable (lockingPostgres .exact) routedDb
      (fun i => (fillAndSubmission i).program {}) (start routedDb fun i =>
        (fillAndSubmission i).program {}) := .refl
  have later := (interleaved_later sound begun (schedule_reachable begun scheduled)).1
  rw [start_db] at later
  exact ⟨site, scheduled, later, grows⟩

/-! Orders that are done. -/

def OrderStatus.refusal (status : OrderStatus) : BrokerEventType → String
  | .fullFill | .partialFill => "Order is already " ++ status.value
  | .rejected => "Order cannot be rejected from " ++ status.value
  | .cancelled => "Order cannot be cancelled from " ++ status.value

/-- The audit record of an ignored event, from its row in the table of processed events. -/
def ProcessedBrokerEvent.note (status : OrderStatus) (r : ProcessedBrokerEvent) : OrderEvent where
  orderId := r.orderId
  eventType := .brokerEventIgnored
  previousStatus := some status
  newStatus := some status
  eventData := [("broker_event_id", .uuid r.brokerEventId), ("event_type", .text r.eventType.value)]
    ++ r.details

def Db.fillsOf (db : Db) (orderId : UUID) : List Fill :=
  db.fills.rows.filter fun f => f.orderId = orderId

def Db.processedOf (db : Db) (orderId : UUID) : List ProcessedBrokerEvent :=
  db.processedBrokerEvents.rows.filter fun r => r.orderId = orderId

def OrderStatus.lateVerdict (status : OrderStatus) (event : BrokerExecutionEvent) : Verdict :=
  (false, some (status.refusal event.eventType))

/-- `db` with the record and the note of an event that comes too late for `o`. -/
def Db.late (db : Db) (o : Order) (event : BrokerExecutionEvent) : Db :=
  ({ db with orderEvents := db.orderEvents ++ [⟨o.id, .brokerEventIgnored, some o.status,
      some o.status, ignoredData event (some (o.status.refusal event.eventType))⟩] } : Db).recorded
    event (o.status.lateVerdict event)

/-- The record that an event leaves if it comes too late for the order `k`: one, unless its id
is already recorded. -/
def lateRecords (k : UUID) (status : OrderStatus) (db : Db) : Op → List ProcessedBrokerEvent
  | .processEvent event =>
    if event.orderId = k ∧ db.processedBrokerEvents.find event.eventId = none then
      [processedRow event (status.lateVerdict event)]
    else []
  | .createOrder .. | .requestCancellation .. | .markRoutingFailure .. | .applyTick .. => []

/-- Of the order `k`, `db'` has what `db` has, the records `rows` and their notes. -/
structure Db.Still (k : UUID) (status : OrderStatus) (rows : List ProcessedBrokerEvent)
    (db db' : Db) : Prop where
  fills : db'.fillsOf k = db.fillsOf k
  processed : db'.processedOf k = db.processedOf k ++ rows
  log : db'.auditLog k = db.auditLog k ++ rows.map (ProcessedBrokerEvent.note status)

namespace Db.Still

variable {k : UUID} {status : OrderStatus} {first rows : List ProcessedBrokerEvent}
  {db db' db'' : Db}

theorem of_same (fills : db'.fillsOf k = db.fillsOf k)
    (processed : db'.processedOf k = db.processedOf k) (log : db'.auditLog k = db.auditLog k) :
    db.Still k status [] db' := ⟨fills, by simp [processed], by simp [log]⟩

theorem trans (h : db.Still k status first db') (g : db'.Still k status rows db'') :
    db.Still k status (first ++ rows) db'' where
  fills := g.fills.trans h.fills
  processed := by rw [g.processed, h.processed, List.append_assoc]
  log := by rw [g.log, h.log, List.map_append, List.append_assoc]

end Db.Still

theorem OrderStatus.not_working_of_terminal {status : OrderStatus}
    (terminal : status ∈ terminalOrderStatuses) : status ∉ workingStatuses ∧ status ≠ .routed := by
  cases status <;> revert terminal <;> decide

theorem dispatch_late (event : BrokerExecutionEvent) {o : Order}
    (terminal : o.status ∈ terminalOrderStatuses) :
    dispatch { order := .of o } event =
      pure ({ order := .of o }, o.status.lateVerdict event) := by
  obtain ⟨done, unrouted⟩ := OrderStatus.not_working_of_terminal terminal
  unfold dispatch OrderStatus.lateVerdict
  cases event.eventType with
  | fullFill | partialFill =>
    simp only [applyFill, Instance.of, done, not_false_eq_true, if_true]
    rfl
  | rejected =>
    simp only [applyRejection, Instance.of, ne_eq, unrouted, not_false_eq_true, if_true]
    rfl
  | cancelled =>
    simp only [applyCancellation, Instance.of, done, not_false_eq_true, if_true]
    rfl

section Still

variable {S : Deployment} {db db' : Db} {op : Op} {k : UUID} {o : Order}

theorem Db.fillsOf_append {fs : List Fill} (rows : db'.fills.rows = db.fills.rows ++ fs)
    (other : ∀ f ∈ fs, f.orderId ≠ k) : db'.fillsOf k = db.fillsOf k := by
  have none_ : fs.filter (fun f => decide (f.orderId = k)) = [] :=
    List.filter_eq_nil_iff.2 fun f mem => by simpa using other f mem
  unfold Db.fillsOf
  rw [rows, List.filter_append, none_, List.append_nil]

theorem Db.processedOf_put {event : BrokerExecutionEvent} {verdict : Verdict}
    (unprocessed : db.processedBrokerEvents.find event.eventId = none)
    (put : db'.processedBrokerEvents = db.processedBrokerEvents.put (processedRow event verdict)) :
    db'.processedOf k =
      db.processedOf k ++ if event.orderId = k then [processedRow event verdict] else [] := by
  have id : (processedRow event verdict).orderId = event.orderId := rfl
  have rows : (db.processedBrokerEvents.put (processedRow event verdict)).rows =
      db.processedBrokerEvents.rows ++ [processedRow event verdict] :=
    Table.rows_put_of_new unprocessed
  unfold Db.processedOf
  rw [put, rows, List.filter_append, List.filter_singleton, id]
  by_cases own : event.orderId = k <;> simp [own]

theorem Change.still (h : Change S db op db') (found : db.orders.find k = some o)
    (terminal : o.status ∈ terminalOrderStatuses) (none_ : lateRecords k o.status db op = []) :
    db.Still k o.status [] db' := by
  have unfinished : ∀ {k' : UUID} {p : Order}, db.orders.find k' = some p →
      p.status ∉ terminalOrderStatuses → k' ≠ k := by
    rintro k' p was open_ rfl
    rw [found, Option.some_inj] at was
    exact open_ (was ▸ terminal)
  have placed : ∀ {draw : CreateDraw} {payload : OrderCreate}
      (t : Placement db S.settings draw payload),
      (t.order.stored S.num).refusal S.num db = none → draw.orderId ≠ k := by
    rintro draw payload t inserted rfl
    exact absurd (found.symm.trans (t.unplaced inserted)) (by simp)
  cases h with
  | unchanged | ticked => exact .of_same rfl rfl rfl
  | @refused draw payload t inserted short =>
    exact .of_same rfl rfl (Db.auditLog_other rfl (k := draw.orderId) (by simp; exact ⟨rfl, rfl⟩)
      (placed t inserted))
  | @routed draw payload t inserted covered kept =>
    exact .of_same rfl rfl (Db.auditLog_other rfl (k := draw.orderId)
      (by simp; exact ⟨rfl, rfl, rfl⟩) (placed t inserted))
  | @ignored event order reason was unprocessed ignores =>
    have id := Table.find_key was
    have other : event.orderId ≠ k := fun same => by simp [lateRecords, same, unprocessed] at none_
    refine .of_same rfl ?_ (Db.auditLog_other rfl (by simpa using id) other)
    rw [Db.processedOf_put unprocessed rfl, if_neg other, List.append_nil]
  | @filled event t =>
    have other := unfinished t.found (Order.not_terminal_of_working t.working)
    have id := Table.find_key t.found
    refine .of_same (Db.fillsOf_append t.rows_fills ?_) ?_ (Db.auditLog_other rfl (fun e mem =>
      (t.conclude.log_orderId e mem).trans t.booked_id) (id ▸ other))
    · simp only [List.mem_singleton, forall_eq]
      exact fun same => other (id.symm.trans same)
    · rw [Db.processedOf_put t.unprocessed rfl, if_neg other, List.append_nil]
  | @released event order final account released record was unprocessed accountFound becomes
      release kept =>
    have other := unfinished was (Order.not_terminal_of_working becomes.working)
    have id := Table.find_key was
    refine .of_same rfl ?_ (Db.auditLog_other rfl (k := order.id) ?_ (id ▸ other))
    · rw [Db.processedOf_put unprocessed rfl, if_neg other, List.append_nil]
    · cases becomes <;> simp
  | @cancelRequested orderId reason order was cancellable =>
    have id := Table.find_key was
    have other : orderId ≠ k :=
      unfinished was (by revert cancellable; cases order.status <;> decide)
    exact .of_same rfl rfl (Db.auditLog_other rfl (k := order.id) (by simp) (id ▸ other))
  | @routingFailed orderId reason order account was wasRouted accountFound kept =>
    have id := Table.find_key was
    have other : orderId ≠ k := unfinished was (by rw [wasRouted]; decide)
    exact .of_same rfl rfl (Db.auditLog_other rfl (k := order.id) (by simp) (id ▸ other))

theorem processEvent_late {num : Numeric} {event : BrokerExecutionEvent} (sound : db.Sound num)
    (found : db.orders.find event.orderId = some o) (terminal : o.status ∈ terminalOrderStatuses)
    (unprocessed : db.processedBrokerEvents.find event.eventId = none) :
    (processEvent event).run (postgres num) db = .ok (false, db.late o event) := by
  have outcome : (processEvent event).wp (postgres num)
      (fun answer db' => answer = false ∧ db' = db.late o event) (fun _ => False) db := by
    unfold processEvent
    simp only [Program.wp_bind, wp_orderForUpdate, found, wp_processedByEventId, unprocessed,
      dispatch_late event terminal, Program.wp_pure]
    refine wp_insertProcessed_new unprocessed ?_
    simp only [OrderStatus.lateVerdict, Bool.false_eq_true, if_false, Program.wp_bind]
    exact wp_appendIgnored sound found fun _ => ⟨rfl, rfl⟩
  cases ran : (processEvent event).run (postgres num) db with
  | error f => exact (Program.wp_error _ outcome ran).elim
  | ok result =>
    obtain ⟨answer, db'⟩ := result
    obtain ⟨rfl, rfl⟩ := Program.wp_ok _ outcome ran
    rfl

theorem step_still (sound : db.Sound S.num) (found : db.orders.find k = some o)
    (terminal : o.status ∈ terminalOrderStatuses) :
    db.Still k o.status (lateRecords k o.status db op) (step S db op) := by
  by_cases none_ : lateRecords k o.status db op = []
  · rw [none_]
    exact (step_change S sound op).still found terminal none_
  cases op with
  | processEvent event =>
    by_cases late : event.orderId = k ∧ db.processedBrokerEvents.find event.eventId = none
    swap
    · simp [lateRecords, late] at none_
    obtain ⟨rfl, unprocessed⟩ := late
    have id := Table.find_key found
    have stepped : step S db (.processEvent event) = db.late o event := by
      simp only [step, committed, processEvent_late sound found terminal unprocessed]
    have one : lateRecords event.orderId o.status db (.processEvent event) =
        [processedRow event (o.status.lateVerdict event)] := by
      simp [lateRecords, unprocessed]
    have note : (processedRow event (o.status.lateVerdict event)).note o.status =
        ⟨o.id, .brokerEventIgnored, some o.status, some o.status,
          ignoredData event (some (o.status.refusal event.eventType))⟩ := by rw [id]; rfl
    rw [stepped, one]
    refine ⟨rfl, ?_, Db.auditLog_append (by rw [List.map_singleton, note]; rfl) ?_⟩
    · rw [Db.processedOf_put unprocessed rfl, if_pos rfl]
    · rw [List.map_singleton, note]
      simpa using id
  | createOrder | requestCancellation | markRoutingFailure | applyTick => exact (none_ rfl).elim

end Still

end OrderManagement
