import OrderManagement.OrderRuns
import OrderManagement.TextColumns

/-! Runs of the service on a database that refuses texts with U+0000. A transaction that sends
one rolls back; the others run as on columns that take every text. -/

namespace OrderManagement

open Program TransitionRuns

/-- `committed`, where a text with U+0000 is refused. -/
def encodedCommitted {α : Type} (num : Numeric) (p : Txn α) (db : Db) : Db :=
  match p.run (encodedPostgres num) db with
  | .ok (_, db') => db'
  | .error _ => db

def encodedStep (S : Deployment) (db : Db) : Op → Db
  | .createOrder draw payload => encodedCommitted S.num (createOrder S.settings draw payload) db
  | .processEvent event => encodedCommitted S.num (processEvent event) db
  | .requestCancellation orderId reason =>
    encodedCommitted S.num (requestCancellation orderId reason) db
  | .markRoutingFailure orderId reason =>
    encodedCommitted S.num (markRoutingFailure none orderId reason) db
  | .applyTick symbol price observedAt =>
    encodedCommitted S.num (applyTick S.upper symbol price observedAt) db

section Runs

variable {S : Deployment} {db : Db}

theorem run_encoded_cases {α : Type} (num : Numeric) (p : Txn α) (db : Db) :
    p.run (encodedPostgres num) db = p.run (postgres num) db ∨
      ∃ (β : Type) (s : Stmt β) (f : Failure), s.unencodable = some f ∧
        p.run (encodedPostgres num) db = .error f :=
  run_guarded_cases Stmt.unencodable p db

theorem encodedCommitted_of_same {α : Type} {num : Numeric} {p : Txn α}
    (same : p.run (encodedPostgres num) db = p.run (postgres num) db) :
    encodedCommitted num p db = committed num p db := by
  unfold encodedCommitted
  rw [same]
  rfl

theorem encodedCommitted_of_raised {α : Type} {num : Numeric} {p : Txn α} {f : Failure}
    (raised : p.run (encodedPostgres num) db = .error f) : encodedCommitted num p db = db := by
  unfold encodedCommitted
  rw [raised]

theorem encodedCommitted_cases {α : Type} (num : Numeric) (p : Txn α) (db : Db) :
    encodedCommitted num p db = committed num p db ∨ encodedCommitted num p db = db := by
  rcases run_encoded_cases num p db with same | ⟨β, s, f, -, raised⟩
  · exact Or.inl (encodedCommitted_of_same same)
  · exact Or.inr (encodedCommitted_of_raised raised)

theorem encodedStep_cases (S : Deployment) (db : Db) (op : Op) :
    encodedStep S db op = step S db op ∨ encodedStep S db op = db := by
  cases op <;> exact encodedCommitted_cases _ _ _

theorem run_lookup_encoded {α β : Type} {num : Numeric} {s : Stmt β} {next : β → Txn α} {r : β}
    (taken : s.unencodable = none) (answer : exec num s db = .ok (r, []))
    (rest : (next r).run (encodedPostgres num) db = (next r).run (postgres num) db) :
    (issue s >>= next).run (encodedPostgres num) db = (issue s >>= next).run (postgres num) db :=
  (run_request_of_ok _ ((exec_encoded taken num db).trans answer)).trans
    (rest.trans (run_request_of_ok (postgres num) answer).symm)

/-- A run that refuses such texts is the run of those transactions that send none. -/
theorem encoded_run (S : Deployment) (db : Db) (ops : List Op) :
    ∃ fewer, run (encodedStep S) db ops = run (step S) db fewer ∧
      ∀ P : Db → Op → Prop, Along (encodedStep S) P db ops → Along (step S) P db fewer := by
  have cases : ∀ db op, (encodedStep S db op = step S db op ∧ ([] : List Op) = []) ∨
      (encodedStep S db op = db ∧ ([] : List Op) = []) := fun db op =>
    (encodedStep_cases S db op).imp (⟨·, rfl⟩) (⟨·, rfl⟩)
  obtain ⟨fewer, same, -, along⟩ := run_skipping cases db ops
  exact ⟨fewer, same, along⟩

theorem encodedStep_sound (sound : db.Sound S.num) (op : Op) :
    (encodedStep S db op).Sound S.num := by
  rcases encodedStep_cases S db op with same | unchanged
  · rw [same]
    exact step_sound sound op
  · rw [unchanged]
    exact sound

theorem encodedRun_sound (sound : db.Sound S.num) (ops : List Op) :
    (run (encodedStep S) db ops).Sound S.num :=
  run_invariant (Db.Sound S.num) (fun _ op h => encodedStep_sound h op) sound

def Db.Encoded (db : Db) : Prop := ∀ o ∈ db.orders.rows, o.NulFree

theorem Db.Fresh.encoded {num : Numeric} (fresh : db.Fresh num) : db.Encoded := by
  simp [Db.Encoded, fresh.orders]

theorem patchColumn_nulFree {column : Column} {loaded current row : String}
    (sent : ∀ t ∈ changedText column loaded current, NulFree t.2) (kept : NulFree row) :
    NulFree (patchColumn loaded current row) := by
  unfold patchColumn
  split_ifs with same
  · exact kept
  · exact sent (column, current) (by simp [changedText, same])

theorem Order.patch_nulFree {num : Numeric} {loaded current row : Order}
    (sent : ∀ t ∈ (Stmt.updateOrder loaded current).texts, OrderManagement.NulFree t.2)
    (kept : row.NulFree) : (Order.patch num loaded current row).NulFree where
  clientOrderId := patchColumn_nulFree
    (fun t mem => sent t (by simp only [Stmt.texts, List.mem_append]; tauto)) kept.clientOrderId
  idempotencyKey := patchColumn_nulFree
    (fun t mem => sent t (by simp only [Stmt.texts, List.mem_append]; tauto)) kept.idempotencyKey
  symbol := patchColumn_nulFree
    (fun t mem => sent t (by simp only [Stmt.texts, List.mem_append]; tauto)) kept.symbol
  rejectionReason reason held := by
    simp only [Order.patch, patchColumn] at held
    split_ifs at held with same
    · exact kept.rejectionReason reason held
    · refine sent (.orderRejectionReason, reason) (List.mem_append_right _ ?_)
      simpa [changedReason, same] using held

def Write.Encoded : Write → Prop
  | .insertOrder row | .updateOrder row => row.NulFree
  | .insertAccount _ | .updateAccount _ | .insertFill _ | .insertPosition _ | .updatePosition _
  | .insertMarketPrice _ | .updateMarketPrice _ | .insertProcessed _ | .insertOrderEvent _ => True

theorem unencodable_of_answer {num : Numeric} {β : Type} {s : Stmt β} {a : β × List Write}
    (answer : (encodedPostgres num).exec s db = .ok a) : s.unencodable = none := by
  cases refused : s.unencodable with
  | none => rfl
  | some f => simp [encodedPostgres, guarded, refused] at answer

theorem writeUnless_encodes {failure : Option Failure} {w : Write} {u : Unit} {ws : List Write}
    (wrote : writeUnless failure w = .ok (u, ws)) (encoded : w.Encoded) : ∀ v ∈ ws, v.Encoded := by
  intro v mem
  rw [(writeUnless_eq_ok.1 wrote).2, List.mem_singleton] at mem
  exact mem ▸ encoded

theorem updateRow_encodes {α : Type} [DecidableEq α] {loaded current : α} {found : Option α}
    {patch : α → α} {violation : α → Option Failure} {write : α → Write} {u : Unit}
    {ws : List Write} (updated : updateRow loaded current found patch violation write = .ok (u, ws))
    (encoded : ∀ row, found = some row → (write (patch row)).Encoded) : ∀ v ∈ ws, v.Encoded := by
  intro v mem
  rcases updateRow_eq_ok updated with rfl | ⟨-, row, held, rfl⟩
  · cases mem
  · exact List.mem_singleton.1 mem ▸ encoded row held

theorem exec_encodes {num : Numeric} {β : Type} {s : Stmt β} {r : β} {ws : List Write}
    (encoded : db.Encoded) (answer : (encodedPostgres num).exec s db = .ok (r, ws)) :
    ∀ w ∈ ws, w.Encoded := by
  have taken := unencodable_of_answer answer
  have texts := Stmt.unencodable_eq_none_iff.1 taken
  rw [exec_encoded taken] at answer
  cases s with
  | insertAccount | insertFill | insertPosition | insertMarketPrice | insertProcessed =>
    exact writeUnless_encodes answer trivial
  | updateAccount | updatePosition | updateMarketPrice =>
    exact updateRow_encodes answer fun _ _ => trivial
  | insertOrder row =>
    refine writeUnless_encodes answer ⟨?_, ?_, ?_, fun reason held => ?_⟩
    · exact texts (.orderClientOrderId, row.clientOrderId) (by simp [Stmt.texts])
    · exact texts (.orderIdempotencyKey, row.idempotencyKey) (by simp [Stmt.texts])
    · exact texts (.orderSymbol, row.symbol) (by simp [Stmt.texts])
    · refine texts (.orderRejectionReason, reason) (List.mem_append_right _ ?_)
      have reasoned : row.rejectionReason = some reason := held
      simp [changedReason, reasoned]
  | updateOrder loaded current =>
    exact updateRow_encodes answer fun row found =>
      Order.patch_nulFree texts (encoded row (Table.mem_of_find found))
  | insertOrderEvent row =>
    cases answer
    simp [Write.Encoded]
  | accountForUpdate | accountByUserId | orderForUpdate | orderByIdempotencyKey
  | orderByClientOrderId | positionForUpdate | positionsBySymbolForUpdate | marketPrice
  | processedByEventId =>
    cases answer
    simp

theorem Db.Encoded.view {num : Numeric} {ws : List Write} (encoded : db.Encoded)
    (writes : ∀ w ∈ ws, w.Encoded) : ((encodedPostgres num).view db ws).Encoded := by
  induction ws generalizing db with
  | nil => exact encoded
  | cons w ws ih =>
    refine ih ?_ fun v mem => writes v (List.mem_cons_of_mem _ mem)
    have first := writes w List.mem_cons_self
    cases w with
    | insertOrder row | updateOrder row => exact Table.forall_put first encoded
    | insertAccount | updateAccount | insertFill | insertPosition | updatePosition
    | insertMarketPrice | updateMarketPrice | insertProcessed | insertOrderEvent => exact encoded

theorem run_encodes {num : Numeric} {α : Type} {p : Txn α} {a : α} {db' : Db} (encoded : db.Encoded)
    (ran : p.run (encodedPostgres num) db = .ok (a, db')) : db'.Encoded :=
  invariant_of_follows (P := answered Stmt.unencodable) (I := Db.Encoded)
    (fun _ _ _ _ _ _ encoded answer =>
      ⟨unencodable_of_answer answer, encoded.view (exec_encodes encoded answer)⟩)
    (keeps_answered Stmt.unencodable p) encoded ran

theorem encodedCommitted_encoded {num : Numeric} {α : Type} (encoded : db.Encoded) (p : Txn α) :
    (encodedCommitted num p db).Encoded := by
  unfold encodedCommitted
  cases ran : p.run (encodedPostgres num) db with
  | error f => exact encoded
  | ok result => exact run_encodes encoded ran

theorem encodedStep_encoded (encoded : db.Encoded) (op : Op) : (encodedStep S db op).Encoded := by
  cases op <;> exact encodedCommitted_encoded encoded _

theorem encodedRun_encoded (encoded : db.Encoded) (ops : List Op) :
    (run (encodedStep S) db ops).Encoded :=
  run_invariant Db.Encoded (fun _ op h => encodedStep_encoded h op) encoded

end Runs

/-! What `process_event` sends of the texts of its event. -/

section Events

variable {num : Numeric} {db : Db} {event : BrokerExecutionEvent} {s : Session} {order : Order}

/-- What an event with an effect sends has no U+0000. -/
structure SentTexts (db : Db) (event : BrokerExecutionEvent) : Prop where
  fill : FillAttempt db event → NulFree (orDefault event.executionId event.eventId.str)
  rejection : ∀ order, db.orders.find event.orderId = some order →
    db.processedBrokerEvents.find event.eventId = none → event.eventType = .rejected →
    order.status = .routed → NulFree (orDefault event.reason "Rejected by broker")
  cancellation : ∀ order, db.orders.find event.orderId = some order →
    db.processedBrokerEvents.find event.eventId = none → event.eventType = .cancelled →
    order.status ∈ workingStatuses → NulFree (orDefault event.reason "Cancelled by broker")

theorem NulFree.append {a b : String} (ha : NulFree a) (hb : NulFree b) : NulFree (a ++ b) := by
  unfold NulFree at *
  simp [ha, hb]

theorem OrderStatus.value_nulFree (status : OrderStatus) : NulFree status.value := by
  cases status <;> decide

theorem BrokerEventType.value_nulFree (kind : BrokerEventType) : NulFree kind.value := by
  cases kind <;> decide

theorem releaseRemainingReservation_texts {a b : Account} {o : Order}
    (release : releaseRemainingReservation a o = .ok b) :
    b.userId = a.userId ∧ b.currency = a.currency := by
  rcases releaseRemainingReservation_ok release with ⟨-, rfl⟩ | ⟨-, -, -, rfl⟩
  · exact ⟨rfl, rfl⟩
  · exact ⟨rfl, rfl⟩

theorem Account.settleFill_texts {a b : Account} {o : Order} {q price : ℚ}
    (settle : a.settleFill o q price = .ok b) : b.userId = a.userId ∧ b.currency = a.currency := by
  rcases Account.settleFill_ok settle with ⟨-, -, -, rfl⟩ | ⟨-, rfl⟩
  · exact ⟨rfl, rfl⟩
  · exact ⟨rfl, rfl⟩

theorem executionId_of_isFill (isFill : event.eventType.isFill = true) :
    event.executionId = some (orDefault event.executionId event.eventId.str) := by
  obtain ⟨-, -, execution, held, nonempty⟩ := event.validateFillPayload isFill
  simp [held, orDefault, nonempty]

theorem fillData_nulFree (isFill : event.eventType.isFill = true)
    (free : NulFree (orDefault event.executionId event.eventId.str)) (price : ℚ) :
    ∀ text ∈ (fillData event price).texts, NulFree text := by
  intro text mem
  rw [fillData, executionId_of_isFill isFill] at mem
  have only : text = orDefault event.executionId event.eventId.str := by
    simpa [EventData.texts, DataValue.ofOption] using mem
  exact only ▸ free

namespace Session.NulFree

theorem accountForUpdate (h : s.NulFree) :
    (accountForUpdate s).Keeps encodable
      (fun i _ => i.attrs.userId = i.loaded.userId ∧ i.attrs.currency = i.loaded.currency) () := by
  refine keeps_issue rfl fun row _ => ?_
  cases row with
  | none => exact keeps_raise _
  | some row =>
    refine keeps_pure ?_
    cases held : s.account with
    | none => exact ⟨rfl, rfl⟩
    | some i =>
      simp only [Instance.resolve]
      split_ifs
      · exact h.account i held
      · exact ⟨rfl, rfl⟩

theorem cancelRemaining (h : s.NulFree) {reason : String} {data : EventData}
    (free : OrderManagement.NulFree reason)
    (texts : ∀ text ∈ data.texts, OrderManagement.NulFree text) :
    (cancelRemaining s reason data).Keeps encodable (fun s' _ => s'.NulFree) () := by
  refine keeps_bind h.accountForUpdate fun i _ same => keeps_lift fun released release => ?_
  have kept := releaseRemainingReservation_texts release
  have cancelled : (s.setOrder Order.cancelRest).NulFree :=
    h.setOrder ⟨h.order.clientOrderId, h.order.idempotencyKey, h.order.symbol,
      h.order.rejectionReason⟩
  refine (cancelled.setAccount (a := i.set fun _ => released) (kept.1.trans same.1)
    (kept.2.trans same.2)).transition _ _ fun text mem => ?_
  simp only [EventData.texts, List.filterMap_append, List.mem_append] at mem
  rcases mem with mem | mem
  · exact texts text mem
  · have only : text = reason := by simpa using mem
    exact only ▸ free

theorem applyExecution (h : s.NulFree) (q price : ℚ) :
    (applyExecution s q price).Keeps encodable (fun s' _ => s'.NulFree) () := by
  refine keeps_issue (Stmt.unencodable_of_one rfl h.order.symbol) fun found _ =>
    keeps_issue (Stmt.unencodable_of_one rfl h.order.symbol) fun price _ => ?_
  have withPosition : ∀ {s : Session}, s.NulFree → ∀ {row executed : Position}
      {q price mark : ℚ} {side : OrderSide}, row.executed side q price mark = .ok executed →
      Session.NulFree { s with position := some ⟨row, executed⟩ } := by
    intro s h row executed q price mark side execute
    refine ⟨h.order, h.account, fun p held => ?_⟩
    obtain rfl := Option.some.inj held
    exact congrArg Prod.snd (Position.executed_holding execute)
  cases found with
  | some row => exact keeps_lift fun executed execute => keeps_pure (withPosition h execute)
  | none =>
    refine keeps_bind h.flush fun s' _ h' =>
      keeps_issue (Stmt.unencodable_of_one rfl h.order.symbol) fun _ _ =>
        keeps_lift fun executed execute => keeps_pure (withPosition h' execute)

theorem concludeFill (h : s.NulFree) {data : EventData}
    (texts : ∀ text ∈ data.texts, OrderManagement.NulFree text) :
    (concludeFill s data).Keeps encodable (fun s' _ => s'.NulFree) () := by
  refine keeps_ite (fun _ => h.transition _ _ texts) fun _ => keeps_ite (fun _ => ?_) fun _ =>
    keeps_ite (fun _ => h.transition _ _ texts) fun _ => h.appendEvent _ _ _ texts
  exact keeps_bind (h.appendEvent _ _ _ texts) fun s' _ h' => h'.cancelRemaining (by decide) texts

end Session.NulFree

theorem Session.nulFree_of_order (texts : order.NulFree) : Session.NulFree { order := .of order } :=
  ⟨texts, fun _ held => (nomatch held), fun _ held => (nomatch held)⟩

def AnswerNulFree (answer : Session × Verdict) : Prop :=
  answer.1.NulFree ∧ ∀ reason ∈ answer.2.2, NulFree reason

theorem processedRow_nulFree (event : BrokerExecutionEvent) {verdict : Verdict}
    (free : ∀ reason ∈ verdict.2, NulFree reason) :
    ∀ text ∈ (processedRow event verdict).details.texts, NulFree text := by
  intro text mem
  cases held : verdict.2 with
  | none => simp [processedRow, held, EventData.texts] at mem
  | some reason =>
    have only : text = reason := by simpa [processedRow, held, EventData.texts] using mem
    exact only ▸ free reason held

theorem ignoredData_nulFree (event : BrokerExecutionEvent) {reason : Option String}
    (free : ∀ text ∈ reason, NulFree text) :
    ∀ text ∈ (ignoredData event reason).texts, NulFree text := by
  intro text mem
  have one : text = event.eventType.value ∨ reason = some text := by
    cases reason with
    | none => simpa [ignoredData, EventData.texts, DataValue.ofOption] using mem
    | some why => simpa [ignoredData, EventData.texts, DataValue.ofOption, eq_comm] using mem
  rcases one with rfl | held
  · exact event.eventType.value_nulFree
  · exact free text held

theorem applyFill_encodable (found : db.orders.find event.orderId = some order)
    (unprocessed : db.processedBrokerEvents.find event.eventId = none) (texts : order.NulFree)
    (isFill : event.eventType.isFill = true) (sent : SentTexts db event) :
    (applyFill { order := .of order } event).Keeps encodable (fun r _ => AnswerNulFree r) () := by
  have session := Session.nulFree_of_order texts
  have ignored : ∀ {reason : String}, NulFree reason →
      AnswerNulFree ({ order := .of order }, false, some reason) := fun free =>
    ⟨session, fun _ held => Option.some.inj held ▸ free⟩
  refine keeps_ite (fun _ => keeps_pure (ignored (.append (by decide) order.status.value_nulFree)))
    fun working => ?_
  cases priced : event.fillPrice with
  | none => exact keeps_raise _
  | some price =>
    refine keeps_ite (fun _ => keeps_raise _) fun _ => keeps_ite
      (fun _ => keeps_pure (ignored (by decide))) fun covered => keeps_ite
      (fun _ => keeps_pure (ignored (by decide))) fun whole => keeps_lift fun booked book => ?_
    have free := sent.fill
      { order, price, found, unprocessed, isFill, priced
        working := not_not.1 working
        covered := not_lt.1 covered
        whole := fun full => by_contra fun part => whole ⟨full, part⟩ }
    have data := fillData_nulFree isFill free price
    obtain ⟨-, rfl⟩ := Order.bookFill_ok book
    refine keeps_bind (session.setOrder ⟨texts.clientOrderId, texts.idempotencyKey, texts.symbol,
      texts.rejectionReason⟩).flush fun s _ h => keeps_issue (Stmt.unencodable_of_one rfl free)
      fun _ _ => keeps_bind h.accountForUpdate fun i _ same => keeps_lift fun settled settle => ?_
    have kept := Account.settleFill_texts settle
    refine keeps_bind ((h.setAccount (a := i.set fun _ => settled) (kept.1.trans same.1)
      (kept.2.trans same.2)).applyExecution _ _) fun s' _ h' =>
      keeps_bind (h'.concludeFill data) fun s'' _ h'' =>
        keeps_pure ⟨h'', fun _ held => nomatch held⟩

theorem applyRejection_encodable (found : db.orders.find event.orderId = some order)
    (unprocessed : db.processedBrokerEvents.find event.eventId = none) (texts : order.NulFree)
    (rejection : event.eventType = .rejected) (sent : SentTexts db event) :
    (applyRejection { order := .of order } event).Keeps encodable
      (fun r _ => AnswerNulFree r) () := by
  have session := Session.nulFree_of_order texts
  refine keeps_ite (fun _ => keeps_pure ⟨session, fun _ held => Option.some.inj held ▸
    .append (by decide) order.status.value_nulFree⟩) fun routed => ?_
  have free := sent.rejection order found unprocessed rejection (not_not.1 routed)
  refine keeps_bind session.accountForUpdate fun i _ same => keeps_lift fun released release => ?_
  have kept := releaseRemainingReservation_texts release
  have reasoned : Session.NulFree (Session.setOrder { order := .of order } fun o =>
      { o with rejectionReason := some (orDefault event.reason "Rejected by broker") }) :=
    session.setOrder ⟨texts.clientOrderId, texts.idempotencyKey, texts.symbol,
      fun _ held => Option.some.inj held ▸ free⟩
  refine keeps_bind ((reasoned.setAccount (a := i.set fun _ => released) (kept.1.trans same.1)
    (kept.2.trans same.2)).transition _ _ fun text mem => ?_) fun s' _ h' =>
    keeps_pure ⟨h', fun _ held => nomatch held⟩
  have only : text = orDefault event.reason "Rejected by broker" := by
    simpa [EventData.texts] using mem
  exact only ▸ free

theorem applyCancellation_encodable (found : db.orders.find event.orderId = some order)
    (unprocessed : db.processedBrokerEvents.find event.eventId = none) (texts : order.NulFree)
    (cancellation : event.eventType = .cancelled) (sent : SentTexts db event) :
    (applyCancellation { order := .of order } event).Keeps encodable
      (fun r _ => AnswerNulFree r) () := by
  have session := Session.nulFree_of_order texts
  refine keeps_ite (fun _ => keeps_pure ⟨session, fun _ held => Option.some.inj held ▸
    .append (by decide) order.status.value_nulFree⟩) fun working => ?_
  have free := sent.cancellation order found unprocessed cancellation (not_not.1 working)
  exact keeps_bind (session.cancelRemaining free fun text mem => by simp [EventData.texts] at mem)
    fun s' _ h' => keeps_pure ⟨h', fun _ held => nomatch held⟩

theorem processEvent_run_encoded (encoded : db.Encoded) (sent : SentTexts db event)
    (num : Numeric) :
    (processEvent event).run (encodedPostgres num) db =
      (processEvent event).run (postgres num) db := by
  refine run_lookup_encoded rfl rfl ?_
  cases found : db.orders.find event.orderId with
  | none => rfl
  | some order =>
    refine run_lookup_encoded rfl rfl ?_
    cases unprocessed : db.processedBrokerEvents.find event.eventId with
    | some row => rfl
    | none =>
      have texts := encoded order (Table.mem_of_find found)
      have dispatched : (dispatch { order := .of order } event).Keeps encodable
          (fun r _ => AnswerNulFree r) () := by
        unfold dispatch
        cases kind : event.eventType with
        | fullFill | partialFill =>
          exact applyFill_encodable found unprocessed texts (by rw [kind]; rfl) sent
        | rejected => exact applyRejection_encodable found unprocessed texts kind sent
        | cancelled => exact applyCancellation_encodable found unprocessed texts kind sent
      refine run_guarded (Q := fun _ _ => True) (g := ()) ?_ db
      refine keeps_bind dispatched fun r _ free => keeps_issue ?_ fun _ _ =>
        keeps_ite (fun _ => keeps_pure trivial) fun _ =>
          keeps_bind (free.1.appendEvent _ _ _ fun text mem => ?_) fun _ _ _ => keeps_pure trivial
      · refine Stmt.unencodable_eq_none_iff.2 fun t mem => ?_
        obtain ⟨text, held, rfl⟩ := List.mem_map.1 mem
        exact processedRow_nulFree event free.2 text held
      · exact ignoredData_nulFree event free.2 text mem

/-! The converse: an event that returns has sent its texts. -/

theorem appendEvent_answered (eventType : OrderEventType) (previous new : Option OrderStatus)
    (data : EventData) : (appendEvent s eventType previous new data).Keeps
      (answered Stmt.unencodable) (fun _ _ => ∀ text ∈ data.texts, NulFree text) () := by
  refine keeps_bind (keeps_answered _ _) fun _ _ _ => keeps_issue trivial fun _ taken =>
    keeps_pure fun text mem => ?_
  exact Stmt.unencodable_eq_none_iff.1 taken (.orderEventData, text)
    (List.mem_map.2 ⟨text, mem, rfl⟩)

theorem transition_answered (target : OrderStatus) (eventType : OrderEventType) (data : EventData) :
    (transition s target eventType data).Keeps (answered Stmt.unencodable)
      (fun _ _ => ∀ text ∈ data.texts, NulFree text) () :=
  keeps_lift fun _ _ => appendEvent_answered _ _ _ _

theorem applyFill_answered (t : FillAttempt db event) :
    (applyFill { order := .of t.order } event).Keeps (answered Stmt.unencodable)
      (fun _ _ => NulFree (orDefault event.executionId event.eventId.str)) () := by
  have part : ¬ (event.eventType = .fullFill ∧ event.filledQuantity ≠ t.order.remainingQuantity) :=
    fun h => h.2 (t.whole h.1)
  unfold applyFill
  simp only [Instance.of, t.working, not_true_eq_false, if_false, t.priced, not_le.2 t.positive,
    gt_iff_lt, not_lt.2 t.covered, part]
  refine keeps_lift fun booked _ => keeps_bind (keeps_answered _ _) fun _ _ _ =>
    keeps_issue trivial fun _ taken => ?_
  have free : NulFree (orDefault event.executionId event.eventId.str) :=
    Stmt.unencodable_eq_none_iff.1 taken _ (List.mem_singleton_self _)
  exact keeps_mono (keeps_answered _ _) fun _ _ _ => free

theorem applyRejection_answered (routed : order.status = .routed) :
    (applyRejection { order := .of order } event).Keeps (answered Stmt.unencodable)
      (fun _ _ => NulFree (orDefault event.reason "Rejected by broker")) () := by
  unfold applyRejection
  simp only [Instance.of, routed, ne_eq, not_true_eq_false, if_false]
  exact keeps_bind (keeps_answered _ _) fun _ _ _ => keeps_lift fun _ _ =>
    keeps_bind (transition_answered _ _ _) fun _ _ texts =>
      keeps_pure (texts _ (by simp [EventData.texts]))

theorem applyCancellation_answered (working : order.status ∈ workingStatuses) :
    (applyCancellation { order := .of order } event).Keeps (answered Stmt.unencodable)
      (fun _ _ => NulFree (orDefault event.reason "Cancelled by broker")) () := by
  unfold applyCancellation
  simp only [Instance.of, working, not_true_eq_false, if_false]
  refine keeps_bind (R := fun _ _ => NulFree (orDefault event.reason "Cancelled by broker")) ?_
    fun _ _ free => keeps_pure free
  refine keeps_bind (keeps_answered _ _) fun _ _ _ => keeps_lift fun _ _ => ?_
  exact keeps_mono (transition_answered _ _ _) fun _ _ texts => texts _ (by simp [EventData.texts])

theorem sentTexts_of_return {answer : Bool} {db' : Db}
    (ran : (processEvent event).run (encodedPostgres num) db = .ok (answer, db')) :
    SentTexts db event := by
  have dispatched : ∀ {order : Order} {Q : Prop}, db.orders.find event.orderId = some order →
      db.processedBrokerEvents.find event.eventId = none →
      (dispatch { order := .of order } event).Keeps (answered Stmt.unencodable)
        (fun _ _ => Q) () → Q := by
    intro order Q found unprocessed shown
    have first : (encodedPostgres num).exec (.orderForUpdate event.orderId) db =
        .ok (some order, []) := (exec_encoded rfl num db).trans (by simp only [exec, found])
    have second : (encodedPostgres num).exec (.processedByEventId event.eventId) db =
        .ok (none, []) := (exec_encoded rfl num db).trans (by simp only [exec, unprocessed])
    have rest := ((run_request_of_ok _ first).trans (run_request_of_ok _ second)).symm.trans ran
    exact returns_of_answered (E := postgres num) (Q := fun _ _ => Q)
      (keeps_bind shown fun _ _ q => keeps_mono (keeps_answered _ _) fun _ _ _ => q) rest
  refine ⟨fun t => dispatched t.found t.unprocessed ?_,
    fun order found unprocessed rejection routed => dispatched found unprocessed ?_,
    fun order found unprocessed cancellation working => dispatched found unprocessed ?_⟩
  · have isFill := t.isFill
    unfold dispatch
    cases kind : event.eventType with
    | fullFill | partialFill => exact applyFill_answered t
    | rejected | cancelled =>
      rw [kind] at isFill
      cases isFill
  · simpa only [dispatch, rejection] using applyRejection_answered routed
  · simpa only [dispatch, cancellation] using applyCancellation_answered working

end Events

end OrderManagement
