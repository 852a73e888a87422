import OrderManagement.OrderServices
import OrderManagement.TransactionProtocol

/-! Texts on their way to the database. PostgreSQL takes no text with U+0000, neither as a
column nor as a parameter of a query nor inside a JSON document. -/

namespace OrderManagement

open Program

/-- A text that PostgreSQL takes. -/
def NulFree (text : String) : Prop := Char.ofNat 0 ∉ text.toList

instance (text : String) : Decidable (NulFree text) := inferInstanceAs (Decidable (¬ _))

def EventData.texts (data : EventData) : List String :=
  data.filterMap fun entry =>
    match entry.2 with
    | .text value => some value
    | .uuid _ | .decimal _ | .null => none

/-- A text attribute goes with an UPDATE only if it changed. -/
def changedText (column : Column) (loaded current : String) : List (Column × String) :=
  if current = loaded then [] else [(column, current)]

def changedReason (loaded current : Option String) : List (Column × String) :=
  if current = loaded then [] else current.toList.map fun text => (.orderRejectionReason, text)

def Stmt.texts {β : Type} : Stmt β → List (Column × String)
  | .accountForUpdate _ | .orderForUpdate _ | .processedByEventId _ => []
  | .accountByUserId userId => [(.accountUserId, userId)]
  | .insertAccount row => [(.accountUserId, row.userId), (.accountCurrency, row.currency)]
  | .updateAccount loaded current =>
    changedText .accountUserId loaded.userId current.userId ++
      changedText .accountCurrency loaded.currency current.currency
  | .orderByIdempotencyKey _ idempotencyKey => [(.orderIdempotencyKey, idempotencyKey)]
  | .orderByClientOrderId _ clientOrderId => [(.orderClientOrderId, clientOrderId)]
  | .insertOrder row =>
    [(.orderClientOrderId, row.clientOrderId), (.orderIdempotencyKey, row.idempotencyKey),
      (.orderSymbol, row.symbol)] ++ changedReason none row.rejectionReason
  | .updateOrder loaded current =>
    changedText .orderClientOrderId loaded.clientOrderId current.clientOrderId ++
      changedText .orderIdempotencyKey loaded.idempotencyKey current.idempotencyKey ++
      changedText .orderSymbol loaded.symbol current.symbol ++
      changedReason loaded.rejectionReason current.rejectionReason
  | .insertFill row => [(.fillExecutionId, row.executionId)]
  | .positionForUpdate _ symbol => [(.positionSymbol, symbol)]
  | .positionsBySymbolForUpdate symbol => [(.positionSymbol, symbol)]
  | .insertPosition row => [(.positionSymbol, row.symbol)]
  | .updatePosition loaded current => changedText .positionSymbol loaded.symbol current.symbol
  | .marketPrice symbol => [(.marketPriceSymbol, symbol)]
  | .insertMarketPrice row => [(.marketPriceSymbol, row.symbol)]
  | .updateMarketPrice loaded current =>
    changedText .marketPriceSymbol loaded.symbol current.symbol
  | .insertProcessed row => row.details.texts.map fun text => (.processedEventDetails, text)
  | .insertOrderEvent row => row.eventData.texts.map fun text => (.orderEventData, text)

/-- The error of a statement that sends a text the database does not take. -/
def Stmt.unencodable {β : Type} (s : Stmt β) : Option Failure :=
  (s.texts.find? fun t => ¬ NulFree t.2).map fun t => .data t.1

theorem Stmt.unencodable_eq_none_iff {β : Type} {s : Stmt β} :
    s.unencodable = none ↔ ∀ t ∈ s.texts, NulFree t.2 := by
  simp [unencodable, List.find?_eq_none]

theorem Stmt.unencodable_of_one {β : Type} {s : Stmt β} {column : Column} {text : String}
    (texts : s.texts = [(column, text)]) (free : NulFree text) : s.unencodable = none := by
  refine Stmt.unencodable_eq_none_iff.2 fun t mem => ?_
  rw [texts, List.mem_singleton] at mem
  exact mem ▸ free

theorem Stmt.unencodable_isRefusal {β : Type} {s : Stmt β} {f : Failure}
    (h : s.unencodable = some f) : f.isRefusal = true := by
  obtain ⟨t, -, rfl⟩ := Option.map_eq_some_iff.1 h
  rfl

/-- PostgreSQL as the statements reach it. -/
def encodedPostgres (num : Numeric) : Engine Stmt Failure Db Write :=
  guarded (postgres num) Stmt.unencodable

def encodable : Protocol Stmt Unit := unrefused Stmt.unencodable

theorem mem_changedText {column : Column} {loaded current : String} {t : Column × String}
    (mem : t ∈ changedText column loaded current) : current ≠ loaded ∧ t.2 = current := by
  unfold changedText at mem
  split_ifs at mem with same
  · cases mem
  · exact ⟨same, congrArg Prod.snd (List.mem_singleton.1 mem)⟩

theorem mem_changedReason {loaded current : Option String} {t : Column × String}
    (mem : t ∈ changedReason loaded current) : t.2 ∈ current := by
  unfold changedReason at mem
  split_ifs at mem
  · cases mem
  · obtain ⟨text, held, rfl⟩ := List.mem_map.1 mem
    exact Option.mem_toList.1 held

structure Order.NulFree (o : Order) : Prop where
  clientOrderId : OrderManagement.NulFree o.clientOrderId
  idempotencyKey : OrderManagement.NulFree o.idempotencyKey
  symbol : OrderManagement.NulFree o.symbol
  rejectionReason : ∀ reason ∈ o.rejectionReason, OrderManagement.NulFree reason

structure Session.NulFree (s : Session) : Prop where
  order : s.order.attrs.NulFree
  account : ∀ a ∈ s.account, a.attrs.userId = a.loaded.userId ∧ a.attrs.currency = a.loaded.currency
  position : ∀ p ∈ s.position, p.attrs.symbol = p.loaded.symbol

namespace Session.NulFree

variable {s : Session} (h : s.NulFree)

include h

theorem flushed : s.flushed.NulFree where
  order := h.order
  account a held := by
    obtain ⟨b, -, rfl⟩ := Option.map_eq_some_iff.1 held
    exact ⟨rfl, rfl⟩
  position p held := by
    obtain ⟨q, -, rfl⟩ := Option.map_eq_some_iff.1 held
    rfl

theorem setOrder {f : Order → Order} (order : (f s.order.attrs).NulFree) :
    (s.setOrder f).NulFree :=
  ⟨order, h.account, h.position⟩

theorem setAccount {a : Instance Account} (userId : a.attrs.userId = a.loaded.userId)
    (currency : a.attrs.currency = a.loaded.currency) :
    Session.NulFree { s with account := some a } :=
  ⟨h.order, fun _ held => Option.some.inj held ▸ ⟨userId, currency⟩, h.position⟩

theorem flush : (flush s).Keeps encodable (fun s' _ => s'.NulFree) () := by
  have order : (Stmt.updateOrder s.order.loaded s.order.attrs).unencodable = none := by
    refine Stmt.unencodable_eq_none_iff.2 fun t mem => ?_
    simp only [Stmt.texts, List.mem_append] at mem
    rcases mem with ((client | key) | symbol) | reason
    · exact (mem_changedText client).2 ▸ h.order.clientOrderId
    · exact (mem_changedText key).2 ▸ h.order.idempotencyKey
    · exact (mem_changedText symbol).2 ▸ h.order.symbol
    · exact h.order.rejectionReason _ (mem_changedReason reason)
  refine keeps_bind (R := fun _ _ => True) ?_ fun _ _ _ => keeps_issue order fun _ _ =>
    keeps_bind (R := fun _ _ => True) ?_ fun _ _ _ => keeps_pure h.flushed
  · cases held : s.account with
    | none => exact keeps_pure trivial
    | some a =>
      obtain ⟨userId, currency⟩ := h.account a held
      refine ⟨Stmt.unencodable_eq_none_iff.2 fun t mem => ?_, fun _ _ => trivial⟩
      rcases List.mem_append.1 mem with user | money
      · exact absurd userId (mem_changedText user).1
      · exact absurd currency (mem_changedText money).1
  · cases held : s.position with
    | none => exact keeps_pure trivial
    | some p =>
      exact ⟨Stmt.unencodable_eq_none_iff.2 fun t mem =>
        absurd (h.position p held) (mem_changedText mem).1, fun _ _ => trivial⟩

theorem appendEvent (eventType : OrderEventType) (previous new : Option OrderStatus)
    {data : EventData} (texts : ∀ text ∈ data.texts, OrderManagement.NulFree text) :
    (appendEvent s eventType previous new data).Keeps encodable (fun s' _ => s'.NulFree) () := by
  refine keeps_bind h.flush fun s' _ h' => keeps_issue ?_ fun _ _ => keeps_pure h'
  refine Stmt.unencodable_eq_none_iff.2 fun t mem => ?_
  obtain ⟨text, held, rfl⟩ := List.mem_map.1 mem
  exact texts text held

theorem transition (target : OrderStatus) (eventType : OrderEventType) {data : EventData}
    (texts : ∀ text ∈ data.texts, OrderManagement.NulFree text) :
    (transition s target eventType data).Keeps encodable (fun s' _ => s'.NulFree) () :=
  keeps_lift fun _ _ =>
    (h.setOrder (f := fun o => { o with status := target, version := o.version + 1 })
    ⟨h.order.clientOrderId, h.order.idempotencyKey, h.order.symbol,
      h.order.rejectionReason⟩).appendEvent
      _ _ _ texts

end Session.NulFree

structure OrderCreate.NulFree (payload : OrderCreate) : Prop where
  clientOrderId : OrderManagement.NulFree payload.clientOrderId
  idempotencyKey : OrderManagement.NulFree payload.idempotencyKey
  symbol : OrderManagement.NulFree payload.symbol

section Submission

variable {settings : Settings} {draw : CreateDraw} {payload : OrderCreate}

theorem insufficientBuyingPower_nulFree : NulFree DomainError.insufficientBuyingPower.message := by
  decide

theorem newOrder_nulFree (h : payload.NulFree) : (newOrder settings draw payload).NulFree :=
  ⟨h.clientOrderId, h.idempotencyKey, h.symbol, fun _ none_ => nomatch none_⟩

theorem placeOrder_encodable (h : payload.NulFree) (account : Account) :
    (placeOrder settings draw payload (.of account)).Keeps encodable (fun _ _ => True) () := by
  have order : (newOrder settings draw payload).NulFree := newOrder_nulFree h
  have session : Session.NulFree
      { order := .of (newOrder settings draw payload), account := some (.of account) } :=
    ⟨order, fun _ held => Option.some.inj held ▸ ⟨rfl, rfl⟩, fun _ none_ => nomatch none_⟩
  refine keeps_issue ?_ fun _ _ => keeps_bind (session.appendEvent _ _ _ ?_) fun s _ logged => ?_
  · refine Stmt.unencodable_eq_none_iff.2 fun t mem => ?_
    rcases List.mem_append.1 mem with texts | reason
    · have sent : t = (.orderClientOrderId, payload.clientOrderId) ∨
          t = (.orderIdempotencyKey, payload.idempotencyKey) ∨
          t = (.orderSymbol, payload.symbol) := by
        simpa [newOrder] using texts
      rcases sent with rfl | rfl | rfl
      · exact h.clientOrderId
      · exact h.idempotencyKey
      · exact h.symbol
    · exact order.rejectionReason _ (mem_changedReason reason)
  · intro text mem
    have sent : text = payload.clientOrderId ∨ text = payload.symbol := by
      simpa [EventData.texts, newOrder] using mem
    rcases sent with rfl | rfl
    · exact h.clientOrderId
    · exact h.symbol
  dsimp only
  cases refused : ensureSufficientBuyingPower (Instance.of account).attrs.availableCash
    (requiredBuyingPower payload.side payload.quantity payload.price) with
  | error exc =>
    have message : NulFree exc.message := by
      unfold ensureSufficientBuyingPower at refused
      split_ifs at refused
      exact Except.error.inj refused ▸ insufficientBuyingPower_nulFree
    have reasoned : (s.setOrder fun o => { o with rejectionReason := some exc.message }).NulFree :=
      logged.setOrder ⟨logged.order.clientOrderId, logged.order.idempotencyKey, logged.order.symbol,
        fun _ held => Option.some.inj held ▸ message⟩
    refine keeps_bind (reasoned.transition _ _ fun text mem => ?_) fun _ _ _ => keeps_pure trivial
    have only : text = exc.message := by simpa [EventData.texts] using mem
    exact only ▸ message
  | ok _ =>
    refine keeps_bind (logged.transition _ _ fun text mem => nomatch mem) fun u _ validated => ?_
    have charged : ∀ {c : Prop} [Decidable c],
        Session.NulFree { u with account := some (if c then (Instance.of account).set
          (Account.reserve · (requiredBuyingPower payload.side payload.quantity payload.price))
            else .of account) } := by
      intro c _
      split_ifs
      · exact validated.setAccount rfl rfl
      · exact validated.setAccount rfl rfl
    exact keeps_bind (charged.transition _ _ fun text mem => nomatch mem) fun _ _ _ =>
      keeps_pure trivial

theorem createOrder_encodable (h : payload.NulFree) :
    (createOrder settings draw payload).Keeps encodable (fun _ _ => True) () := by
  refine keeps_issue rfl fun found _ => ?_
  cases found with
  | none => exact keeps_raise _
  | some account =>
    refine keeps_issue (Stmt.unencodable_of_one rfl h.idempotencyKey) fun keyed _ => ?_
    cases keyed with
    | some existing => exact keeps_ite (fun _ => keeps_pure trivial) fun _ => keeps_raise _
    | none =>
      refine keeps_issue (Stmt.unencodable_of_one rfl h.clientOrderId) fun taken _ => ?_
      cases taken with
      | some _ => exact keeps_raise _
      | none => exact placeOrder_encodable h account

theorem exec_encoded {β : Type} {s : Stmt β} (h : s.unencodable = none) (num : Numeric) (db : Db) :
    (encodedPostgres num).exec s db = exec num s db := by
  simp only [encodedPostgres, guarded, h]
  rfl

theorem exec_encoded_refused {β : Type} {s : Stmt β} {t : Column × String} (sent : t ∈ s.texts)
    (nul : ¬ NulFree t.2) (num : Numeric) (db : Db) :
    ∃ f, f.isRefusal = true ∧ (encodedPostgres num).exec s db = .error f := by
  cases h : s.unencodable with
  | none => exact absurd (Stmt.unencodable_eq_none_iff.1 h t sent) nul
  | some f => exact ⟨f, Stmt.unencodable_isRefusal h, by simp only [encodedPostgres, guarded, h]⟩

/-- With U+0000 in one of its texts, the first submission of an account is refused. -/
theorem createOrder_refused_of_nul {num : Numeric} {db : Db} {account : Account}
    (found : db.accounts.find payload.accountId = some account) (noOrders : db.orders.rows = [])
    (nul : ¬ payload.NulFree) : ∃ f, f.isRefusal = true ∧
      (createOrder settings draw payload).run (encodedPostgres num) db = .error f := by
  have byKey : db.byIdempotencyKey payload.accountId payload.idempotencyKey = none :=
    Table.first_eq_none_iff.2 (by simp [noOrders])
  have byClient : db.byClientOrderId payload.accountId payload.clientOrderId = none :=
    Table.first_eq_none_iff.2 (by simp [noOrders])
  have outcome : (createOrder settings draw payload).wp (encodedPostgres num) (fun _ _ => False)
      (fun f => f.isRefusal = true) db := by
    have raises : ∀ {β γ : Type} {s : Stmt β} {next : β → Txn γ} {t : Column × String} {db' : Db},
        t ∈ s.texts → ¬ NulFree t.2 → (issue s >>= next).wp (encodedPostgres num) (fun _ _ => False)
          (fun f => f.isRefusal = true) db' := by
      intro β γ s next t db' sent nul
      obtain ⟨f, refusal, error⟩ := exec_encoded_refused sent nul num db'
      rw [wp_bind, issue, wp_request_of_error _ error]
      exact refusal
    have account_ : (encodedPostgres num).exec (.accountForUpdate payload.accountId) db =
        .ok (some account, []) := (exec_encoded rfl num db).trans (by simp only [exec, found])
    unfold createOrder
    rw [wp_bind, wp_issue_of_ok _ account_]
    by_cases key : NulFree payload.idempotencyKey
    swap
    · exact raises (List.mem_singleton_self _) key
    have keyed : (encodedPostgres num).exec
        (.orderByIdempotencyKey payload.accountId payload.idempotencyKey) db = .ok (none, []) :=
      (exec_encoded (Stmt.unencodable_of_one rfl key) num db).trans (by simp only [exec, byKey])
    rw [wp_bind, Engine.view_nil, wp_issue_of_ok _ keyed]
    by_cases client : NulFree payload.clientOrderId
    swap
    · exact raises (List.mem_singleton_self _) client
    have named : (encodedPostgres num).exec
        (.orderByClientOrderId payload.accountId payload.clientOrderId) db = .ok (none, []) :=
      (exec_encoded (Stmt.unencodable_of_one rfl client) num db).trans
        (by simp only [exec, byClient])
    rw [wp_bind, Engine.view_nil, wp_issue_of_ok _ named]
    by_cases symbol : NulFree payload.symbol
    · exact absurd ⟨client, key, symbol⟩ nul
    · exact raises (t := (.orderSymbol, payload.symbol)) (by simp [Stmt.texts, newOrder]) symbol
  cases ran : (createOrder settings draw payload).run (encodedPostgres num) db with
  | error f =>
    have refusal := wp_error _ outcome ran
    exact ⟨f, refusal, rfl⟩
  | ok answer => exact (wp_ok _ outcome ran).elim

theorem createOrder_run_encoded (settings : Settings) (draw : CreateDraw) {payload : OrderCreate}
    (h : payload.NulFree) (num : Numeric) (db : Db) :
    (createOrder settings draw payload).run (encodedPostgres num) db =
      (createOrder settings draw payload).run (postgres num) db :=
  run_guarded (createOrder_encodable h) db

end Submission

end OrderManagement
