import OrderManagement.FillOutcomes
import OrderManagement.StatementLocks

/-! The discipline of the order transactions: an order is inserted, and a position
read or written, under the lock on its account; what an order submitted is never
updated; and an event looked up as unprocessed is recorded before the end. -/

namespace OrderManagement

open Program

/-- How far a transaction has got: on its way, with the account it has locked last, the
event it has to record and whether it has written nothing yet; left with a reply
to a repeated submission; or left with an error. -/
inductive Stage
  | live (account pending : Option UUID) (clean : Bool)
  | replied
  | broken

def Stmt.Allowed (submits : Bool) (account pending : Option UUID) (clean : Bool) {β : Type} :
    Stmt β → Prop
  | .accountForUpdate _ | .orderForUpdate _ | .updateAccount _ _ | .insertFill _ | .marketPrice _
  | .insertOrderEvent _ => True
  | .orderByIdempotencyKey accountId _ =>
    submits = true ∧ account = some accountId ∧ pending = none ∧ clean = true
  | .orderByClientOrderId accountId _ => account = some accountId
  | .insertOrder row => account = some row.accountId
  | .updateOrder loaded current => current.submission = loaded.submission
  | .positionForUpdate accountId _ => account = some accountId
  | .insertPosition row => account = some row.accountId
  | .updatePosition loaded _ => account = some loaded.accountId
  | .processedByEventId _ => submits = false ∧ pending = none
  | .insertProcessed row => pending = some row.brokerEventId
  | .accountByUserId _ | .insertAccount _ | .positionsBySymbolForUpdate _ | .insertMarketPrice _
  | .updateMarketPrice _ _ => False

def Stage.next {β : Type} : Stage → Stmt β → β → Stage
  | .live _ pending clean, .accountForUpdate id, found =>
    if found.isSome then .live (some id) pending clean else .broken
  | .live account pending clean, .orderForUpdate _, found =>
    if found.isSome then .live account pending clean else .broken
  | .live account pending clean, .orderByIdempotencyKey _ _, found =>
    if found.isSome then .replied else .live account pending clean
  | .live account pending clean, .orderByClientOrderId _ _, found =>
    if found.isSome then .broken else .live account pending clean
  | .live account pending clean, .processedByEventId eventId, found =>
    if found.isSome then .live account pending clean else .live account (some eventId) clean
  | .live account pending clean, .positionForUpdate _ _, _ => .live account pending clean
  | .live account pending clean, .marketPrice _, _ => .live account pending clean
  | .live account _ _, .insertProcessed _, _ => .live account none false
  | .live account pending _, _, _ => .live account pending false
  | stage, _, _ => stage

def discipline (submits : Bool) : Protocol Stmt Stage where
  allows
    | .live account pending clean, s => s.Allowed submits account pending clean
    | _, _ => False
  expected
    | .positionForUpdate accountId symbol, found =>
      ∀ p ∈ found, p.holding = (accountId, symbol)
    | _, _ => True
  after := Stage.next

def Stage.Closed : Stage → Prop
  | .live _ pending _ => pending = none
  | .replied => True
  | .broken => False

/-- A session that keeps to the discipline while `account` is the account locked last. -/
structure Session.Disciplined (account : Option UUID) (s : Session) : Prop where
  order : s.order.attrs.submission = s.order.loaded.submission
  position : ∀ p ∈ s.position, account = some s.order.attrs.accountId ∧
    p.loaded.accountId = s.order.attrs.accountId ∧ p.attrs.accountId = s.order.attrs.accountId

theorem Session.disciplined_of (account : Option UUID) (o : Order) (a : Option (Instance Account)) :
    Session.Disciplined account { order := .of o, account := a } := ⟨rfl, by simp⟩

namespace Session.Disciplined

variable {account : Option UUID} {s : Session}

theorem flushed (h : s.Disciplined account) : s.flushed.Disciplined account where
  order := rfl
  position p hp := by
    obtain ⟨q, hq, rfl⟩ := Option.map_eq_some_iff.1 hp
    obtain ⟨locked, -, attrs⟩ := h.position q hq
    exact ⟨locked, attrs, attrs⟩

theorem setOrder (h : s.Disciplined account) {f : Order → Order}
    (keeps : (f s.order.attrs).submission = s.order.attrs.submission) :
    (s.setOrder f).Disciplined account where
  order := keeps.trans h.order
  position p hp := by
    have same : (f s.order.attrs).accountId = s.order.attrs.accountId := congrArg Prod.fst keeps
    simp only [Session.setOrder, Instance.set, same]
    exact h.position p hp

theorem setAccount (h : s.Disciplined account) (a : Option (Instance Account)) :
    Session.Disciplined account { s with account := a } := ⟨h.order, h.position⟩

theorem relock (h : s.Disciplined account) : s.Disciplined (some s.order.attrs.accountId) :=
  ⟨h.order, fun p hp => ⟨rfl, (h.position p hp).2⟩⟩

end Session.Disciplined

section Follows

variable {submits clean : Bool} {account pending : Option UUID} {s : Session} {X : Failure → Prop}
  {data : EventData}

theorem flush_follows {Q : Session → Stage → Prop} (h : s.Disciplined account)
    (done : Q s.flushed (.live account pending false)) :
    (flush s).Follows (discipline submits) Q X (.live account pending clean) := by
  unfold flush
  have order : ∀ clean, (issue (Stmt.updateOrder s.order.loaded s.order.attrs) >>= fun _ =>
      flushPosition s.position >>= fun _ => pure s.flushed).Follows (discipline submits) Q X
      (.live account pending clean) := by
    intro clean
    refine (follows_issue_bind _ _ _).2 ⟨h.order, fun _ _ => (follows_bind _ _ _).2 ?_⟩
    cases hp : s.position with
    | none => exact done
    | some p =>
      obtain ⟨locked, same, -⟩ := h.position p hp
      exact ⟨locked.trans (congrArg some same.symm), fun _ _ => done⟩
  cases s.account with
  | none => exact order clean
  | some a => exact (follows_issue_bind _ _ _).2 ⟨trivial, fun _ _ => order false⟩

theorem appendEvent_follows {Q : Session → Stage → Prop} {eventType : OrderEventType}
    {previous new : Option OrderStatus} (h : s.Disciplined account)
    (done : Q s.flushed (.live account pending false)) :
    (appendEvent s eventType previous new data).Follows (discipline submits) Q X
      (.live account pending clean) := by
  unfold appendEvent
  rw [follows_bind]
  exact flush_follows h ⟨trivial, fun _ _ => done⟩

theorem transition_follows {Q : Session → Stage → Prop} {target : OrderStatus}
    {eventType : OrderEventType} (raises : ∀ e, X (.domain e)) (h : s.Disciplined account)
    (done : ∀ t : Session, t.Disciplined account →
      t.order.attrs.submission = s.order.attrs.submission →
      Q t (.live account pending false)) :
    (transition s target eventType data).Follows (discipline submits) Q X
      (.live account pending clean) := by
  unfold transition
  rw [follows_bind, follows_liftExcept]
  refine ⟨fun _ _ => ?_, fun e he => ?_⟩
  · have moved :=
      h.setOrder (f := fun o => { o with status := target, version := o.version + 1 }) rfl
    exact appendEvent_follows moved (done _ moved.flushed rfl)
  · unfold ensureTransitionAllowed at he
    split_ifs at he
    exact Except.error.inj he ▸ raises _

theorem accountForUpdate_follows {Q : Instance Account → Stage → Prop}
    (raises : ∀ e, X (.domain e))
    (done : ∀ a, Q a (.live (some s.order.attrs.accountId) pending clean)) :
    (accountForUpdate s).Follows (discipline submits) Q X (.live account pending clean) := by
  unfold accountForUpdate
  rw [follows_issue_bind]
  refine ⟨trivial, fun found _ => ?_⟩
  cases found with
  | none => exact raises _
  | some row => exact done _

end Follows

/-! One statement of a live transaction. -/

theorem Stmt.Covered.mono {W V : Lock → Prop} {β : Type} {s : Stmt β} {r : β}
    (h : s.Covered W β r) (more : ∀ k, W k → V k) : s.Covered V β r := by
  cases s with
  | updateAccount | updateOrder => exact h.imp_right (more _)
  | orderByIdempotencyKey | orderByClientOrderId => exact h.imp_right (more _)
  | insertOrder | insertFill => exact h.imp (more _) (more _)
  | processedByEventId => exact h.imp_right (more _)
  | accountForUpdate | orderForUpdate | positionForUpdate | insertPosition | updatePosition
  | insertProcessed => exact more _ h
  | marketPrice | insertOrderEvent => trivial
  | accountByUserId | insertAccount | positionsBySymbolForUpdate | insertMarketPrice
  | updateMarketPrice => exact h.elim

section Progress

variable {num : Numeric} {submits clean : Bool} {account pending : Option UUID}
  {V : Lock → Prop} {db : Db} {ws : List Write}

theorem Db.none_of_view {ws : List Write} (db : Db) :
    (∀ k, ((postgres num).view db ws).orders.find k = none → db.orders.find k = none) ∧
    (∀ k, ((postgres num).view db ws).fills.find k = none → db.fills.find k = none) ∧
    ∀ k, ((postgres num).view db ws).processedBrokerEvents.find k = none →
      db.processedBrokerEvents.find k = none := by
  induction ws generalizing db with
  | nil => exact ⟨fun _ h => h, fun _ h => h, fun _ h => h⟩
  | cons w ws ih =>
    obtain ⟨orders, fills, processed⟩ := ih (db.apply w)
    have before : ∀ {α κ : Type} {key : α → κ} [DecidableEq κ] {t : Table α key} {row : α} {k : κ},
        (t.put row).find k = none → t.find k = none := by
      intro α κ key _ t row k h
      rw [Table.find_put] at h
      split_ifs at h
      exact h
    refine ⟨fun k h => ?_, fun k h => ?_, fun k h => ?_⟩
    · have := orders k h
      cases w with
      | insertOrder | updateOrder => exact before this
      | _ => exact this
    · have := fills k h
      cases w with
      | insertFill => exact before this
      | _ => exact this
    · have := processed k h
      cases w with
      | insertProcessed => exact before this
      | _ => exact this

/-- An order that a transaction sees has submitted what its committed row has, or is an
order of an account it has locked. -/
theorem submitted_of_view (guarded : ∀ w ∈ ws, w.Guarded V db) {id : UUID} {row : Order}
    (found : ((postgres num).view db ws).orders.find id = some row) :
    (db.orders.find id = none → V (.account row.accountId)) ∧
      ∀ o, db.orders.find id = some o → row.submission = o.submission := by
  suffices h : ∀ (ws : List Write) (x : Db), (∀ w ∈ ws, w.Guarded V db) →
      (∀ row, x.orders.find id = some row →
      (db.orders.find id = none → V (.account row.accountId)) ∧
        ∀ o, db.orders.find id = some o → row.submission = o.submission) →
      ∀ row, ((postgres num).view x ws).orders.find id = some row →
        (db.orders.find id = none → V (.account row.accountId)) ∧
          ∀ o, db.orders.find id = some o → row.submission = o.submission by
    refine h ws db guarded (fun row found => ⟨fun new => ?_, fun o ho => ?_⟩) row found
    · rw [new] at found
      cases found
    · rw [ho] at found
      rw [Option.some.inj found]
  intro ws
  induction ws with
  | nil => exact fun x _ h => h
  | cons w ws ih =>
    intro x guarded h
    refine ih (x.apply w) (fun v hv => guarded v (by simp [hv])) fun row found => ?_
    have here := guarded w (by simp)
    cases w with
    | insertOrder written | updateOrder written =>
      simp only [Db.apply, Table.find_put] at found
      split_ifs at found with key
      · obtain rfl := Option.some.inj found
        subst key
        exact ⟨here.2.1, here.2.2⟩
      · exact h row found
    | _ => exact h row found

theorem Stmt.Allowed.guarded {β : Type} {s : Stmt β} {r : β} {vs : List Write}
    (allowed : s.Allowed submits account pending clean)
    (answer : exec num s ((postgres num).view db ws) = .ok (r, vs))
    (owned : ∀ a, account = some a → V (.account a))
    (held : ∀ k ∈ needs s ((postgres num).view db ws), V k)
    (guarded : ∀ w ∈ ws, w.Guarded V db) : ∀ w ∈ vs, w.Guarded V db := by
  have nothing : vs = [] → ∀ w ∈ vs, w.Guarded V db := by
    rintro rfl
    simp
  cases s with
  | accountForUpdate | orderForUpdate | orderByIdempotencyKey | orderByClientOrderId
  | positionForUpdate | marketPrice | processedByEventId =>
    exact nothing (congrArg Prod.snd (Except.ok.inj answer)).symm
  | accountByUserId | insertAccount | positionsBySymbolForUpdate | insertMarketPrice
  | updateMarketPrice => exact allowed.elim
  | insertOrderEvent e =>
    obtain rfl := congrArg Prod.snd (Except.ok.inj answer)
    simp [Write.Guarded]
  | updateAccount loaded current =>
    rcases updateRow_eq_ok answer with none | ⟨changed, row, found, rfl⟩
    · exact nothing none
    · have key : row.id = loaded.id := Table.find_key found
      have lock : V (.account loaded.id) := held _ (by simp [needs, needsUpdate, changed])
      simpa [Write.Guarded, Account.patch, key] using lock
  | updatePosition loaded current =>
    rcases updateRow_eq_ok answer with none | ⟨changed, row, found, rfl⟩
    · exact nothing none
    · have key : row.accountId = loaded.accountId := congrArg Prod.fst (Table.find_key found)
      simpa [Write.Guarded, Position.patch, key] using owned _ allowed
  | updateOrder loaded current =>
    rcases updateRow_eq_ok answer with none | ⟨changed, row, found, rfl⟩
    · exact nothing none
    · have lock : V (.order loaded.id) := held _ (by simp [needs, needsUpdate, changed])
      have patched : (Order.patch num loaded current row).submission = row.submission := by
        have same : current.submission = loaded.submission := allowed
        simp only [Order.submission, Prod.mk.injEq] at same
        simp [Order.submission, Order.patch, patchColumn, same]
      have key : (Order.patch num loaded current row).id = loaded.id :=
        (Table.find_key found : row.id = loaded.id)
      obtain ⟨new, old⟩ := submitted_of_view guarded found
      simp only [List.mem_singleton, forall_eq, Write.Guarded, key, patched]
      have owner : (Order.patch num loaded current row).accountId = row.accountId :=
        congrArg Prod.fst patched
      exact ⟨lock, fun h => owner.symm ▸ new h, old⟩
  | insertPosition row =>
    obtain ⟨-, rfl⟩ := writeUnless_eq_ok.1 answer
    simpa [Write.Guarded, Position.stored] using owned _ allowed
  | insertOrder row =>
    obtain ⟨inserted, rfl⟩ := writeUnless_eq_ok.1 answer
    have new : db.orders.find row.id = none :=
      db.none_of_view.1 _ (Order.refusal_eq_none_iff.1 inserted).2.1
    have lock : V (.order row.id) := held _ (by simp [needs])
    simp only [List.mem_singleton, forall_eq]
    exact ⟨lock, fun _ => owned _ allowed, fun o ho => by
      have ho : db.orders.find row.id = some o := ho
      rw [new] at ho
      cases ho⟩
  | insertFill row =>
    obtain ⟨inserted, rfl⟩ := writeUnless_eq_ok.1 answer
    have new : db.fills.find row.brokerEventId = none :=
      db.none_of_view.2.1 _ (Fill.refusal_eq_none_iff.1 inserted).2.1
    simp only [List.mem_singleton, forall_eq]
    exact ⟨held (.fill row.brokerEventId) (by simp [needs]),
      held (.execution row.executionId) (by simp [needs]), new⟩
  | insertProcessed row =>
    obtain ⟨inserted, rfl⟩ := writeUnless_eq_ok.1 answer
    have new : db.processedBrokerEvents.find row.brokerEventId = none :=
      db.none_of_view.2.2 _ (conflict_eq_none_iff.1 inserted)
    simp only [List.mem_singleton, forall_eq]
    exact ⟨held (.processed row.brokerEventId) (by simp [needs]), new⟩

/-- The locks of a transaction and the event that it has to record. -/
def Watched (locks : List Lock) (pending : Option UUID) (k : Lock) : Prop :=
  k ∈ locks ∨ ∃ e, pending = some e ∧ k = .processed e

/-- How a statement moves a live transaction on: what it read is watched from then on,
and an event that it recorded was not processed. -/
structure Advances (submits : Bool) (x : Db) {β : Type} (s : Stmt β) (r : β) (vs : List Write)
    (account pending account' pending' : Option UUID) (clean clean' : Bool) : Prop where
  owner : ∀ a, account' = some a → account = some a ∨ Lock.account a ∈ needs s x
  untouched : clean' = true → clean = true ∧ vs = []
  submission : submits = true → pending = none → pending' = none
  covered : ∀ locks : List Lock, (∀ a, account = some a → Lock.account a ∈ locks) →
    Stmt.Covered (Watched (locks ++ needs s x) pending') β s r
  watched : ∀ (locks : List Lock) k, Watched locks pending k →
    Watched (locks ++ needs s x) pending' k
  unprocessed : ∀ e, pending = some e →
    pending' = some e ∨ x.processedBrokerEvents.find e = none

theorem Watched.append {locks more : List Lock} {pending : Option UUID} {k : Lock}
    (h : Watched locks pending k) : Watched (locks ++ more) pending k :=
  h.imp_left (List.mem_append_left more)

theorem watched_needs {locks more : List Lock} {pending : Option UUID} {k : Lock}
    (h : k ∈ more) : Watched (locks ++ more) pending k := Or.inl (List.mem_append_right locks h)

theorem Advances.of_pending {x : Db} {β : Type} {s : Stmt β} {r : β} {vs : List Write}
    {account' : Option UUID} {clean' : Bool}
    (owner : ∀ a, account' = some a → account = some a ∨ Lock.account a ∈ needs s x)
    (untouched : clean' = true → clean = true ∧ vs = [])
    (covered : ∀ locks : List Lock, (∀ a, account = some a → Lock.account a ∈ locks) →
      Stmt.Covered (Watched (locks ++ needs s x) pending) β s r) :
    Advances submits x s r vs account pending account' pending clean clean' :=
  ⟨owner, untouched, fun _ h => h, covered, fun _ _ h => h.append, fun _ h => Or.inl h⟩

theorem Stmt.Allowed.advances {x : Db} {β : Type} {s : Stmt β} {r : β} {vs : List Write}
    {account' pending' : Option UUID} {clean' : Bool}
    (allowed : s.Allowed submits account pending clean) (answer : exec num s x = .ok (r, vs))
    (next : (Stage.live account pending clean).next s r = .live account' pending' clean') :
    Advances submits x s r vs account pending account' pending' clean clean' := by
  have read : ∀ {found : β}, exec num s x = .ok (found, []) → vs = [] := fun h => by
    rw [h] at answer
    exact (congrArg Prod.snd (Except.ok.inj answer)).symm
  have lock : ∀ {locks : List Lock} {a : UUID}, account = some a →
      (∀ a, account = some a → Lock.account a ∈ locks) →
      Watched (locks ++ needs s x) pending (.account a) :=
        fun h owned => Or.inl (by simp [owned _ h])
  cases s with
  | accountForUpdate id =>
    obtain rfl := congrArg Prod.fst (Except.ok.inj answer)
    simp only [Stage.next] at next
    split_ifs at next with found
    cases next
    have needed : Lock.account id ∈ needs (.accountForUpdate id) x := by
      simp [needs, needsRow, found]
    refine .of_pending (fun a h => Or.inr (Option.some.inj h ▸ needed)) (fun h => ⟨h, read rfl⟩)
      fun locks _ => watched_needs needed
  | orderForUpdate id =>
    obtain rfl := congrArg Prod.fst (Except.ok.inj answer)
    simp only [Stage.next] at next
    split_ifs at next with found
    cases next
    have needed : Lock.order id ∈ needs (.orderForUpdate id) x := by simp [needs, needsRow, found]
    exact .of_pending (fun _ h => Or.inl h) (fun h => ⟨h, read rfl⟩) fun locks _ =>
      watched_needs needed
  | orderByIdempotencyKey a key =>
    simp only [Stage.next] at next
    split_ifs at next with found
    cases next
    exact .of_pending (fun _ h => Or.inl h) (fun h => ⟨h, read rfl⟩) fun locks owned =>
      ⟨by simpa using found, lock allowed.2.1 owned⟩
  | orderByClientOrderId a c =>
    simp only [Stage.next] at next
    split_ifs at next with found
    cases next
    exact .of_pending (fun _ h => Or.inl h) (fun h => ⟨h, read rfl⟩) fun locks owned =>
      ⟨by simpa using found, lock allowed owned⟩
  | processedByEventId e =>
    simp only [Stage.next] at next
    split_ifs at next with found
    · cases next
      exact .of_pending (fun _ h => Or.inl h) (fun h => ⟨h, read rfl⟩) fun _ _ => Or.inl found
    · cases next
      obtain ⟨notSubmitting, rfl⟩ := allowed
      exact ⟨fun _ h => Or.inl h, fun h => ⟨h, read rfl⟩, fun h => by simp [notSubmitting] at h,
        fun _ _ => Or.inr (Or.inr ⟨e, rfl, rfl⟩),
        fun _ _ h => Or.inl (List.mem_append_left _ (h.resolve_right (by simp))),
        fun _ h => (by cases h)⟩
  | positionForUpdate a symbol =>
    cases next
    exact .of_pending (fun _ h => Or.inl h) (fun h => ⟨h, read rfl⟩) fun _ owned =>
      lock allowed owned
  | marketPrice symbol =>
    cases next
    exact .of_pending (fun _ h => Or.inl h) (fun h => ⟨h, read rfl⟩) fun _ _ => trivial
  | insertProcessed row =>
    cases next
    obtain rfl := allowed
    have new := conflict_eq_none_iff.1 (writeUnless_eq_ok.1 answer).1
    have needed : Lock.processed row.brokerEventId ∈ needs (.insertProcessed row) x := by
      simp [needs]
    refine ⟨fun _ h => Or.inl h, fun h => (by cases h), fun _ _ => rfl,
      fun _ _ => watched_needs needed, fun _ _ h => ?_, fun e h => Or.inr (Option.some.inj h ▸ new)⟩
    rcases h with mem | ⟨e, he, rfl⟩
    · exact Or.inl (List.mem_append_left _ mem)
    · exact watched_needs (Option.some.inj he ▸ needed)
  | insertOrder row =>
    cases next
    exact .of_pending (fun _ h => Or.inl h) (fun h => by cases h) fun _ owned =>
      ⟨watched_needs (by simp [needs]), lock allowed owned⟩
  | insertFill row =>
    cases next
    exact .of_pending (fun _ h => Or.inl h) (fun h => by cases h) fun _ owned =>
      ⟨watched_needs (by simp [needs]), watched_needs (by simp [needs])⟩
  | insertPosition row =>
    cases next
    exact .of_pending (fun _ h => Or.inl h) (fun h => by cases h) fun _ owned =>
      lock allowed owned
  | updatePosition loaded current =>
    cases next
    exact .of_pending (fun _ h => Or.inl h) (fun h => by cases h) fun _ owned =>
      lock allowed owned
  | updateAccount loaded current =>
    cases next
    refine .of_pending (fun _ h => Or.inl h) (fun h => by cases h) fun _ _ => ?_
    by_cases changed : current = loaded
    · exact Or.inl changed
    · exact Or.inr (watched_needs (by simp [needs, needsUpdate, changed]))
  | updateOrder loaded current =>
    cases next
    refine .of_pending (fun _ h => Or.inl h) (fun h => by cases h) fun _ _ => ?_
    by_cases changed : current = loaded
    · exact Or.inl changed
    · exact Or.inr (watched_needs (by simp [needs, needsUpdate, changed]))
  | insertOrderEvent e =>
    cases next
    exact .of_pending (fun _ h => Or.inl h) (fun h => by cases h) fun _ _ => trivial
  | accountByUserId | insertAccount | positionsBySymbolForUpdate | insertMarketPrice
  | updateMarketPrice => exact allowed.elim

theorem discipline_expected {β : Type} {s : Stmt β} {x : Db} {r : β} {vs : List Write}
    (answer : exec num s x = .ok (r, vs)) : (discipline submits).expected s r := by
  cases s with
  | positionForUpdate a symbol =>
    obtain rfl := congrArg Prod.fst (Except.ok.inj answer)
    exact fun p hp => Table.find_key hp
  | _ => trivial

end Progress

/-! Any failure may end the transactions of events and cancellations. -/

section Events

variable {submits clean : Bool} {account pending : Option UUID} {s : Session} {data : EventData}

theorem follows_lift {α : Type} {Q : α → Stage → Prop} {x : Except Failure α} {g : Stage}
    (done : ∀ a, x = .ok a → Q a g) :
    (liftExcept x : Txn α).Follows (discipline submits) Q (fun _ => True) g :=
  (follows_liftExcept _ x).2 ⟨done, fun _ _ => trivial⟩

theorem cancelRemaining_follows {Q : Session → Stage → Prop} {reason : String}
    (h : s.Disciplined account)
    (done : ∀ (a : Option UUID) (t : Session), t.Disciplined a → Q t (.live a pending false)) :
    (cancelRemaining s reason data).Follows (discipline submits) Q (fun _ => True)
      (.live account pending clean) := by
  unfold cancelRemaining
  rw [follows_bind]
  refine accountForUpdate_follows (fun _ => trivial) fun a => ?_
  rw [follows_bind]
  refine follows_lift fun released _ => ?_
  exact transition_follows (fun _ => trivial)
    ((h.relock.setOrder (f := Order.cancelRest) rfl).setAccount _) fun t ht _ => done _ t ht

theorem concludeFill_follows {Q : Session → Stage → Prop} (h : s.Disciplined account)
    (done : ∀ (a : Option UUID) (t : Session), t.Disciplined a → Q t (.live a pending false)) :
    (concludeFill s data).Follows (discipline submits) Q (fun _ => True)
      (.live account pending clean) := by
  unfold concludeFill
  dsimp only
  split_ifs
  · exact transition_follows (fun _ => trivial) h fun t ht _ => done _ t ht
  · rw [follows_bind]
    exact appendEvent_follows h (cancelRemaining_follows h.flushed done)
  · exact transition_follows (fun _ => trivial) h fun t ht _ => done _ t ht
  · exact appendEvent_follows h (done _ _ h.flushed)

theorem Position.executed_accountId {p q : Position} {side : OrderSide} {quantity price mark : ℚ}
    (h : p.executed side quantity price mark = .ok q) : q.accountId = p.accountId :=
  congrArg Prod.fst (Position.executed_holding h)

theorem applyExecution_follows {Q : Session → Stage → Prop} {q price : ℚ}
    (h : s.Disciplined account) (locked : account = some s.order.attrs.accountId)
    (done : ∀ (b : Bool) (t : Session), t.Disciplined account → Q t (.live account pending b)) :
    (applyExecution s q price).Follows (discipline submits) Q (fun _ => True)
      (.live account pending clean) := by
  unfold applyExecution
  rw [follows_issue_bind]
  refine ⟨locked, fun found expected => (follows_issue_bind _ _ _).2 ⟨trivial, fun mark _ => ?_⟩⟩
  cases found with
  | some row =>
    have key : row.accountId = s.order.attrs.accountId := congrArg Prod.fst (expected row rfl)
    dsimp only
    rw [follows_bind]
    refine follows_lift fun executed he => done _ _ ⟨h.order, fun p hp => ?_⟩
    obtain rfl := Option.some.inj hp
    exact ⟨locked, key, (Position.executed_accountId he).trans key⟩
  | none =>
    dsimp only
    rw [follows_bind]
    refine flush_follows h ((follows_issue_bind _ _ _).2 ⟨locked, fun _ _ => ?_⟩)
    rw [follows_bind]
    refine follows_lift fun executed he => done _ _ ⟨rfl, fun p hp => ?_⟩
    obtain rfl := Option.some.inj hp
    exact ⟨locked, rfl, Position.executed_accountId he⟩

theorem applyFill_follows {Q : Session × Verdict → Stage → Prop} {event : BrokerExecutionEvent}
    (h : s.Disciplined account)
    (done : ∀ (a : Option UUID) (b : Bool) (t : Session) (verdict : Verdict), t.Disciplined a →
      Q (t, verdict) (.live a pending b)) :
    (applyFill s event).Follows (discipline submits) Q (fun _ => True)
      (.live account pending clean) := by
  unfold applyFill
  refine follows_ite _ (fun _ => done _ _ _ _ h) fun _ => ?_
  cases event.fillPrice with
  | none => trivial
  | some price =>
    refine follows_ite _ (fun _ => trivial) fun _ => follows_ite _ (fun _ => done _ _ _ _ h)
      fun _ => follows_ite _ (fun _ => done _ _ _ _ h) fun _ => ?_
    rw [follows_bind]
    refine follows_lift fun booked book => ?_
    have same : booked.submission = s.order.attrs.submission := by
      obtain ⟨-, rfl⟩ := Order.bookFill_ok book
      rfl
    have bookedSession := h.setOrder (f := fun _ => booked) same
    rw [follows_bind]
    refine flush_follows bookedSession ((follows_issue_bind _ _ _).2 ⟨trivial, fun _ _ => ?_⟩)
    rw [follows_bind]
    refine accountForUpdate_follows (fun _ => trivial) fun a => ?_
    rw [follows_bind]
    refine follows_lift fun settled _ => ?_
    rw [follows_bind]
    refine applyExecution_follows (bookedSession.flushed.relock.setAccount _) rfl fun b t ht => ?_
    rw [follows_bind]
    exact concludeFill_follows ht fun a u hu => done a _ u _ hu

theorem applyRejection_follows {Q : Session × Verdict → Stage → Prop}
    {event : BrokerExecutionEvent} (h : s.Disciplined account)
    (done : ∀ (a : Option UUID) (b : Bool) (t : Session) (verdict : Verdict), t.Disciplined a →
      Q (t, verdict) (.live a pending b)) :
    (applyRejection s event).Follows (discipline submits) Q (fun _ => True)
      (.live account pending clean) := by
  unfold applyRejection
  refine follows_ite _ (fun _ => done _ _ _ _ h) fun _ => ?_
  rw [follows_bind]
  refine accountForUpdate_follows (fun _ => trivial) fun a => ?_
  rw [follows_bind]
  refine follows_lift fun released _ => ?_
  rw [follows_bind]
  exact transition_follows (fun _ => trivial) ((h.relock.setOrder rfl).setAccount _) fun t ht _ =>
    done _ _ t _ ht

theorem applyCancellation_follows {Q : Session × Verdict → Stage → Prop}
    {event : BrokerExecutionEvent} (h : s.Disciplined account)
    (done : ∀ (a : Option UUID) (b : Bool) (t : Session) (verdict : Verdict), t.Disciplined a →
      Q (t, verdict) (.live a pending b)) :
    (applyCancellation s event).Follows (discipline submits) Q (fun _ => True)
      (.live account pending clean) := by
  unfold applyCancellation
  refine follows_ite _ (fun _ => done _ _ _ _ h) fun _ => ?_
  rw [follows_bind]
  exact cancelRemaining_follows h fun a t ht => done a _ t _ ht

theorem dispatch_follows {Q : Session × Verdict → Stage → Prop} {event : BrokerExecutionEvent}
    (h : s.Disciplined account)
    (done : ∀ (a : Option UUID) (b : Bool) (t : Session) (verdict : Verdict), t.Disciplined a →
      Q (t, verdict) (.live a pending b)) :
    (dispatch s event).Follows (discipline submits) Q (fun _ => True)
      (.live account pending clean) := by
  unfold dispatch
  cases event.eventType with
  | fullFill | partialFill => exact applyFill_follows h done
  | rejected => exact applyRejection_follows h done
  | cancelled => exact applyCancellation_follows h done

theorem processEvent_follows (event : BrokerExecutionEvent) :
    (processEvent event).Follows (discipline false) (fun _ g => g.Closed) (fun _ => True)
      (.live none none true) := by
  unfold processEvent
  rw [follows_issue_bind]
  refine ⟨trivial, fun found _ => ?_⟩
  cases found with
  | none => trivial
  | some order =>
    dsimp only
    rw [follows_issue_bind]
    refine ⟨⟨rfl, rfl⟩, fun processed _ => ?_⟩
    cases processed with
    | some _ => exact rfl
    | none =>
      dsimp only
      rw [follows_bind]
      refine dispatch_follows (Session.disciplined_of _ order none) fun a b t verdict ht => ?_
      rw [follows_issue_bind]
      refine ⟨rfl, fun _ _ => ?_⟩
      split_ifs
      · exact rfl
      · rw [follows_bind]
        exact appendEvent_follows ht rfl

theorem requestCancellation_follows (orderId : UUID) (reason : String) :
    (requestCancellation orderId reason).Follows (discipline false) (fun _ g => g.Closed)
      (fun _ => True) (.live none none true) := by
  unfold requestCancellation
  rw [follows_issue_bind]
  refine ⟨trivial, fun found _ => ?_⟩
  cases found with
  | none => trivial
  | some order =>
    refine follows_ite _ (fun _ => rfl) fun _ => follows_ite _ (fun _ => trivial) fun _ => ?_
    rw [follows_bind]
    exact transition_follows (fun _ => trivial) (Session.disciplined_of _ order none)
      fun _ _ _ => rfl

end Events

/-- A submission raises business errors only. -/
def Failure.isDomain : Failure → Prop
  | .domain _ => True
  | _ => False

theorem createOrder_follows (settings : Settings) (draw : CreateDraw) (payload : OrderCreate) :
    (createOrder settings draw payload).Follows (discipline true) (fun _ g => g.Closed)
      Failure.isDomain (.live none none true) := by
  unfold createOrder
  rw [follows_issue_bind]
  refine ⟨trivial, fun found _ => ?_⟩
  cases found with
  | none => trivial
  | some row =>
    dsimp only
    rw [follows_issue_bind]
    refine ⟨⟨rfl, rfl, rfl, rfl⟩, fun keyed _ => ?_⟩
    cases keyed with
    | some existing =>
      dsimp only
      split_ifs <;> trivial
    | none =>
      dsimp only
      rw [follows_issue_bind]
      refine ⟨rfl, fun taken _ => ?_⟩
      cases taken with
      | some _ => trivial
      | none =>
        unfold placeOrder
        dsimp only
        rw [follows_issue_bind]
        refine ⟨rfl, fun _ _ => (follows_bind _ _ _).2 ?_⟩
        refine appendEvent_follows (Session.disciplined_of _ _ _) ?_
        have placed := (Session.disciplined_of (some payload.accountId)
          (newOrder settings draw payload) (some (.of row))).flushed
        cases ensureSufficientBuyingPower (Instance.of row).attrs.availableCash
          (requiredBuyingPower payload.side payload.quantity payload.price) with
        | error exc =>
          dsimp only
          rw [follows_bind]
          exact transition_follows (fun _ => trivial) (placed.setOrder rfl) fun _ _ _ => rfl
        | ok _ =>
          dsimp only
          rw [follows_bind]
          refine transition_follows (fun _ => trivial) placed fun t ht _ => ?_
          rw [follows_bind]
          exact transition_follows (fun _ => trivial) (ht.setAccount _) fun _ _ _ => rfl

end OrderManagement
