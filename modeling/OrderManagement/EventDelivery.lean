import OrderManagement.BrokerPhases

/-! What one round of the event worker does, seen from all orders at once: the order of the event
takes it or ignores it, the event is recorded, and no other order and no request for a
cancellation is touched. -/

namespace OrderManagement

open Program TransitionRuns

theorem EventEffect.change {S : Deployment} {db db' : Db} {event : BrokerExecutionEvent}
    {applied : Bool} (h : EventEffect S.num db event applied db') :
    Change S db (.processEvent event) db' := by
  cases h with
  | duplicate => exact .unchanged
  | ignored found unprocessed ignores => exact .ignored found unprocessed ignores
  | filled fill => exact .filled fill
  | released found unprocessed accountFound becomes release kept =>
    exact .released found unprocessed accountFound becomes release kept

/-- A new event, processed: its order goes from `o` to `o'`. -/
structure Delivery (db : Db) (event : BrokerExecutionEvent) (db' : Db) (o : Order)
    (verdict : Verdict) (o' : Order) : Prop where
  found : db.orders.find event.orderId = some o
  left : db'.orders.find event.orderId = some o'
  taken : Taken o event verdict o'
  others : ∀ k, k ≠ event.orderId → db'.orders.find k = db.orders.find k
  unasked : ∀ k, Unasked db db' k
  row : db'.processedBrokerEvents = db.processedBrokerEvents.put (processedRow event verdict)
  fills : ∀ f ∈ db'.fills.rows, f ∈ db.fills.rows ∨ event.executionId = some f.executionId

section Deliveries

variable {db db' : Db} {event : BrokerExecutionEvent} {applied : Bool}

theorem find_put_order {o o' : Order} (found : db.orders.find event.orderId = some o)
    (frozen : o.Frozen o') : (db.orders.put o').find event.orderId = some o' ∧
      ∀ k, k ≠ event.orderId → (db.orders.put o').find k = db.orders.find k := by
  have key : o'.id = event.orderId := frozen.id.trans (Table.find_key found)
  exact ⟨Table.find_put_of_eq key, fun k other => Table.find_put_of_ne (key.trans_ne other.symm)⟩

theorem EventEffect.delivery (h : EventEffect .exact db event applied db')
    (unprocessed : db.processedBrokerEvents.find event.eventId = none) :
    ∃ o verdict o', verdict.1 = applied ∧ Delivery db event db' o verdict o' := by
  have unasked : ∀ k, Unasked db db' k := fun k =>
    (h.change (S := .exact {} id)).unasked fun reason => by simp
  cases h with
  | duplicate _ processed => exact absurd (unprocessed.symm.trans processed) (by simp)
  | @ignored o reason found _ ignores =>
    exact ⟨o, (false, some reason), o, rfl, found, found, .ignored ignores, fun _ _ => rfl, unasked,
      rfl, fun f mem => Or.inl mem⟩
  | filled t =>
    obtain ⟨left, others⟩ := find_put_order t.found t.frozen
    obtain ⟨-, -, execution, executed, nonempty⟩ := event.validateFillPayload t.isFill
    refine ⟨t.order, (true, none), t.final, rfl, t.found, ?_, ?_, ?_, unasked, rfl, ?_⟩
    · simpa [AppliedFill.after] using left
    · exact .filled t.isFill t.working t.book t.conclude
    · simpa [AppliedFill.after] using others
    · refine Table.forall_put (Or.inr ?_) fun f mem => Or.inl mem
      simp [FillAttempt.fill, newFill, executed, orDefault, nonempty]
  | @released o final account left record found _ accountFound becomes release kept =>
    obtain ⟨left, others⟩ := find_put_order found becomes.frozen
    refine ⟨o, (true, none), final, rfl, found, ?_, .released becomes, ?_, unasked, rfl,
      fun f mem => Or.inl mem⟩
    · simpa using left
    · simpa using others

end Deliveries

end OrderManagement
