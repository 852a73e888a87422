import OrderManagement.EventDelivery

/-! The phases of all orders, over the steps of the system. Every coroutine and every queued
event belongs to one order, and a step moves the phase of at most one. -/

namespace OrderManagement

open Program TransitionRuns

theorem Activity.advance_orders (draw : BrokerDraw) (a : Activity) (k : UUID) :
    (∀ b ∈ (a.advance draw).2, b.executes k = a.executes k ∧ b.revokes k = a.revokes k) ∧
      ∀ e ∈ (a.advance draw).1, e.executes k = a.executes k ∧ e.revokes k = a.revokes k := by
  have fill : ∀ {kind : BrokerEventType} {order : BrokerOrder} {quantity : ℚ}
      {e : BrokerExecutionEvent}, FillOf draw kind order quantity e → kind ≠ .cancelled →
      e.executes k = decide (order.orderId = k) ∧ e.revokes k = false := fun of other => by
    simp [BrokerExecutionEvent.executes, BrokerExecutionEvent.revokes, of.orderId,
      of.eventType, other]
  cases a with
  | submitOrder order => simp [advance, executes, revokes]
  | cancelOrder orderId reason => simp [advance, executes, revokes]
  | simulateCancellation orderId reason =>
    simp [advance, executes, revokes, cancelledEvent, BrokerExecutionEvent.executes,
      BrokerExecutionEvent.revokes]
  | finishOrder order remaining =>
    refine ⟨by simp [advance], fun e mem => ?_⟩
    exact fill (fillEvent?_some (Option.mem_toList.1 mem)) (by simp)
  | simulateOrder order =>
    have simulated := simulateOrder_simulated draw order
    change (∀ b ∈ (OrderManagement.simulateOrder draw order).2, _) ∧
      ∀ e ∈ (OrderManagement.simulateOrder draw order).1, _
    generalize OrderManagement.simulateOrder draw order = c at simulated
    cases simulated with
    | failed => simp
    | rejected =>
      simp [executes, revokes, rejectedEvent, BrokerExecutionEvent.executes,
        BrokerExecutionEvent.revokes]
    | full of => simpa [executes, revokes] using fill of (by simp)
    | part of => simpa [executes, revokes] using fill of (by simp)
    | parts of => simpa [executes, revokes] using fill of (by simp)

/-- The orders, the coroutines and the queue agree. -/
structure Phased (db : Db) (work : List Activity) (queue : List BrokerExecutionEvent) : Prop where
  phase : ∀ k o, db.orders.find k = some o → OrderPhase (db.cancelRequests k ≠ 0) o
    (work.filter (·.executes k)) (queue.filter (·.executes k))
  unplaced : ∀ k, db.orders.find k = none →
    work.filter (·.executes k) = [] ∧ queue.filter (·.executes k) = []
  revoking : ∀ k, (∃ a ∈ work, a.revokes k = true) ∨ (∃ e ∈ queue, e.revokes k = true) →
    db.cancelRequests k ≠ 0 ∧ (db.orders.find k).isSome
  pending : ∀ k o, db.orders.find k = some o → o.status = .cancelPending → db.cancelRequests k ≠ 0

section Steps

variable {db db' : Db} {work before after : List Activity} {a : Activity}
  {queue rest : List BrokerExecutionEvent} {event : BrokerExecutionEvent}

theorem filter_of_forall {α : Type} {p : α → Bool} {l : List α} {b : Bool}
    (all : ∀ x ∈ l, p x = b) : l.filter p = if b then l else [] := by
  cases b with
  | true => simpa using all
  | false => simpa using all

theorem Phased.advance (h : Phased db (before ++ a :: after) queue) (draw : BrokerDraw) :
    Phased db (before ++ after ++ (a.advance draw).2) (queue ++ (a.advance draw).1) := by
  have works : ∀ k, (a.advance draw).2.filter (·.executes k) =
      if a.executes k then (a.advance draw).2 else [] := fun k =>
    filter_of_forall fun b mem => ((a.advance_orders draw k).1 b mem).1
  have queues : ∀ k, (a.advance draw).1.filter (·.executes k) =
      if a.executes k then (a.advance draw).1 else [] := fun k =>
    filter_of_forall fun e mem => ((a.advance_orders draw k).2 e mem).1
  refine ⟨fun k o found => ?_, fun k missing => ?_, fun k revokes => ?_, h.pending⟩
  · have phase := h.phase k o found
    simp only [List.filter_append, works, queues]
    cases mine : a.executes k with
    | true =>
      rw [List.filter_append, List.filter_cons_of_pos mine] at phase
      exact phase.advance draw
    | false =>
      rw [List.filter_append, List.filter_cons_of_neg (by simp [mine])] at phase
      simpa using phase
  · obtain ⟨idle, empty⟩ := h.unplaced k missing
    rw [List.filter_append, List.append_eq_nil_iff] at idle
    have other : a.executes k = false := by
      by_contra mine
      simp [List.filter_cons_of_pos (Bool.eq_true_of_not_eq_false mine)] at idle
    rw [List.filter_cons_of_neg (by simp [other])] at idle
    simp [works, queues, other, idle, empty]
  · refine h.revoking k ?_
    have new : ∀ {b : Bool}, b = a.revokes k → b = true →
        ∃ c ∈ before ++ a :: after, c.revokes k = true := fun same revoked =>
      ⟨a, by simp, same.symm.trans revoked⟩
    rcases revokes with ⟨b, mem, revoked⟩ | ⟨e, mem, revoked⟩
    · rcases List.mem_append.1 mem with old | made
      · exact Or.inl ⟨b, by simp only [List.mem_append, List.mem_cons] at old ⊢; tauto, revoked⟩
      · exact Or.inl (new ((a.advance_orders draw k).1 b made).2 revoked)
    · rcases List.mem_append.1 mem with old | made
      · exact Or.inr ⟨e, old, revoked⟩
      · exact Or.inl (new ((a.advance_orders draw k).2 e made).2 revoked)

theorem Phased.placed (h : Phased db work queue) {o : Order} {activities : List Activity}
    (new : db.orders.find o.id = none) (orders : db'.orders = db.orders.put o)
    (unasked : ∀ k, Unasked db db' k)
    (own : ∀ b ∈ activities, ∀ k, b.executes k = decide (o.id = k) ∧ b.revokes k = false)
    (phase : ∀ asked, OrderPhase asked o activities []) :
    Phased db' (work ++ activities) queue := by
  have mine : ∀ k, activities.filter (·.executes k) = if o.id = k then activities else [] :=
    fun k => by simpa using filter_of_forall fun b mem => (own b mem k).1
  have others : ∀ {k}, o.id ≠ k → db'.orders.find k = db.orders.find k := fun ne => by
    rw [orders, Table.find_put_of_ne ne]
  refine ⟨fun k p found => ?_, fun k missing => ?_, fun k revokes => ?_, fun k p found status => ?_⟩
  · rw [List.filter_append, mine, (unasked k).records]
    by_cases key : o.id = k
    · rw [orders, Table.find_put_of_eq key, Option.some_inj] at found
      subst found key
      obtain ⟨idle, empty⟩ := h.unplaced _ new
      simpa [idle, empty] using phase _
    · rw [others key] at found
      simpa [key] using h.phase k p found
  · have key : o.id ≠ k := fun key => by
      rw [orders, Table.find_put_of_eq key] at missing
      cases missing
    rw [others key] at missing
    simpa [List.filter_append, mine, key] using h.unplaced k missing
  · have old : (∃ b ∈ work, b.revokes k = true) ∨ ∃ e ∈ queue, e.revokes k = true := by
      refine revokes.imp_left ?_
      rintro ⟨b, mem, revoked⟩
      rcases List.mem_append.1 mem with old | made
      · exact ⟨b, old, revoked⟩
      · rw [(own b made k).2] at revoked
        cases revoked
    obtain ⟨requested, found⟩ := h.revoking k old
    refine ⟨(unasked k).records.symm ▸ requested, ?_⟩
    rw [orders]
    exact Table.find_put_isSome o found
  · obtain ⟨q, was, pending⟩ := (unasked k).pending p found status
    rw [(unasked k).records]
    exact h.pending k q was pending

theorem Db.cancelRequests_le {es : List OrderEvent} {k : UUID}
    (events : db'.orderEvents = db.orderEvents ++ es) :
    db.cancelRequests k ≤ db'.cancelRequests k := by
  unfold Db.cancelRequests
  rw [events, List.countP_append]
  exact Nat.le_add_right _ _

theorem Phased.asked (h : Phased db work queue) {o : Order} {k : UUID} {reason : String}
    {es : List OrderEvent} (found : db.orders.find k = some o)
    (cancellable : o.status ∈ cancellableOrderStatuses)
    (orders : db'.orders = db.orders.put (o.moved .cancelPending))
    (events : db'.orderEvents = db.orderEvents ++ es) (recorded : db'.cancelRequests k ≠ 0) :
    Phased db' (work ++ [.cancelOrder k reason]) queue := by
  have key : (o.moved .cancelPending).id = k := Table.find_key (r := o) found
  have own : db'.orders.find k = some (o.moved .cancelPending) := by
    rw [orders, Table.find_put_of_eq key]
  have others : ∀ {l}, l ≠ k → db'.orders.find l = db.orders.find l := fun ne => by
    rw [orders, Table.find_put_of_ne (key.trans_ne ne.symm)]
  have more : ∀ {l}, db.cancelRequests l ≠ 0 → db'.cancelRequests l ≠ 0 := fun some_ =>
    (Nat.pos_of_ne_zero some_ |>.trans_le (Db.cancelRequests_le events)).ne'
  have told : ∀ l, (work ++ [Activity.cancelOrder k reason]).filter (·.executes l) =
      work.filter (·.executes l) := fun l => by simp [List.filter_append, Activity.executes]
  refine ⟨fun l p was => ?_, fun l missing => ?_, fun l revokes => ?_, fun l p was status => ?_⟩
  · rw [told]
    by_cases same : l = k
    · subst same
      rw [own, Option.some_inj] at was
      subst was
      exact ((h.phase l o found).request cancellable).mono fun _ => recorded
    · rw [others same] at was
      exact (h.phase l p was).mono more
  · rw [told]
    by_cases same : l = k
    · rw [same, own] at missing
      cases missing
    · exact h.unplaced l (others same ▸ missing)
  · by_cases same : l = k
    · subst same
      exact ⟨recorded, by simp [own]⟩
    · rw [others same]
      refine (h.revoking l (revokes.imp_left ?_)).imp_left more
      rintro ⟨b, mem, revoked⟩
      rcases List.mem_append.1 mem with old | made
      · exact ⟨b, old, revoked⟩
      · obtain rfl := List.mem_singleton.1 made
        exact absurd (by simpa [Activity.revokes] using revoked) (Ne.symm same)
  · by_cases same : l = k
    · exact same ▸ recorded
    · exact more (h.pending l p (others same ▸ was) status)

theorem Phased.delivered (h : Phased db work (event :: rest)) {o o' : Order} {verdict : Verdict}
    (d : Delivery db event db' o verdict o') : Phased db' work rest := by
  have records : ∀ k, db'.cancelRequests k = db.cancelRequests k := fun k => (d.unasked k).records
  have shorter : ∀ k, event.executes k = false →
      (event :: rest).filter (·.executes k) = rest.filter (·.executes k) := fun k other =>
    List.filter_cons_of_neg (by simp [other])
  have elsewhere : ∀ {k}, k ≠ event.orderId → event.executes k = false := fun ne => by
    simp [BrokerExecutionEvent.executes, ne.symm]
  refine ⟨fun k p found => ?_, fun k missing => ?_, fun k revokes => ?_, fun k p found status => ?_⟩
  · rw [records]
    by_cases mine : k = event.orderId
    · subst mine
      rw [d.left, Option.some_inj] at found
      subst found
      have phase := h.phase _ o d.found
      by_cases kind : event.eventType = .cancelled
      · rw [shorter _ (by simp [BrokerExecutionEvent.executes, kind])] at phase
        refine phase.revoked d.taken kind (h.revoking _ (Or.inr ⟨event, by simp, ?_⟩)).1
        simp [BrokerExecutionEvent.revokes, kind]
      · rw [List.filter_cons_of_pos (by simp [BrokerExecutionEvent.executes, kind])] at phase
        exact phase.executed d.taken
    · rw [d.others k mine] at found
      rw [← shorter k (elsewhere mine)]
      exact h.phase k p found
  · have other : k ≠ event.orderId := by
      rintro rfl
      rw [d.left] at missing
      cases missing
    rw [← shorter k (elsewhere other)]
    exact h.unplaced k (d.others k other ▸ missing)
  · rw [records]
    have old : (∃ b ∈ work, b.revokes k = true) ∨ ∃ e ∈ event :: rest, e.revokes k = true := by
      refine revokes.imp_right ?_
      rintro ⟨e, mem, revoked⟩
      exact ⟨e, by simp [mem], revoked⟩
    obtain ⟨requested, found⟩ := h.revoking k old
    refine ⟨requested, ?_⟩
    by_cases mine : k = event.orderId
    · simp [mine, d.left]
    · rwa [d.others k mine]
  · rw [records]
    obtain ⟨q, was, pending⟩ := (d.unasked k).pending p found status
    exact h.pending k q was pending

theorem Phased.next_found (h : Phased db work (event :: rest)) :
    ∃ o, db.orders.find event.orderId = some o := by
  by_cases kind : event.eventType = .cancelled
  · refine Option.isSome_iff_exists.1 (h.revoking _ (Or.inr ⟨event, by simp, ?_⟩)).2
    simp [BrokerExecutionEvent.revokes, kind]
  · by_contra missing
    have empty := (h.unplaced event.orderId (Option.eq_none_iff_forall_ne_some.2 fun o found =>
      missing ⟨o, found⟩)).2
    rw [List.filter_cons_of_pos (by simp [BrokerExecutionEvent.executes, kind])] at empty
    cases empty

end Steps

end OrderManagement
