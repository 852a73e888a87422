import OrderManagement.BlockingLocks

/-! The services take their locks by increasing rank: a fill its keys, the account, the
position and the processed event after the order; a submission the keys of the order after
the account; a tick the positions after the market price. The IOC path locks the account
again, which the fill holds by then. -/

namespace OrderManagement

open Program

section Services

variable {fresh : MarketPrice → Prop} {g : Grip} {s : Session} {data : EventData}

theorem flush_ordered : (flush s).Keeps (lockOrder fresh)
    (fun t g' => t.order.attrs = s.order.attrs ∧ g' = g) g := by
  have account : (flushAccount s.account).Keeps (lockOrder fresh) (fun _ g' => g' = g) g := by
    cases s.account with
    | none => exact rfl
    | some a => exact ⟨by simp [lockOrder, Stmt.band], fun _ _ => rfl⟩
  have position : (flushPosition s.position).Keeps (lockOrder fresh) (fun _ g' => g' = g) g := by
    cases s.position with
    | none => exact rfl
    | some p => exact ⟨by simp [lockOrder, Stmt.band], fun _ _ => rfl⟩
  refine keeps_bind account fun _ g' eq => ?_
  subst eq
  refine keeps_issue (by simp [lockOrder, Stmt.band]) fun _ _ => ?_
  exact keeps_bind position fun _ g' eq => ⟨rfl, eq⟩

theorem appendEvent_ordered (eventType : OrderEventType) (previous new : Option OrderStatus) :
    (appendEvent s eventType previous new data).Keeps (lockOrder fresh)
      (fun t g' => t.order.attrs = s.order.attrs ∧ g' = g) g := by
  refine keeps_bind flush_ordered fun t g' same => ?_
  exact keeps_issue (by simp [lockOrder, Stmt.band]) fun _ _ => same

theorem transition_ordered (target : OrderStatus) (eventType : OrderEventType) :
    (transition s target eventType data).Keeps (lockOrder fresh) (fun _ g' => g' = g) g :=
  keeps_lift fun _ _ => keeps_mono (appendEvent_ordered _ _ _) fun _ _ same => same.2

/-- The account of an order is locked before higher ranks, or again. -/
def Grip.MayLock (g : Grip) (accountId : UUID) : Prop := g.account = some accountId ∨ g.floor ≤ 3

theorem accountForUpdate_ordered (may : g.MayLock s.order.attrs.accountId) :
    (accountForUpdate s).Keeps (lockOrder fresh)
      (fun _ g' => g'.account = some s.order.attrs.accountId ∧ g'.floor = max g.floor 4) g := by
  refine keeps_issue may fun found _ => ?_
  cases found with
  | none => exact keeps_raise _
  | some row => exact ⟨rfl, rfl⟩

theorem cancelRemaining_ordered (reason : String) (may : g.MayLock s.order.attrs.accountId)
    (low : g.floor ≤ 10) :
    (cancelRemaining s reason data).Keeps (lockOrder fresh) (fun _ g' => g'.floor ≤ 10) g := by
  refine keeps_bind (accountForUpdate_ordered may) fun account g' h => keeps_lift fun _ _ => ?_
  refine keeps_mono (transition_ordered _ _) fun t g'' eq => ?_
  rw [eq, h.2]
  omega

theorem concludeFill_ordered (held : g.account = some s.order.attrs.accountId)
    (low : g.floor ≤ 10) :
    (concludeFill s data).Keeps (lockOrder fresh) (fun _ g' => g'.floor ≤ 10) g := by
  have moved : ∀ target eventType, (transition s target eventType data).Keeps (lockOrder fresh)
      (fun _ g' => g'.floor ≤ 10) g := fun _ _ =>
    keeps_mono (transition_ordered _ _) fun _ _ same => same ▸ low
  refine keeps_ite (fun _ => moved _ _) fun _ => keeps_ite (fun _ => ?_) fun _ =>
    keeps_ite (fun _ => moved _ _) fun _ => ?_
  · refine keeps_bind (appendEvent_ordered _ _ _) fun t g' same => ?_
    obtain ⟨attrs, rfl⟩ := same
    exact cancelRemaining_ordered _ (Or.inl (attrs ▸ held)) low
  · exact keeps_mono (appendEvent_ordered _ _ _) fun _ _ same => same.2 ▸ low

theorem applyExecution_ordered (low : g.floor ≤ 8) (q price : ℚ) :
    (applyExecution s q price).Keeps (lockOrder fresh)
      (fun t g' => t.order.attrs = s.order.attrs ∧ g'.account = g.account ∧ g'.floor ≤ 10) g := by
  refine keeps_issue (by simpa [lockOrder, Stmt.band] using low) fun found _ =>
    keeps_issue (by simp [lockOrder, Stmt.band]) fun _ _ => ?_
  cases found with
  | some row =>
    refine keeps_lift fun _ _ => ⟨rfl, rfl, ?_⟩
    simp only [lockOrder, Stmt.band, Option.elim]
    omega
  | none =>
    refine keeps_bind flush_ordered fun t g' same => ?_
    obtain ⟨attrs, rfl⟩ := same
    refine keeps_issue ?_ fun _ _ => keeps_lift fun _ _ => ⟨attrs, rfl, ?_⟩ <;>
      simp only [lockOrder, Stmt.band, Option.elim, Option.mem_some_iff, forall_eq'] <;> omega

variable {event : BrokerExecutionEvent}

theorem applyFill_ordered (low : g.floor ≤ 1) :
    (applyFill s event).Keeps (lockOrder fresh) (fun _ g' => g'.floor ≤ 10) g := by
  have top : g.floor ≤ 10 := by omega
  refine keeps_ite (fun _ => top) fun _ => ?_
  cases event.fillPrice with
  | none => exact keeps_raise _
  | some price =>
    refine keeps_ite (fun _ => keeps_raise _) fun _ => keeps_ite (fun _ => top) fun _ =>
      keeps_ite (fun _ => top) fun _ => keeps_lift fun booked _ => ?_
    refine keeps_bind flush_ordered fun t g' same => ?_
    obtain ⟨-, rfl⟩ := same
    refine keeps_issue (by simpa [lockOrder, Stmt.band] using low) fun _ _ => ?_
    refine keeps_bind (accountForUpdate_ordered (Or.inr ?_)) fun account g' h =>
      keeps_lift fun settled _ => ?_
    · simp only [lockOrder, Stmt.band, Option.elim]
      omega
    · obtain ⟨held, floor⟩ := h
      refine keeps_bind (applyExecution_ordered ?_ _ _) fun u g'' done => ?_
      · rw [floor]
        simp only [lockOrder, Stmt.band, Option.elim]
        omega
      · obtain ⟨attrs, account, below⟩ := done
        refine keeps_bind (concludeFill_ordered ?_ below) fun _ _ h => keeps_pure h
        rw [account, held, attrs]

theorem applyRejection_ordered (low : g.floor ≤ 1) :
    (applyRejection s event).Keeps (lockOrder fresh) (fun _ g' => g'.floor ≤ 10) g := by
  refine keeps_ite (fun _ => (by omega : g.floor ≤ 10)) fun _ => ?_
  refine keeps_bind (accountForUpdate_ordered (Or.inr (by omega))) fun account g' h =>
    keeps_lift fun _ _ => ?_
  refine keeps_bind (transition_ordered _ _) fun t g'' eq => keeps_pure ?_
  rw [eq, h.2]
  omega

theorem applyCancellation_ordered (low : g.floor ≤ 1) :
    (applyCancellation s event).Keeps (lockOrder fresh) (fun _ g' => g'.floor ≤ 10) g := by
  refine keeps_ite (fun _ => (by omega : g.floor ≤ 10)) fun _ => ?_
  exact keeps_bind (cancelRemaining_ordered _ (Or.inr (by omega)) (by omega)) fun _ _ h =>
    keeps_pure h

theorem dispatch_ordered (low : g.floor ≤ 1) :
    (dispatch s event).Keeps (lockOrder fresh) (fun _ g' => g'.floor ≤ 10) g := by
  unfold dispatch
  cases event.eventType with
  | fullFill | partialFill => exact applyFill_ordered low
  | rejected => exact applyRejection_ordered low
  | cancelled => exact applyCancellation_ordered low

end Services

section Transactions

variable {fresh : MarketPrice → Prop}

theorem processEvent_ordered (event : BrokerExecutionEvent) :
    (processEvent event).Keeps (lockOrder fresh) (fun _ _ => True) ⟨0, none, none⟩ := by
  refine keeps_issue (by simp [lockOrder, Stmt.band]) fun found _ => ?_
  cases found with
  | none => exact keeps_raise _
  | some order =>
    refine keeps_issue (by simp [lockOrder, Stmt.band]) fun processed _ => ?_
    cases processed with
    | some _ => exact keeps_pure trivial
    | none =>
      refine keeps_bind (dispatch_ordered (by simp [lockOrder, Stmt.band])) fun r g low => ?_
      refine keeps_issue (by simpa [lockOrder, Stmt.band] using low) fun _ _ => ?_
      exact keeps_ite (fun _ => trivial) fun _ =>
        keeps_bind (appendEvent_ordered _ _ _) fun _ _ _ => trivial

theorem requestCancellation_ordered (orderId : UUID) (reason : String) :
    (requestCancellation orderId reason).Keeps (lockOrder fresh)
    (fun _ _ => True) ⟨0, none, none⟩ := by
  refine keeps_issue (by simp [lockOrder, Stmt.band]) fun found _ => ?_
  cases found with
  | none => exact keeps_raise _
  | some order =>
    exact keeps_ite (fun _ => trivial) fun _ => keeps_ite (fun _ => keeps_raise _) fun _ =>
      keeps_bind (transition_ordered _ _) fun _ _ _ => trivial

theorem markRoutingFailure_ordered (held : Option Session) (orderId : UUID) (reason : String) :
    (markRoutingFailure held orderId reason).Keeps (lockOrder fresh) (fun _ _ => True)
      ⟨0, none, none⟩ := by
  refine keeps_issue (by simp [lockOrder, Stmt.band]) fun found _ => ?_
  cases found with
  | none => exact keeps_pure trivial
  | some row =>
    refine keeps_ite (fun _ => trivial) fun _ => ?_
    refine keeps_bind (accountForUpdate_ordered (Or.inr ?_)) fun _ _ _ =>
      keeps_bind (transition_ordered _ _) fun _ _ _ => trivial
    simp [lockOrder, Stmt.band]

theorem placeOrder_ordered {g : Grip} (low : g.floor ≤ 4) (settings : Settings) (draw : CreateDraw)
    (payload : OrderCreate) (account : Instance Account) :
    (placeOrder settings draw payload account).Keeps (lockOrder fresh) (fun _ _ => True) g := by
  refine keeps_issue (by simpa [lockOrder, Stmt.band] using low) fun _ _ =>
    keeps_bind (appendEvent_ordered _ _ _) fun t g' _ => ?_
  dsimp only
  cases ensureSufficientBuyingPower account.attrs.availableCash
    (requiredBuyingPower payload.side payload.quantity payload.price) with
  | error exc => exact keeps_bind (transition_ordered _ _) fun _ _ _ => trivial
  | ok _ =>
    exact keeps_bind (transition_ordered _ _) fun _ _ _ =>
      keeps_bind (transition_ordered _ _) fun _ _ _ => trivial

theorem createOrder_ordered (settings : Settings) (draw : CreateDraw) (payload : OrderCreate) :
    (createOrder settings draw payload).Keeps (lockOrder fresh)
    (fun _ _ => True) ⟨0, none, none⟩ := by
  refine keeps_issue (Or.inr (by simp)) fun found _ => ?_
  cases found with
  | none => exact keeps_raise _
  | some account =>
    refine keeps_issue (by simp [lockOrder, Stmt.band]) fun keyed _ => ?_
    cases keyed with
    | some existing => exact keeps_ite (fun _ => trivial) fun _ => keeps_raise _
    | none =>
      refine keeps_issue (by simp [lockOrder, Stmt.band]) fun taken _ => ?_
      cases taken with
      | some _ => exact keeps_raise _
      | none => exact placeOrder_ordered (by simp [lockOrder, Stmt.band]) _ _ _ _

theorem markPositions_ordered (price : ℚ) (positions : List Position) (g : Grip) :
    (markPositions price positions).Keeps (lockOrder fresh) (fun _ _ => True) g := by
  induction positions generalizing g with
  | nil => exact keeps_pure trivial
  | cons p ps ih => exact keeps_issue (by simp [lockOrder, Stmt.band]) fun _ _ => ih _

/-- A tick whose price row has another price or time takes the lock on it first. -/
theorem applyTick_ordered (upper : String → String) (symbol : String) (price : ℚ)
    (observedAt : Timestamp) :
    (applyTick upper symbol price observedAt).Keeps
      (lockOrder fun row => ¬ (row.price = price ∧ row.observedAt = observedAt)) (fun _ _ => True)
      ⟨0, none, none⟩ := by
  have listed : ∀ g : Grip, g.floor ≤ 8 → g.symbol = some (upper symbol) →
      (issue (.positionsBySymbolForUpdate (upper symbol)) >>= markPositions price).Keeps
        (lockOrder fun row => ¬ (row.price = price ∧ row.observedAt = observedAt))
          (fun _ _ => True) g :=
    fun g low held => keeps_issue ⟨low, held⟩ fun _ _ => markPositions_ordered _ _ _
  refine keeps_bind (R := fun applied g => applied = true →
    g.floor ≤ 8 ∧ g.symbol = some (upper symbol)) ?_ fun applied g held => ?_
  · refine keeps_issue (by simp [lockOrder, Stmt.band]) fun found expected => ?_
    cases found with
    | none =>
      exact keeps_issue (by simp [lockOrder, Stmt.band]) fun _ _ =>
        keeps_pure fun _ => ⟨by simp [lockOrder, Stmt.band], rfl⟩
    | some row =>
      obtain ⟨same, other⟩ := expected row rfl
      refine keeps_ite (fun _ => ?_) fun _ => keeps_pure (by simp)
      refine keeps_issue ⟨by simp [lockOrder, Stmt.band], fun eq => other ?_⟩ fun _ _ =>
        keeps_pure fun _ => ⟨by simp [lockOrder, Stmt.band], congrArg some same⟩
      exact ⟨(congrArg MarketPrice.price eq).symm, (congrArg MarketPrice.observedAt eq).symm⟩
  · cases applied with
    | false => exact keeps_pure trivial
    | true => exact listed g (held rfl).1 (held rfl).2

end Transactions

end OrderManagement
