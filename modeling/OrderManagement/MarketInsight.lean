import OrderManagement.BlockingLocks
import OrderManagement.FillOutcomes

/-! How ticks and events come to the marks of positions. A tick reads its market price,
stores its own, lists the positions in the symbol and marks them; an event locates the
position of its order, reads the market price and marks the position it changes or opens.
What each has found out so far is its state in a protocol that its program keeps to. -/

namespace OrderManagement

open Program

/-- The transactions that mark positions. -/
inductive MarketCall
  | tick (symbol : String) (price : ℚ) (observedAt : Timestamp)
  | event (e : BrokerExecutionEvent)

def MarketCall.program (upper : String → String) : MarketCall → Txn Unit
  | tick symbol price observedAt => applyTick upper symbol price observedAt
  | event e => do
    let _ ← processEvent e
    return ()

def MarketCall.price : MarketCall → Option ℚ
  | tick _ price _ => some price
  | event _ => none

def Position.MarkedAt (p : Position) (mark : ℚ) : Prop :=
  p.lastMarkPrice = some mark ∧ p.unrealizedPnl = (mark - p.averageEntryPrice) * p.netQuantity

instance (p : Position) (mark : ℚ) : Decidable (p.MarkedAt mark) :=
  inferInstanceAs (Decidable (_ ∧ _))

/-- A position marked at the market price, where there is one. -/
def Position.ValuedAt (p : Position) (price : Option MarketPrice) : Prop :=
  ∃ mark, p.MarkedAt mark ∧ ∀ m ∈ price, mark = m.price

theorem markedPosition_markedAt (price : ℚ) (p : Position) :
    (markedPosition price p).MarkedAt price :=
  ⟨rfl, calculateUnrealizedPnl_some _ _ _⟩

theorem Position.MarkedAt.valuedAt {p : Position} {price : Option MarketPrice} {fillPrice : ℚ}
    (marked : p.MarkedAt ((price.map MarketPrice.price).getD fillPrice)) : p.ValuedAt price := by
  refine ⟨_, marked, fun m mem => ?_⟩
  rw [Option.mem_def.1 mem]
  rfl

theorem Position.executed_markedAt {p r : Position} {side : OrderSide} {q price mark : ℚ}
    (h : p.executed side q price mark = .ok r) : r.MarkedAt mark := by
  obtain ⟨c, -, rfl⟩ := Position.executed_ok h
  exact ⟨rfl, calculateUnrealizedPnl_some _ _ _⟩

theorem Position.opened_markedAt (accountId : UUID) (symbol : String) (mark : ℚ) :
    (Position.opened accountId symbol mark).MarkedAt mark := ⟨rfl, by simp [Position.opened]⟩

/-- What a tick or an event has found out and done. A tick has read its market price, stored
its own (`changed` unless the same was there), and listed the positions: `done` are marked
already. An event has located its position, read the market price `price` for a new one, and
changed a position that was there or opened one under the price that it has read. -/
inductive Insight
  | opening
  | read (found : Option MarketPrice)
  | priced (changed : Bool)
  | marking (changed : Bool) (done todo : List Position)
  | idle
  | located (found : Option Position) (holding : UUID × String)
  | valued (holding : UUID × String) (price : Option MarketPrice)
  | kept (row : Position) (price : Option MarketPrice)
  | opened (row : Position) (price : Option MarketPrice)

def tickProtocol (symbol : String) (price : ℚ) (observedAt : Timestamp) :
    Protocol Stmt Insight where
  allows
    | .opening, .marketPrice s => s = symbol
    | .read none, .insertMarketPrice row => row = ⟨symbol, price, observedAt⟩
    | .read (some found), .updateMarketPrice loaded current =>
      loaded = found ∧ current = { found with price := price, observedAt := observedAt } ∧
        found.observedAt ≤ observedAt
    | .priced _, .positionsBySymbolForUpdate s => s = symbol
    | .marking _ _ (p :: _), .updatePosition loaded current =>
      loaded = p ∧ current = markedPosition price p
    | _, _ => False
  expected _ _ := True
  after
    | .opening, .marketPrice _, found => .read found
    | .read _, .insertMarketPrice _, _ => .priced true
    | .read _, .updateMarketPrice loaded current, _ => .priced (decide (current ≠ loaded))
    | .priced changed, .positionsBySymbolForUpdate _, found => .marking changed [] found
    | .marking changed done (p :: todo), .updatePosition _ _, _ => .marking changed (p :: done) todo
    | g, _, _ => g

def Insight.TickDone (observedAt : Timestamp) : Insight → Prop
  | read (some found) => observedAt < found.observedAt
  | marking _ _ [] => True
  | _ => False

def Stmt.OffMarket {β : Type} : Stmt β → Prop
  | .positionForUpdate _ _ | .positionsBySymbolForUpdate _ | .insertPosition _
  | .updatePosition _ _ | .marketPrice _ | .insertMarketPrice _ | .updateMarketPrice _ _ => False
  | _ => True

def eventProtocol : Protocol Stmt Insight where
  allows
    | .idle, .positionForUpdate _ _ => True
    | .located _ holding, .marketPrice symbol => symbol = holding.2
    | .valued holding price, .insertPosition row => row.holding = holding ∧ row.ValuedAt price
    | .kept row price, .updatePosition loaded current =>
      loaded = row ∧ current.holding = row.holding ∧ current.ValuedAt price
    | .opened row price, .updatePosition loaded current =>
      loaded = row ∧ current.holding = row.holding ∧ current.ValuedAt price
    | _, s => s.OffMarket
  expected _ _ := True
  after
    | .idle, .positionForUpdate accountId symbol, found => .located found (accountId, symbol)
    | .located found holding, .marketPrice _, price =>
      match found with
      | none => .valued holding price
      | some row => .kept row price
    | .valued _ price, .insertPosition row, _ => .opened row price
    | .kept _ price, .updatePosition _ current, _ => .kept current price
    | .opened _ price, .updatePosition _ current, _ => .opened current price
    | g, _, _ => g

def MarketCall.protocol (upper : String → String) : MarketCall → Protocol Stmt Insight
  | tick symbol price observedAt => tickProtocol (upper symbol) price observedAt
  | event _ => eventProtocol

section Ticks

variable {upper : String → String} {symbol : String} {price : ℚ} {observedAt : Timestamp}

theorem markPositions_insight (changed : Bool) (positions done : List Position) :
    (markPositions price positions).Keeps (tickProtocol symbol price observedAt)
      (fun _ g => g.TickDone observedAt) (.marking changed done positions) := by
  induction positions generalizing done with
  | nil => exact keeps_pure trivial
  | cons p ps ih => exact keeps_issue ⟨rfl, rfl⟩ fun _ _ => ih (p :: done)

theorem applyTick_insight : (applyTick upper symbol price observedAt).Keeps
    (tickProtocol (upper symbol) price observedAt) (fun _ g => g.TickDone observedAt) .opening := by
  refine keeps_bind (R := fun applied g =>
      if applied then ∃ changed, g = .priced changed else g.TickDone observedAt) ?_
    fun applied g h => ?_
  · refine keeps_issue rfl fun found _ => ?_
    cases found with
    | none => exact keeps_issue rfl fun _ _ => keeps_pure ⟨true, rfl⟩
    | some row =>
      refine keeps_ite (fun newer => ?_) fun older => keeps_pure (not_le.1 older)
      exact keeps_issue ⟨rfl, rfl, newer⟩ fun _ _ => keeps_pure ⟨_, rfl⟩
  · cases applied with
    | false => exact keeps_pure h
    | true =>
      obtain ⟨changed, rfl⟩ := h
      exact keeps_issue rfl fun positions _ => markPositions_insight changed positions []

end Ticks

/-- A session whose position, if any, is the row that its transaction has last written or
read, with its changes marked at the market price that was read. -/
def Session.Tracks (s : Session) (g : Insight) : Prop :=
  match s.position with
  | none => True
  | some p => p.attrs.holding = p.loaded.holding ∧
    ∃ price, (g = .kept p.loaded price ∨ g = .opened p.loaded price) ∧ p.attrs.ValuedAt price

section Events

variable {s : Session} {g : Insight} {data : EventData}

theorem offMarket_allows {β : Type} {s : Stmt β} (off : s.OffMarket) (g : Insight) :
    eventProtocol.allows g s ∧ ∀ r, eventProtocol.after g s r = g := by
  cases s <;> first | exact off.elim | (cases g <;> exact ⟨trivial, fun _ => rfl⟩)

theorem keeps_off {α β : Type} {s : Stmt β} {f : β → Txn α} {Q : α → Insight → Prop}
    (off : s.OffMarket) (rest : ∀ r, (f r).Keeps eventProtocol Q g) :
    (issue s >>= f).Keeps eventProtocol Q g :=
  keeps_issue (offMarket_allows off g).1 fun r _ => by
    rw [(offMarket_allows off g).2]
    exact rest r

/-- What a step of a session leads to: it still tracks its position, and has none if it had none. -/
def Session.Goes (s : Session) (g : Insight) (t : Session) (g' : Insight) : Prop :=
  t.Tracks g' ∧ (s.position = none → t.position = none ∧ g' = g)

theorem Session.tracks_of_none (h : s.position = none) (g : Insight) : s.Tracks g := by
  unfold Tracks
  rw [h]
  trivial

theorem flush_insight (tracks : s.Tracks g) : (flush s).Keeps eventProtocol (s.Goes g) g := by
  have order : (issue (Stmt.updateOrder s.order.loaded s.order.attrs) >>= fun _ =>
      flushPosition s.position >>= fun _ => pure s.flushed : Txn Session).Keeps eventProtocol
        (s.Goes g) g := by
    refine keeps_off trivial fun _ => ?_
    unfold Session.Tracks at tracks
    cases held : s.position with
    | none => exact keeps_pure ⟨Session.tracks_of_none (by simp [Session.flushed, held]) _,
        fun _ => ⟨by simp [Session.flushed, held], rfl⟩⟩
    | some p =>
      have flushed :
          s.flushed.position = some (.of p.attrs) := by
        simp [Session.flushed, held, Instance.flushed]
      rw [held] at tracks
      obtain ⟨same, price, state, valued⟩ := tracks
      have goes : ∀ g', g' = .kept p.attrs price ∨ g' = .opened p.attrs price →
          s.Goes g s.flushed g' := by
        intro g' state
        refine ⟨?_, fun none_ => by simp [held] at none_⟩
        unfold Session.Tracks
        rw [flushed]
        exact ⟨rfl, price, state, valued⟩
      rcases state with rfl | rfl
      · exact keeps_issue ⟨rfl, same, valued⟩ fun _ _ => goes _ (Or.inl rfl)
      · exact keeps_issue ⟨rfl, same, valued⟩ fun _ _ => goes _ (Or.inr rfl)
  unfold flush
  cases s.account with
  | none => exact order
  | some a => exact keeps_off trivial fun _ => order

theorem appendEvent_insight (tracks : s.Tracks g) (eventType : OrderEventType)
    (previous new : Option OrderStatus) :
    (appendEvent s eventType previous new data).Keeps eventProtocol (s.Goes g) g :=
  keeps_bind (flush_insight tracks) fun _ _ goes => keeps_off trivial fun _ => goes

theorem transition_insight (tracks : s.Tracks g) (target : OrderStatus)
    (eventType : OrderEventType) :
    (transition s target eventType data).Keeps eventProtocol (s.Goes g) g :=
  keeps_lift fun _ _ => appendEvent_insight (s := s.setOrder _) tracks _ _ _

theorem accountForUpdate_insight :
    (accountForUpdate s).Keeps eventProtocol (fun _ g' => g' = g) g := by
  refine keeps_off trivial fun found => ?_
  cases found with
  | none => exact keeps_raise _
  | some row => exact rfl

theorem cancelRemaining_insight (tracks : s.Tracks g) (reason : String) :
    (cancelRemaining s reason data).Keeps eventProtocol (fun t g' => t.Tracks g') g := by
  refine keeps_bind accountForUpdate_insight fun account g' eq => keeps_lift fun released _ => ?_
  subst eq
  exact keeps_mono (transition_insight (s := { s.setOrder Order.cancelRest with
    account := some (account.set fun _ => released) }) tracks _ _) fun _ _ goes => goes.1

theorem concludeFill_insight (tracks : s.Tracks g) :
    (concludeFill s data).Keeps eventProtocol (fun t g' => t.Tracks g') g := by
  refine keeps_ite (fun _ => ?_) fun _ => keeps_ite (fun _ => ?_) fun _ => keeps_ite (fun _ => ?_)
    fun _ => ?_
  · exact keeps_mono (transition_insight tracks _ _) fun _ _ goes => goes.1
  · exact keeps_bind (appendEvent_insight tracks _ _ _) fun _ _ goes =>
      cancelRemaining_insight goes.1 _
  · exact keeps_mono (transition_insight tracks _ _) fun _ _ goes => goes.1
  · exact keeps_mono (appendEvent_insight tracks _ _ _) fun _ _ goes => goes.1

theorem applyExecution_insight (fresh : s.position = none) (q price : ℚ) :
    (applyExecution s q price).Keeps eventProtocol (fun t g' => t.Tracks g') .idle := by
  refine keeps_issue trivial fun found _ => keeps_issue rfl fun market _ => ?_
  cases found with
  | some row =>
    refine keeps_lift fun executed done => ?_
    exact ⟨Position.executed_holding done, market, Or.inl rfl,
      (Position.executed_markedAt done).valuedAt⟩
  | none =>
    refine keeps_bind (flush_insight (Session.tracks_of_none fresh _)) fun t g' goes => ?_
    obtain ⟨-, rfl⟩ := goes.2 fresh
    refine keeps_issue ⟨rfl, (Position.opened_markedAt _ _ _).valuedAt⟩ fun _ _ =>
      keeps_lift fun executed done => ?_
    exact ⟨Position.executed_holding done, market, Or.inr rfl,
      (Position.executed_markedAt done).valuedAt⟩

variable {event : BrokerExecutionEvent}

theorem applyFill_insight (fresh : s.position = none) :
    (applyFill s event).Keeps eventProtocol (fun r g' => r.1.Tracks g') .idle := by
  have stays : s.Tracks .idle := Session.tracks_of_none fresh _
  refine keeps_ite (fun _ => stays) fun _ => ?_
  cases event.fillPrice with
  | none => exact keeps_raise _
  | some price =>
    refine keeps_ite (fun _ => keeps_raise _) fun _ => keeps_ite (fun _ => stays) fun _ =>
      keeps_ite (fun _ => stays) fun _ => keeps_lift fun booked _ => ?_
    refine keeps_bind (flush_insight (s := s.setOrder _) stays) fun t g' goes => ?_
    obtain ⟨none_, rfl⟩ := goes.2 fresh
    refine keeps_off trivial fun _ => keeps_bind accountForUpdate_insight fun account g' eq => ?_
    subst eq
    refine keeps_lift fun settled _ => ?_
    refine keeps_bind (applyExecution_insight
      (s := { t with account := some (account.set fun _ => settled) }) none_ _ _)
      fun u g'' tracks => ?_
    exact keeps_bind (concludeFill_insight tracks) fun _ _ tracks => keeps_pure tracks

theorem applyRejection_insight (fresh : s.position = none) :
    (applyRejection s event).Keeps eventProtocol (fun r g' => r.1.Tracks g') .idle := by
  have stays : s.Tracks .idle := Session.tracks_of_none fresh _
  refine keeps_ite (fun _ => stays) fun _ => ?_
  refine keeps_bind accountForUpdate_insight fun account g' eq => keeps_lift fun released _ => ?_
  subst eq
  exact keeps_bind (transition_insight (s := { s.setOrder _ with account := _ }) stays _ _)
    fun _ _ goes => keeps_pure goes.1

theorem applyCancellation_insight (fresh : s.position = none) :
    (applyCancellation s event).Keeps eventProtocol (fun r g' => r.1.Tracks g') .idle := by
  have stays : s.Tracks .idle := Session.tracks_of_none fresh _
  exact keeps_ite (fun _ => stays) fun _ =>
    keeps_bind (cancelRemaining_insight stays _) fun _ _ tracks => keeps_pure tracks

theorem processEvent_insight (event : BrokerExecutionEvent) :
    (processEvent event).Keeps eventProtocol (fun _ _ => True) .idle := by
  refine keeps_off trivial fun found => ?_
  cases found with
  | none => exact keeps_raise _
  | some order =>
    refine keeps_off trivial fun processed => ?_
    cases processed with
    | some _ => exact keeps_pure trivial
    | none =>
      refine keeps_bind (R := fun r g' => r.1.Tracks g') ?_ fun r g tracks => ?_
      · unfold dispatch
        cases event.eventType with
        | fullFill | partialFill => exact applyFill_insight rfl
        | rejected => exact applyRejection_insight rfl
        | cancelled => exact applyCancellation_insight rfl
      · refine keeps_off trivial fun _ => keeps_ite (fun _ => trivial) fun _ => ?_
        exact keeps_bind (appendEvent_insight tracks _ _ _) fun _ _ _ => trivial

end Events

def Insight.Done : MarketCall → Insight → Prop
  | .tick _ _ observedAt, g => g.TickDone observedAt
  | .event _, _ => True

def MarketCall.first : MarketCall → Insight
  | tick _ _ _ => .opening
  | event _ => .idle

theorem MarketCall.program_insight (upper : String → String) (call : MarketCall) :
    (call.program upper).Keeps (call.protocol upper) (fun _ g => g.Done call) call.first := by
  cases call with
  | tick symbol price observedAt => exact applyTick_insight
  | event e => exact keeps_bind (processEvent_insight e) fun _ _ _ => keeps_pure trivial

end OrderManagement
