import OrderManagement.OrderServices

/-! Rules for the unit of work. A session is in step with the database when the
rows of its instances are what the columns made of the attributes last loaded or
flushed; a flush then replaces those rows by the current attributes. -/

namespace OrderManagement

open Program

/-- Every row is what its columns keep of itself and passes its checks, as after
any write. -/
structure Db.Sound (num : Numeric) (db : Db) : Prop where
  accounts : ∀ a ∈ db.accounts.rows, a.stored num = a ∧ a.violation num = none
  orders : ∀ o ∈ db.orders.rows, o.stored num = o ∧ o.violation num = none
  fills : ∀ f ∈ db.fills.rows, f.stored num = f ∧ f.violation num = none
  positions : ∀ p ∈ db.positions.rows, p.stored num = p ∧ p.violation num = none
  marketPrices : ∀ m ∈ db.marketPrices.rows, m.stored num = m ∧ m.violation num = none

namespace Session

/-- The instances of `s` are in step with sound rows of `db`. -/
structure Synced (num : Numeric) (db : Db) (s : Session) : Prop where
  order : db.orders.find s.order.loaded.id = some (s.order.loaded.stored num)
  orderSound : (s.order.loaded.stored num).violation num = none
  orderId : s.order.attrs.id = s.order.loaded.id
  account : ∀ a ∈ s.account,
    db.accounts.find a.loaded.id = some (a.loaded.stored num) ∧
      (a.loaded.stored num).violation num = none ∧ a.attrs.id = a.loaded.id
  position : ∀ p ∈ s.position,
    db.positions.find p.loaded.holding = some (p.loaded.stored num) ∧
      (p.loaded.stored num).violation num = none ∧ p.attrs.holding = p.loaded.holding

inductive Refused (num : Numeric) (s : Session) : Failure → Prop
  | account {a : Instance Account} {f : Failure} (held : s.account = some a)
      (refused : (a.attrs.stored num).violation num = some f) : Refused num s f
  | order {f : Failure} (refused : (s.order.attrs.stored num).violation num = some f) :
      Refused num s f
  | position {p : Instance Position} {f : Failure} (held : s.position = some p)
      (refused : (p.attrs.stored num).violation num = some f) : Refused num s f

structure Accepted (num : Numeric) (s : Session) : Prop where
  account : ∀ a ∈ s.account, (a.attrs.stored num).violation num = none
  order : (s.order.attrs.stored num).violation num = none
  position : ∀ p ∈ s.position, (p.attrs.stored num).violation num = none

end Session

def Db.flushed (num : Numeric) (db : Db) (s : Session) : Db :=
  { db with
    accounts := match s.account with
      | none => db.accounts
      | some a => db.accounts.put (a.attrs.stored num)
    orders := db.orders.put (s.order.attrs.stored num)
    positions := match s.position with
      | none => db.positions
      | some p => db.positions.put (p.attrs.stored num) }

section Rules

variable {num : Numeric} {X : Failure → Prop} {db : Db} {s : Session}

@[simp] theorem Order.stored_id (o : Order) : (o.stored num).id = o.id := rfl

@[simp] theorem Account.stored_id (a : Account) : (a.stored num).id = a.id := rfl

@[simp] theorem Position.stored_holding (p : Position) : (p.stored num).holding = p.holding := rfl

theorem Db.Sound.synced (sound : db.Sound num) {id : UUID} {o : Order}
    (found : db.orders.find id = some o) : Session.Synced num db { order := .of o } where
  order := by
    have key := Table.find_key found
    simp only [Instance.of]
    rw [(sound.orders o (Table.mem_of_find found)).1, key, found]
  orderSound := by
    obtain ⟨kept, checked⟩ := sound.orders o (Table.mem_of_find found)
    exact kept.symm ▸ checked
  orderId := rfl
  account := by simp
  position := by simp

theorem Db.Sound.synced_account (sound : db.Sound num) {id k : UUID} {o : Order} {a b : Account}
    (found : db.orders.find id = some o) (accountFound : db.accounts.find k = some a)
    (same : b.id = a.id) :
    Session.Synced num db { order := .of o, account := some ⟨a, b⟩ } where
  order := (sound.synced found).order
  orderSound := (sound.synced found).orderSound
  orderId := rfl
  account i hi := by
    obtain rfl := Option.some.inj hi
    obtain ⟨kept, checked⟩ := sound.accounts a (Table.mem_of_find accountFound)
    rw [kept]
    exact ⟨(Table.find_key accountFound).symm ▸ accountFound, checked, same⟩
  position := by simp

theorem wp_flush {Q : Session → Db → Prop} (synced : s.Synced num db)
    (raises : ∀ f, s.Refused num f → X f)
    (flushed : s.Accepted num → Q s.flushed (db.flushed num s)) :
    (flush s).wp (postgres num) Q X db := by
  unfold flush
  rw [wp_bind]
  -- the three UPDATEs touch different tables, so each finds the row it was loaded from
  have positionPart : ∀ db' : Db, db'.positions = db.positions →
      (s.Accepted num → Q s.flushed { db' with positions := (db.flushed num s).positions }) →
      (∀ a ∈ s.account, (a.attrs.stored num).violation num = none) →
      (s.order.attrs.stored num).violation num = none →
      (flushPosition s.position >>= fun _ => pure s.flushed).wp (postgres num) Q X db' := by
    intro db' same done ha ho
    rw [wp_bind]
    cases hp : s.position with
    | none =>
      have := done ⟨ha, ho, by simp [hp]⟩
      simpa [flushPosition, Db.flushed, hp, ← same] using this
    | some p =>
      obtain ⟨row, sound, key⟩ := synced.position p hp
      refine wp_updatePosition (same ▸ row) sound key (fun f hf => raises f (.position hp hf)) ?_
      intro hv
      have := done ⟨ha, ho, fun p' hp' => by
        rw [Option.mem_def, hp, Option.some_inj] at hp'
        exact hp' ▸ hv⟩
      simpa [Db.flushed, hp, same] using this
  have orderPart : ∀ db' : Db, db'.orders = db.orders → db'.positions = db.positions →
      (s.Accepted num → Q s.flushed { db' with
        orders := (db.flushed num s).orders, positions := (db.flushed num s).positions }) →
      (∀ a ∈ s.account, (a.attrs.stored num).violation num = none) →
      (issue (Stmt.updateOrder s.order.loaded s.order.attrs) >>= fun _ =>
        flushPosition s.position >>= fun _ => pure s.flushed).wp (postgres num) Q X db' := by
    intro db' sameOrders samePositions done ha
    rw [wp_bind]
    refine wp_updateOrder (sameOrders ▸ synced.order) synced.orderSound synced.orderId
      (fun f hf => raises f (.order hf)) ?_
    intro hv
    refine positionPart _ samePositions ?_ ha hv
    simpa [Db.flushed, sameOrders] using done
  cases ha : s.account with
  | none =>
    refine orderPart db rfl rfl ?_ (by simp [ha])
    simpa [Db.flushed, ha] using flushed
  | some a =>
    obtain ⟨row, sound, key⟩ := synced.account a ha
    refine wp_updateAccount row sound key (fun f hf => raises f (.account ha hf)) ?_
    intro hv
    refine orderPart _ rfl rfl ?_ (fun a' ha' => ?_)
    · simpa [Db.flushed, ha] using flushed
    · rw [Option.mem_def, ha, Option.some_inj] at ha'
      exact ha' ▸ hv

/-- `db` with the rows of `s` flushed and `events` appended to the audit log. -/
def Db.logged (num : Numeric) (db : Db) (s : Session) (events : List OrderEvent) : Db :=
  { db.flushed num s with orderEvents := db.orderEvents ++ events }

theorem Session.Accepted.synced_flushed (accepted : s.Accepted num) (db : Db) :
    s.flushed.Synced num (db.flushed num s) where
  order := by simp [Db.flushed, Session.flushed, Instance.flushed, Instance.of, Table.find_put]
  orderSound := accepted.order
  orderId := rfl
  account a ha := by
    obtain ⟨b, hb, rfl⟩ := Option.map_eq_some_iff.1 ha
    refine ⟨?_, accepted.account b hb, rfl⟩
    simp [Db.flushed, hb, Instance.flushed, Instance.of, Table.find_put]
  position p hp := by
    obtain ⟨r, hr, rfl⟩ := Option.map_eq_some_iff.1 hp
    refine ⟨?_, accepted.position r hr, rfl⟩
    simp [Db.flushed, hr, Instance.flushed, Instance.of, Table.find_put]

theorem Session.Synced.of_tables {db' : Db} (h : s.Synced num db)
    (orders : db'.orders = db.orders) (accounts : db'.accounts = db.accounts)
    (positions : db'.positions = db.positions) : s.Synced num db' where
  order := orders ▸ h.order
  orderSound := h.orderSound
  orderId := h.orderId
  account := accounts ▸ h.account
  position := positions ▸ h.position

theorem Session.Accepted.synced_logged (accepted : s.Accepted num) (db : Db)
    (events : List OrderEvent) : s.flushed.Synced num (db.logged num s events) :=
  (accepted.synced_flushed db).of_tables rfl rfl rfl

theorem wp_appendEvent {Q : Session → Db → Prop} {eventType : OrderEventType}
    {previous new : Option OrderStatus} {data : EventData} (synced : s.Synced num db)
    (raises : ∀ f, s.Refused num f → X f)
    (done : s.Accepted num →
      Q s.flushed (db.logged num s [⟨s.order.attrs.id, eventType, previous, new, data⟩])) :
    (appendEvent s eventType previous new data).wp (postgres num) Q X db := by
  unfold appendEvent
  rw [wp_bind]
  exact wp_flush synced raises done

def Order.moved (o : Order) (target : OrderStatus) : Order :=
  { o with status := target, version := o.version + 1 }

def Session.moved (s : Session) (target : OrderStatus) : Session :=
  s.setOrder (Order.moved · target)

theorem Session.Synced.set_order {f : Order → Order} (h : s.Synced num db)
    (keeps : (f s.order.attrs).id = s.order.attrs.id) : (s.setOrder f).Synced num db where
  order := h.order
  orderSound := h.orderSound
  orderId := keeps.trans h.orderId
  account := h.account
  position := h.position

theorem wp_transition {Q : Session → Db → Prop} {target : OrderStatus}
    {eventType : OrderEventType} {data : EventData} (synced : s.Synced num db)
    (raises : ∀ f, (s.moved target).Refused num f → X f)
    (forbidden : target ∉ allowedTransitions s.order.attrs.status →
      X (.domain (.invalidStateTransition s.order.attrs.status target)))
    (done : target ∈ allowedTransitions s.order.attrs.status → (s.moved target).Accepted num →
      Q (s.moved target).flushed (db.logged num (s.moved target)
        [⟨s.order.attrs.id, eventType, some s.order.attrs.status, some target, data⟩])) :
    (transition s target eventType data).wp (postgres num) Q X db := by
  unfold transition
  rw [wp_bind, wp_liftExcept]
  unfold ensureTransitionAllowed
  constructor
  · intro _ h
    split_ifs at h with allowed
    exact wp_appendEvent (synced.set_order rfl) raises (done allowed)
  · intro e h
    split_ifs at h with allowed
    exact Except.error.inj h ▸ forbidden allowed

/-- Locking the account of an order that the session has not loaded yet. -/
theorem wp_accountForUpdate_fresh {Q : Instance Account → Db → Prop} (fresh : s.account = none)
    (missing : db.accounts.find s.order.attrs.accountId = none →
      X (.domain (.accountNotFound s.order.attrs.accountId)))
    (done : ∀ row, db.accounts.find s.order.attrs.accountId = some row → Q (.of row) db) :
    (OrderManagement.accountForUpdate s).wp (postgres num) Q X db := by
  unfold accountForUpdate
  rw [wp_bind, wp_accountForUpdate]
  cases h : db.accounts.find s.order.attrs.accountId with
  | none => exact missing h
  | some row => simpa [Instance.resolve, fresh] using done row h

theorem wp_accountForUpdate_held {Q : Instance Account → Db → Prop} {a : Instance Account}
    {row : Account} (held : s.account = some a)
    (found : db.accounts.find s.order.attrs.accountId = some row)
    (same : a.attrs.id = s.order.attrs.accountId) (done : Q a db) :
    (OrderManagement.accountForUpdate s).wp (postgres num) Q X db := by
  unfold accountForUpdate
  rw [wp_bind, wp_accountForUpdate, found]
  have key : a.attrs.id = row.id := same.trans (Table.find_key found).symm
  simpa [Instance.resolve, held, key] using done

theorem Db.logged_logged {s t : Session} {es fs : List OrderEvent}
    (order : s.order.attrs.id = t.order.attrs.id)
    (account : ∀ a ∈ s.account, ∃ b ∈ t.account, a.attrs.id = b.attrs.id)
    (position : ∀ p ∈ s.position, ∃ r ∈ t.position, p.attrs.holding = r.attrs.holding) :
    (db.logged num s es).logged num t fs = db.logged num t (es ++ fs) := by
  unfold Db.logged Db.flushed
  apply Db.ext
  · cases hs : s.account with
    | none => rfl
    | some a =>
      obtain ⟨b, hb, same⟩ := account a hs
      rw [Option.mem_def] at hb
      simp only [hb]
      exact Table.put_put same
  · exact Table.put_put order
  · rfl
  · cases hs : s.position with
    | none => rfl
    | some p =>
      obtain ⟨r, hr, same⟩ := position p hs
      rw [Option.mem_def] at hr
      simp only [hr]
      exact Table.put_put same
  · rfl
  · rfl
  · exact List.append_assoc _ _ _

def Session.Clean (s : Session) : Prop := s.flushed = s

theorem Session.flushed_clean (s : Session) : s.flushed.Clean := by
  unfold Clean Session.flushed
  rw [Option.map_map, Option.map_map]
  rfl

/-- A session whose current attributes are those of `o`, `a` and `p`. -/
structure Session.Holds (s : Session) (o : Order) (a : Account) (p : Option Position) : Prop where
  order : s.order.attrs = o
  account : s.account.map Instance.attrs = some a
  position : s.position.map Instance.attrs = p

/-- The rows of `o`, `a` and `p`, flushed into `db`, and the audit records `events`. -/
def Db.booked (num : Numeric) (db : Db) (o : Order) (a : Account) (p : Option Position)
    (events : List OrderEvent) : Db :=
  db.logged num { order := .of o, account := some (.of a), position := p.map .of } events

section Booked

variable {o : Order} {a : Account} {p : Option Position} {q : Position} {es : List OrderEvent}

@[simp] theorem Db.booked_orders :
    (db.booked num o a p es).orders = db.orders.put (o.stored num) := rfl

@[simp] theorem Db.booked_accounts :
    (db.booked num o a p es).accounts = db.accounts.put (a.stored num) := rfl

@[simp] theorem Db.booked_positions_none :
    (db.booked num o a none es).positions = db.positions := rfl

@[simp] theorem Db.booked_positions_some :
    (db.booked num o a (some q) es).positions = db.positions.put (q.stored num) := rfl

@[simp] theorem Db.booked_fills : (db.booked num o a p es).fills = db.fills := rfl

@[simp] theorem Db.booked_marketPrices :
    (db.booked num o a p es).marketPrices = db.marketPrices := rfl

@[simp] theorem Db.booked_processed :
    (db.booked num o a p es).processedBrokerEvents = db.processedBrokerEvents := rfl

@[simp] theorem Db.booked_orderEvents :
    (db.booked num o a p es).orderEvents = db.orderEvents ++ es := rfl

end Booked

theorem Session.Holds.logged {s : Session} {o : Order} {a : Account} {p : Option Position}
    (h : s.Holds o a p) (events : List OrderEvent) :
    db.logged num s events = db.booked num o a p events := by
  obtain ⟨b, hb, rfl⟩ := Option.map_eq_some_iff.1 h.account
  unfold Db.booked Db.logged Db.flushed
  simp only [hb, h.order, Instance.of, ← h.position]
  cases s.position <;> rfl

inductive RefusedRow (num : Numeric) (o : Order) (a : Account) (p : Option Position) :
    Failure → Prop
  | order {f : Failure} (refused : (o.stored num).violation num = some f) : RefusedRow num o a p f
  | account {f : Failure} (refused : (a.stored num).violation num = some f) : RefusedRow num o a p f
  | position {r : Position} {f : Failure} (held : p = some r)
      (refused : (r.stored num).violation num = some f) : RefusedRow num o a p f

theorem RefusedRow.isRefusal {o : Order} {a : Account} {p : Option Position} {f : Failure}
    (h : RefusedRow num o a p f) : f.isRefusal = true := by
  cases h with
  | order refused => exact Order.violation_isRefusal refused
  | account refused => exact Account.violation_isRefusal refused
  | position _ refused => exact Position.violation_isRefusal refused

theorem Session.Holds.refused {s : Session} {o : Order} {a : Account} {p : Option Position}
    (h : s.Holds o a p) {f : Failure} (refused : s.Refused num f) : RefusedRow num o a p f := by
  cases refused with
  | account held refused =>
    have := h.account
    rw [held, Option.map_some, Option.some_inj] at this
    exact .account (this ▸ refused)
  | order refused => exact .order (h.order ▸ refused)
  | position held refused => exact .position (by rw [← h.position, held]; rfl) refused

structure AcceptedRows (num : Numeric) (o : Order) (a : Account) (p : Option Position) : Prop where
  order : (o.stored num).violation num = none
  account : (a.stored num).violation num = none
  position : ∀ r ∈ p, (r.stored num).violation num = none

theorem Session.Holds.accepted {s : Session} {o : Order} {a : Account} {p : Option Position}
    (h : s.Holds o a p) (accepted : s.Accepted num) : AcceptedRows num o a p where
  order := h.order ▸ accepted.order
  account := by
    obtain ⟨i, hi, rfl⟩ := Option.map_eq_some_iff.1 h.account
    exact accepted.account i hi
  position r hr := by
    rw [← h.position] at hr
    obtain ⟨i, hi, rfl⟩ := Option.map_eq_some_iff.1 hr
    exact accepted.position i hi

theorem Session.Holds.flushed {s : Session} {o : Order} {a : Account} {p : Option Position}
    (h : s.Holds o a p) : s.flushed.Holds o a p where
  order := h.order
  account := by
    simpa [Session.flushed, Instance.flushed, Instance.of, Function.comp_def] using h.account
  position := by
    simpa [Session.flushed, Instance.flushed, Instance.of, Function.comp_def] using h.position

theorem Db.booked_booked {o o' : Order} {a a' : Account} {p p' : Option Position}
    {es fs : List OrderEvent} (order : o.id = o'.id) (account : a.id = a'.id)
    (position : ∀ r ∈ p, ∃ r' ∈ p', r.holding = r'.holding) :
    (db.booked num o a p es).booked num o' a' p' fs = db.booked num o' a' p' (es ++ fs) := by
  refine Db.logged_logged order (by simpa [Instance.of] using account) fun i hi => ?_
  obtain ⟨r, hr, rfl⟩ := Option.map_eq_some_iff.1 hi
  obtain ⟨r', hr', same⟩ := position r hr
  exact ⟨.of r', Option.map_eq_some_iff.2 ⟨r', hr', rfl⟩, same⟩

theorem Session.Holds.wp_transition {Q : Session → Db → Prop} {o : Order} {a : Account}
    {p : Option Position} {target : OrderStatus} {eventType : OrderEventType} {data : EventData}
    (h : s.Holds o a p) (synced : s.Synced num db) (allowed : target ∈ allowedTransitions o.status)
    (refused : ∀ f, RefusedRow num (o.moved target) a p f → X f)
    (done : AcceptedRows num (o.moved target) a p → ∀ u : Session, u.Holds (o.moved target) a p →
      let db' := db.booked num (o.moved target) a p
        [⟨o.id, eventType, some o.status, some target, data⟩]
      u.Synced num db' → u.Clean → Q u db') :
    (transition s target eventType data).wp (postgres num) Q X db := by
  have moved : (s.moved target).Holds (o.moved target) a p :=
    ⟨by rw [← h.order]; rfl, h.account, h.position⟩
  refine OrderManagement.wp_transition synced (fun f hf => refused f (moved.refused hf))
    (fun forbidden => absurd (h.order ▸ allowed) forbidden) fun _ accepted => ?_
  rw [moved.logged, h.order]
  refine done (moved.accepted accepted) _ moved.flushed ?_ (Session.flushed_clean _)
  rw [← moved.logged]
  exact accepted.synced_logged db _

theorem Session.Holds.wp_appendEvent {Q : Session → Db → Prop} {o : Order} {a : Account}
    {p : Option Position} {eventType : OrderEventType} {previous new : Option OrderStatus}
    {data : EventData} (h : s.Holds o a p) (synced : s.Synced num db)
    (refused : ∀ f, RefusedRow num o a p f → X f)
    (done : AcceptedRows num o a p → ∀ u : Session, u.Holds o a p →
      let db' := db.booked num o a p [⟨o.id, eventType, previous, new, data⟩]
      u.Synced num db' → u.Clean → Q u db') :
    (appendEvent s eventType previous new data).wp (postgres num) Q X db := by
  refine OrderManagement.wp_appendEvent synced (fun f hf => refused f (h.refused hf))
    fun accepted => ?_
  rw [h.logged, h.order]
  refine done (h.accepted accepted) _ h.flushed ?_ (Session.flushed_clean _)
  rw [← h.logged]
  exact accepted.synced_logged db _

end Rules

end OrderManagement
