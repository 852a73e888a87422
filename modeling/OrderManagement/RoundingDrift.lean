import OrderManagement.FillLedger

/-! What rounding to eight decimals adds up to. Every commit that writes an account rounds
its cash and its reservation once, and every fill rounds the running average of its order, so
each is off by at most half a unit of the last decimal for every such commit. -/

namespace OrderManagement

open Numeric Program TransitionRuns

def halfUnit : ℚ := 1 / 2 / 10 ^ 8

def Op.Places : Op → Prop
  | .processEvent event => event.eventType.isFill = true →
      OnGrid 8 event.filledQuantity ∧ ∀ price ∈ event.fillPrice, OnGrid 8 price
  | _ => True

def Writes (S : Deployment) (k : UUID) (db : Db) (op : Op) : Prop :=
  (step S db op).accounts.find k ≠ db.accounts.find k

instance (S : Deployment) (k : UUID) (db : Db) (op : Op) : Decidable (Writes S k db op) :=
  inferInstanceAs (Decidable (_ ≠ _))

def Db.opening (db : Db) (a : Account) : ℚ :=
  a.cashBalance + db.fillTotal (bought a.id) - db.fillTotal (sold a.id)

/-- The reserved cash of the account beyond what its orders reserve. -/
def Db.unmatched (db : Db) (a : Account) : ℚ :=
  a.reservedCash - db.orders.total (Order.reservationIn a.id)

section Accounts

variable {a b : Account} {o : Order} {q price : ℚ}

theorem Account.settleFill_version (h : a.settleFill o q price = .ok b) :
    b.version = a.version + 1 := by
  rcases Account.settleFill_ok h with ⟨-, -, -, rfl⟩ | ⟨-, rfl⟩ <;> rfl

theorem releaseRemainingReservation_version (h : releaseRemainingReservation a o = .ok b) :
    b = a ∨ b.version = a.version + 1 := by
  rcases releaseRemainingReservation_ok h with ⟨-, rfl⟩ | ⟨-, -, -, rfl⟩
  · exact Or.inl rfl
  · exact Or.inr rfl

theorem Account.refund_version (a : Account) (o : Order) :
    a.refund o = a ∨ (a.refund o).version = a.version + 1 := by
  unfold Account.refund
  split_ifs
  · exact Or.inr rfl
  · exact Or.inl rfl

theorem Placement.charged_version {db : Db} {settings : Settings} {draw : CreateDraw}
    {payload : OrderCreate} (t : Placement db settings draw payload) :
    t.charged = t.account ∨ t.charged.version = t.account.version + 1 := by
  unfold Placement.charged
  split_ifs
  · exact Or.inr rfl
  · exact Or.inl rfl

theorem Concluded.version {data : EventData} {o' : Order} {es : List OrderEvent}
    (h : Concluded data o a o' b es) : a.version ≤ b.version := by
  cases h with
  | ioc rest ioc release =>
    rcases releaseRemainingReservation_version release with rfl | later
    · exact le_rfl
    · omega
  | filled | first | further => exact le_rfl

theorem Concluded.remaining {data : EventData} {o' : Order} {es : List OrderEvent}
    (h : Concluded data o a o' b es) :
    o'.remainingQuantity = o.remainingQuantity ∨ o'.remainingQuantity = 0 := by
  cases h with
  | ioc => exact Or.inr rfl
  | filled | first | further => exact Or.inl rfl

theorem AppliedFill.version {num : Numeric} {db : Db} {event : BrokerExecutionEvent}
    (t : AppliedFill num db event) : t.account.version < t.finalAccount.version := by
  have settled := Account.settleFill_version t.settle
  have concluded := t.conclude.version
  omega

end Accounts

/-- One order row is written, and its account is charged before its columns round it. -/
inductive Charged (num : Numeric) (db db' : Db) : Prop
  | untouched (orders : db'.orders = db.orders) (accounts : db'.accounts = db.accounts)
  | order {o o' : Order} (found : db.orders.find o'.id = some o)
      (orders : db'.orders = db.orders.put o') (accounts : db'.accounts = db.accounts)
      (accountId : o'.accountId = o.accountId) (reservation : o'.reservation = o.reservation)
  | both {o' : Order} {a a' : Account} (found : db.accounts.find o'.accountId = some a)
      (orders : db'.orders = db.orders.put o')
      (accounts : db'.accounts = db.accounts.put (a'.stored num))
      (owner : ∀ o, db.orders.find o'.id = some o → o.accountId = o'.accountId)
      (id : a'.id = a.id)
      (moves : a'.reservedCash = a.reservedCash - db.reservationOf o'.id + o'.reservation)
      (version : a' = a ∨ a.version < a'.version)

section Steps

variable {S : Deployment} {db db' : Db} {op : Op}

theorem AppliedFill.fill_kept {event : BrokerExecutionEvent} (t : AppliedFill S.num db event)
    (rounds : S.num.RoundsTo 8) (places : Op.Places (.processEvent event)) :
    t.fill.stored S.num = t.fill ∧ S.num.Keeps event.filledQuantity := by
  obtain ⟨quantity, price⟩ := places t.isFill
  have kept : S.num.Keeps event.filledQuantity := rounds.keeps_iff.2 quantity
  have priced : S.num.Keeps t.price := rounds.keeps_iff.2 (price _ t.priced)
  refine ⟨?_, kept⟩
  change Fill.stored S.num ⟨_, _, _, event.filledQuantity, t.price, _⟩ = _
  unfold Fill.stored
  rw [show S.num.round event.filledQuantity = _ from kept, show S.num.round t.price = _ from priced]
  rfl

theorem Change.charged (h : Change S db op db') (rounds : S.num.RoundsTo 8) (sound : db.Sound S.num)
    (decided : db.Decided) (places : op.Places) : Charged S.num db db' := by
  -- an order `o` with its account `a`, replaced by `o'` and `a'`
  have replaced : ∀ {k : UUID} {o : Order} (o' : Order) {a a' : Account},
      db.orders.find k = some o → o.Frozen o' → db.accounts.find o.accountId = some a →
      a'.id = a.id →
      db'.orders = db.orders.put (o'.stored S.num) →
      db'.accounts = db.accounts.put (a'.stored S.num) →
      a'.reservedCash = a.reservedCash - o.reservation + o'.reservation →
      S.num.Keeps o'.remainingQuantity → (a' = a ∨ a.version < a'.version) →
      Charged S.num db db' := by
    intro k o o' a a' found frozen accountFound id orders accounts moves rest version
    have key : (o'.stored S.num).id = k := frozen.id.trans (Table.find_key found)
    have owner : (o'.stored S.num).accountId = o.accountId := frozen.accountId
    have price : S.num.Keeps o'.price :=
      frozen.price.symm ▸ (sound.order_keeps (Table.mem_of_find found)).1
    refine .both (owner ▸ accountFound) orders accounts (fun p hp => ?_) id ?_ version
    · rw [key, found] at hp
      exact Option.some.inj hp ▸ owner.symm
    · rw [moves, Order.stored_reservation (fun _ => rest) price, Db.reservationOf, key, found]
      rfl
  -- a new order `o'`, on its account
  have placed : ∀ {draw : CreateDraw} {payload : OrderCreate}
      (t : Placement db S.settings draw payload) (o' : Order) {a' : Account},
      (t.order.stored S.num).refusal S.num db = none → o'.id = draw.orderId →
      o'.accountId = payload.accountId → a'.id = t.account.id →
      db'.orders = db.orders.put (o'.stored S.num) →
      db'.accounts = db.accounts.put (a'.stored S.num) →
      a'.reservedCash = t.account.reservedCash + o'.reservation →
      (o'.status ∈ workingStatuses → S.num.Keeps o'.remainingQuantity) → S.num.Keeps o'.price →
      (a' = t.account ∨ t.account.version < a'.version) → Charged S.num db db' := by
    intro draw payload t o' a' inserted key owner id orders accounts moves rest price version
    have unplaced : db.orders.find (o'.stored S.num).id = none :=
      (congrArg db.orders.find key).trans (t.unplaced inserted)
    have account : db.accounts.find (o'.stored S.num).accountId = some t.account :=
      (congrArg db.accounts.find owner).trans t.accountFound
    refine .both account orders accounts (fun p hp => ?_) id ?_ version
    · rw [unplaced] at hp
      cases hp
    · rw [moves, Order.stored_reservation rest price, Db.reservationOf, unplaced, Option.elim_none,
        sub_zero]
  have order : ∀ {k : UUID} {o : Order}, db.orders.find k = some o → o ∈ db.orders.rows :=
    Table.mem_of_find
  cases h with
  | unchanged | ignored => exact .untouched rfl rfl
  | ticked => exact .untouched rfl rfl
  | @refused draw payload t inserted short =>
    refine placed t t.rejected inserted rfl rfl rfl (by simp) (by simp) ?_ (fun working => ?_)
      (rounds.keeps_iff.2 payload.price_places) (Or.inl rfl)
    · rw [show t.rejected.reservation = 0 from Order.reservation_moved (by decide) _, add_zero]
    · exact absurd (show OrderStatus.rejected ∈ workingStatuses from working) (by decide)
  | @routed draw payload t inserted covered kept =>
    exact placed t t.routed inserted rfl rfl t.charged_id (by simp) (by simp)
      t.charged_reserved (fun _ => rounds.keeps_iff.2 payload.quantity_places)
      (rounds.keeps_iff.2 payload.price_places) (t.charged_version.imp_right (by omega))
  | @filled event t =>
    obtain ⟨-, quantity⟩ := t.fill_kept rounds places
    have left : S.num.Keeps t.booked.remainingQuantity := by
      obtain ⟨-, booked⟩ := Order.bookFill_ok t.book
      rw [booked]
      exact rounds.keeps_iff.2 ((rounds.keeps_iff.1 (sound.order_keeps (order t.found)).2).sub
        (rounds.keeps_iff.1 quantity))
    have rest : S.num.Keeps t.final.remainingQuantity := by
      rcases t.conclude.remaining with same | none_
      · exact same ▸ left
      · exact none_ ▸ S.num.keeps_zero
    exact replaced t.final t.found t.frozen t.accountFound
      ((t.conclude.account_id).trans (Account.settleFill_id t.settle)) (by simp [AppliedFill.after])
      (by simp [AppliedFill.after]) t.moves rest (Or.inr t.version)
  | @released event o final a left record found unprocessed accountFound becomes release accepted =>
    have rest : S.num.Keeps final.remainingQuantity := by
      cases becomes with
      | rejected => exact (sound.order_keeps (order found)).2
      | cancelled => exact S.num.keeps_zero
    exact replaced final found becomes.frozen accountFound (releaseRemainingReservation_id release)
      (by simp) (by simp) (becomes.moves (sound.remaining_nonneg (order found)) release) rest
      ((releaseRemainingReservation_version release).imp_right (by omega))
  | @cancelRequested orderId reason o found cancellable =>
    have key : o.id = orderId := Table.find_key found
    have working := decided.working (order found) cancellable
    have here : db.orders.find ((o.moved .cancelPending).stored S.num).id = some o :=
      (congrArg db.orders.find key).trans found
    refine .order here (by simp [Db.logged, Db.flushed, Instance.of]) rfl rfl ?_
    rw [Order.stored_reservation (o := o.moved .cancelPending)
      (fun _ => (sound.order_keeps (order found)).2) (sound.order_keeps (order found)).1]
    exact Order.reservation_moved_working working (by decide)
  | @routingFailed orderId reason o a found wasRouted accountFound kept =>
    have nothing : ((o.unroutable reason).moved .rejected).reservation = 0 :=
      Order.reservation_moved (by decide) _
    refine replaced ((o.unroutable reason).moved .rejected) found
      ⟨rfl, rfl, rfl, rfl, rfl, rfl, rfl, rfl, rfl, rfl⟩ accountFound (a.refund_id o) (by simp)
      (by simp) ?_ (sound.order_keeps (order found)).2 ((a.refund_version o).imp_right (by omega))
    rw [Account.refund_reserved wasRouted, nothing, add_zero]

structure Rounds (db db' : Db) (k : UUID) (quantity : Db → UUID → ℚ) : Prop where
  near : |quantity db' k - quantity db k| ≤ halfUnit
  stays : db'.accounts.find k = db.accounts.find k → quantity db' k = quantity db k

theorem rounds_of_eq {k : UUID} {quantity : Db → UUID → ℚ} (same : quantity db' k = quantity db k) :
    Rounds db db' k quantity := by
  refine ⟨?_, fun _ => same⟩
  rw [same, sub_self, abs_zero]
  norm_num [halfUnit]

theorem rounds_of_near {k : UUID} {quantity : Db → UUID → ℚ} {x : ℚ} (rounds : S.num.RoundsTo 8)
    (moves : quantity db' k - quantity db k = S.num.round x - x)
    (stays : db'.accounts.find k = db.accounts.find k → S.num.Keeps x) :
    Rounds db db' k quantity := by
  refine ⟨moves ▸ rounds.near x, fun same => ?_⟩
  have kept : S.num.round x = x := stays same
  rw [kept, sub_self] at moves
  exact sub_eq_zero.1 moves

def Db.openingOf (db : Db) (k : UUID) : ℚ := (db.accounts.find k).elim 0 db.opening

def Db.unmatchedOf (db : Db) (k : UUID) : ℚ := (db.accounts.find k).elim 0 db.unmatched

theorem Charged.unmatched (h : Charged S.num db db') (rounds : S.num.RoundsTo 8) (k : UUID) :
    Rounds db db' k Db.unmatchedOf := by
  cases h with
  | untouched orders accounts =>
    refine rounds_of_eq ?_
    unfold Db.unmatchedOf Db.unmatched
    rw [orders, accounts]
  | @order o o' found orders accounts accountId reservation =>
    have same : ∀ b : Account, o'.reservationIn b.id = o.reservationIn b.id := fun b => by
      simp [Order.reservationIn, accountId, reservation]
    refine rounds_of_eq ?_
    unfold Db.unmatchedOf Db.unmatched
    rw [accounts]
    simp only [orders, Table.total_put_of_find _ found, same, sub_add_cancel]
  | @both o' a a' found orders accounts owner id moves version =>
    have holder : a.id = o'.accountId := Table.find_key found
    have total : ∀ b : UUID, db'.orders.total (Order.reservationIn b) =
        db.orders.total (Order.reservationIn b) +
          if o'.accountId = b then o'.reservation - db.reservationOf o'.id else 0 := by
      intro b
      have replaced : (db.orders.find o'.id).elim 0 (Order.reservationIn b) =
          if o'.accountId = b then db.reservationOf o'.id else 0 := by
        unfold Db.reservationOf
        cases was : db.orders.find o'.id with
        | none => simp
        | some o => simp [Order.reservationIn, owner o was]
      rw [orders, Table.total_put, replaced, Order.reservationIn]
      split_ifs <;> ring
    by_cases mine : o'.accountId = k
    · obtain rfl := mine
      have after : db'.accounts.find o'.accountId = some (a'.stored S.num) := by
        rw [accounts]
        exact Table.find_put_of_eq (id.trans holder)
      refine rounds_of_near (x := a'.reservedCash) rounds ?_ fun same => ?_
      · unfold Db.unmatchedOf
        rw [after, found, Option.elim_some, Option.elim_some]
        unfold Db.unmatched
        rw [total, show (a'.stored S.num).id = o'.accountId from id.trans holder,
          if_pos rfl, holder]
        change S.num.round a'.reservedCash - _ - _ = _
        linarith
      · rw [after, found, Option.some_inj] at same
        rcases version with rfl | later
        · exact congrArg Account.reservedCash same
        · have : (a'.stored S.num).version = a.version := congrArg Account.version same
          exact absurd this later.ne'
    · have before : db'.accounts.find k = db.accounts.find k := by
        rw [accounts]
        exact Table.find_put_of_ne fun same => mine ((id.trans holder).symm.trans same)
      refine rounds_of_eq ?_
      unfold Db.unmatchedOf
      rw [before]
      cases row : db.accounts.find k with
      | none => rfl
      | some b =>
        rw [Option.elim_some, Option.elim_some]
        unfold Db.unmatched
        rw [total, Table.find_key row, if_neg mine, add_zero]

theorem Change.evolves (h : Change S db op db') (sound : db.Sound S.num) : db.Evolves db' :=
  fun _ _ found => (h.amended sound).order_frozen found

theorem Change.linked (h : Change S db op db') (sound : db.Sound S.num) (linked : db.Linked) :
    db'.Linked := by
  have persists : ∀ f ∈ db.fills.rows, (db'.orders.find f.orderId).isSome := by
    intro f mem
    obtain ⟨o, found⟩ := Option.isSome_iff_exists.1 (linked f mem)
    obtain ⟨o', found', -⟩ := h.evolves sound _ o found
    rw [found']
    rfl
  rcases h.quiet_or_filled sound with quiet | ⟨event, t, -, rfl⟩
  · unfold Db.Linked
    rwa [quiet.fills]
  · obtain ⟨o', found', -⟩ := h.evolves sound _ _ t.found
    refine Table.forall_put ?_ persists
    change (t.after.orders.find t.order.id).isSome
    rw [Table.find_key t.found, found']
    rfl

theorem Change.opening (h : Change S db op db') (rounds : S.num.RoundsTo 8) (sound : db.Sound S.num)
    (linked : db.Linked) (places : op.Places) (k : UUID) : Rounds db db' k Db.openingOf := by
  have evolves := h.evolves sound
  have persists := (h.amended sound).accounts (k := k)
  rcases h.quiet_or_filled sound with quiet | ⟨event, t, rfl, rfl⟩
  · have totals : ∀ {weight}, FrozenWeight weight → db'.fillTotal weight = db.fillTotal weight := by
      intro weight frozen
      rw [← fillTotal_evolves frozen linked evolves, Db.fillTotal, quiet.fills]
    refine rounds_of_eq ?_
    unfold Db.openingOf
    cases row : db'.accounts.find k with
    | none =>
      cases before : db.accounts.find k with
      | none => rfl
      | some a =>
        rw [before, row] at persists
        cases persists rfl
    | some a' =>
      obtain ⟨a, mem, id, cash⟩ := quiet.accounts a' (Table.mem_of_find row)
      have before : db.accounts.find k = some a := by
        rw [← Table.find_key row, id]
        exact Table.find_of_mem mem
      rw [before, Option.elim_some, Option.elim_some]
      unfold Db.opening
      rw [totals (bought_frozen _), totals (sold_frozen _), id, cash]
  · obtain ⟨kept, -⟩ := t.fill_kept rounds places
    have totals : ∀ {weight}, FrozenWeight weight →
        t.after.fillTotal weight = db.fillTotal weight + weight t.order t.fill :=
      fun frozen => t.fillTotal_after kept frozen linked evolves
    have holder : t.account.id = t.order.accountId := Table.find_key t.accountFound
    have id : t.finalAccount.id = t.order.accountId := t.finalAccount_id
    have accounts : t.after.accounts = db.accounts.put (t.finalAccount.stored S.num) := by
      simp [AppliedFill.after]
    by_cases mine : t.order.accountId = k
    · have after : t.after.accounts.find k = some (t.finalAccount.stored S.num) := by
        rw [accounts]
        exact Table.find_put_of_eq (id.trans mine)
      have before : db.accounts.find k = some t.account := mine ▸ t.accountFound
      refine rounds_of_near (x := t.finalAccount.cashBalance) rounds ?_ fun same => ?_
      · unfold Db.openingOf
        rw [after, before, Option.elim_some, Option.elim_some]
        unfold Db.opening
        rw [totals (bought_frozen _), totals (sold_frozen _),
          show (t.finalAccount.stored S.num).id = t.order.accountId from id, holder]
        change S.num.round t.finalAccount.cashBalance + _ - _ - _ = _
        linarith [t.final_cash]
      · rw [after, before, Option.some_inj] at same
        have : (t.finalAccount.stored S.num).version = t.account.version :=
          congrArg Account.version same
        exact absurd this t.version.ne'
    · have same : t.after.accounts.find k = db.accounts.find k := by
        rw [accounts]
        exact Table.find_put_of_ne fun same => mine (id.symm.trans same)
      refine rounds_of_eq ?_
      unfold Db.openingOf
      rw [same]
      cases row : db.accounts.find k with
      | none => rfl
      | some b =>
        have notMine : t.order.accountId ≠ b.id :=
          fun same => mine (same.trans (Table.find_key row))
        rw [Option.elim_some, Option.elim_some]
        unfold Db.opening
        rw [totals (bought_frozen _), totals (sold_frozen _)]
        simp [bought, sold, notMine]

/-- The states of a run whose fills have at most eight decimals. -/
structure Db.Tracked (num : Numeric) (db : Db) : Prop where
  sound : db.Sound num
  decided : db.Decided
  linked : db.Linked

theorem Db.Tracked.step (h : db.Tracked S.num) (op : Op) : (step S db op).Tracked S.num :=
  have change := step_change S h.sound op
  ⟨change.sound h.sound, change.decided h.decided, change.linked h.sound h.linked⟩

theorem Db.Fresh.tracked {num : Numeric} (fresh : db.Fresh num) : db.Tracked num where
  sound := fresh.sound
  decided := by simp [Db.Decided, fresh.orders]
  linked := by simp [Db.Linked, fresh.fills]

theorem run_account_before {k : UUID} (tracked : db.Tracked S.num) {ops : List Op}
    (found : ((run (step S) db ops).accounts.find k).isSome) : (db.accounts.find k).isSome := by
  induction ops generalizing db with
  | nil => exact found
  | cons op ops ih =>
    have next : ((step S db op).accounts.find k).isSome := ih (tracked.step op) found
    obtain ⟨a', row⟩ := Option.isSome_iff_exists.1 next
    rcases (step_change S tracked.sound op).quiet_or_filled tracked.sound with
      quiet | ⟨event, t, -, eq⟩
    · obtain ⟨a, mem, id, -⟩ := quiet.accounts a' (Table.mem_of_find row)
      rw [← Table.find_key row, id, Table.find_of_mem mem]
      rfl
    · have accounts : (step S db op).accounts = db.accounts.put (t.finalAccount.stored S.num) := by
        rw [eq]
        simp [AppliedFill.after]
      by_cases mine : t.order.accountId = k
      · rw [← mine, t.accountFound]
        rfl
      · have other : (t.finalAccount.stored S.num).id ≠ k :=
          fun same => mine (t.finalAccount_id.symm.trans same)
        rwa [accounts, Table.find_put_of_ne other] at next

/-- What one commit may do to a quantity of an account adds up over a run. -/
theorem run_rounds {k : UUID} (quantity : Db → UUID → ℚ) {ops : List Op}
    (tracked : db.Tracked S.num)
    (rounds : ∀ db op, db.Tracked S.num → op.Places → Rounds db (step S db op) k quantity)
    (places : ∀ op ∈ ops, op.Places) :
    |quantity (run (step S) db ops) k - quantity db k| ≤
      tally (step S) (Writes S k) db ops * halfUnit := by
  refine abs_sub_run_le (fun db => quantity db k) (Db.Tracked S.num) (fun db op h _ => h.step op)
    (fun db op h places => ?_) tracked (along_of_forall places)
  have moved := rounds db op h places
  by_cases writes : Writes S k db op
  · rw [if_pos writes]
    exact moved.near
  · rw [if_neg writes, moved.stays (not_not.1 writes), sub_self, abs_zero]

/-- In every run whose fills have at most eight decimals, the cash of an account and its
reserved cash are off by at most half a unit of the eighth decimal for every commit that
wrote the account. -/
theorem run_drift (rounds : S.num.RoundsTo 8) {db₀ : Db} (fresh : db₀.Fresh S.num) (ops : List Op)
    (places : ∀ op ∈ ops, op.Places) :
    let db := run (step S) db₀ ops
    ∀ a ∈ db.accounts.rows, ∃ a₀ ∈ db₀.accounts.rows, a₀.id = a.id ∧
      |a.cashBalance - (a₀.cashBalance - db.fillTotal (bought a.id) + db.fillTotal (sold a.id))| ≤
        tally (step S) (Writes S a.id) db₀ ops * (1 / 2 / 10 ^ 8) ∧
      |a.reservedCash - db.orders.total fun o =>
          if o.accountId = a.id then
            if o.side = .buy ∧ o.status ∈ openOrderStatuses then
              o.remainingQuantity * o.price
            else 0
          else 0| ≤ tally (step S) (Writes S a.id) db₀ ops * (1 / 2 / 10 ^ 8) := by
  intro db a mem
  have tracked := fresh.tracked
  have final : db.Tracked S.num :=
    run_invariant (Db.Tracked S.num) (fun _ op h => h.step op) tracked
  have row : db.accounts.find a.id = some a := Table.find_of_mem mem
  obtain ⟨a₀, start⟩ : ∃ a₀, db₀.accounts.find a.id = some a₀ := by
    have found : (db.accounts.find a.id).isSome := by rw [row]; rfl
    exact Option.isSome_iff_exists.1 (run_account_before tracked found)
  have cash := run_rounds Db.openingOf tracked
    (fun db op h places =>
      (step_change S h.sound op).opening rounds h.sound h.linked places a.id) places
  have reserved := run_rounds Db.unmatchedOf tracked
    (fun db op h places => ((step_change S h.sound op).charged rounds h.sound h.decided
      places).unmatched rounds a.id) places
  have id : a₀.id = a.id := Table.find_key start
  have none_ : ∀ weight, db₀.fillTotal weight = 0 := fun weight => by
    simp [Db.fillTotal, Table.total, fresh.fills]
  refine ⟨a₀, Table.mem_of_find start, id, ?_, ?_⟩
  · change |db.openingOf a.id - db₀.openingOf a.id| ≤ _ at cash
    rw [Db.openingOf, row, Db.openingOf, start, Option.elim_some, Option.elim_some, Db.opening,
      Db.opening, none_, none_, add_zero, sub_zero] at cash
    rwa [show
      a.cashBalance - (a₀.cashBalance - db.fillTotal (bought a.id) + db.fillTotal (sold a.id)) =
      a.cashBalance + db.fillTotal (bought a.id) - db.fillTotal (sold a.id) - a₀.cashBalance
      by ring]
  · have empty : db₀.unmatched a₀ = 0 := by
      rw [Db.unmatched, fresh.unreserved a₀ (Table.mem_of_find start), Table.total_eq_zero,
        sub_zero]
      simp [fresh.orders]
    have open_ : (db.orders.total fun o => if o.accountId = a.id then
          if o.side = .buy ∧ o.status ∈ openOrderStatuses then o.remainingQuantity * o.price else 0
        else 0) = db.orders.total (Order.reservationIn a.id) := by
      refine Table.total_congr fun o mem => ?_
      have same : o.status ∈ openOrderStatuses ↔ o.status ∈ workingStatuses := by
        have decided := final.decided o mem
        revert decided
        cases o.status <;> decide
      unfold Order.reservationIn Order.reservation
      simp only [same]
    change |db.unmatchedOf a.id - db₀.unmatchedOf a.id| ≤ _ at reserved
    rw [Db.unmatchedOf, row, Db.unmatchedOf, start, Option.elim_some, Option.elim_some, empty,
      sub_zero, Db.unmatched] at reserved
    rwa [open_]

def traded : List Op := [.createOrder ⟨2, 0⟩ limitBuy, .processEvent partialFill]

theorem traded_places : ∀ op ∈ traded, op.Places := by
  simp only [traded, List.forall_mem_cons, List.not_mem_nil, false_implies, implies_true, and_true]
  refine ⟨trivial, fun _ => ⟨by decide +kernel, fun price priced => ?_⟩⟩
  obtain rfl : 21 = price := Option.some.inj priced
  decide +kernel

theorem run_drift_partialFill :
    let S : Deployment := ⟨.column 24 8, {}, id⟩
    let db := run (step S) (traderDb S.num) traded
    tally (step S) (Writes S 1) (traderDb S.num) traded = 2 ∧
    ∀ a ∈ db.accounts.rows, ∃ a₀ ∈ (traderDb S.num).accounts.rows, a₀.id = a.id ∧
      |a.cashBalance - (a₀.cashBalance - db.fillTotal (bought a.id) + db.fillTotal (sold a.id))| ≤
        tally (step S) (Writes S a.id) (traderDb S.num) traded * (1 / 2 / 10 ^ 8) := by
  refine ⟨by decide +kernel, fun a mem => ?_⟩
  obtain ⟨a₀, start, id, cash, -⟩ := run_drift (S := ⟨.column 24 8, {}, id⟩) (column_roundsTo 24 8)
    (openAccounts_fresh _ _) traded traded_places a mem
  exact ⟨a₀, start, id, cash⟩

end Steps

end OrderManagement
