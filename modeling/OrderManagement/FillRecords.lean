import OrderManagement.FillLedger
import OrderManagement.OrderHistory
import OrderManagement.OrderedPrefix

/-! The fills of an order as they are listed. What an order has filled is covered by the fills
that are read after it, and an order that is not to rest has one fill at most. -/

namespace OrderManagement

open OrderedPrefix TransitionRuns

/-- `list_fills` returns the fills by execution time, those of one time in any order. -/
def ListsFills (db : Db) (orderId : UUID) (rows : List Fill) : Prop :=
  Arrangement Fill.executedAt (db.fillsOf orderId) rows

theorem Db.filledOf_eq_sum (db : Db) (k : UUID) :
    db.filledOf k = ((db.fillsOf k).map Fill.quantity).sum := by
  have total := Table.total_ite db.fills (fun f => decide (f.orderId = k)) Fill.quantity
  simpa [Db.filledOf, Db.fillsOf] using total

theorem Db.Later.fillsOf_prefix {db db' : Db} (h : db.Later db') (k : UUID) :
    db.fillsOf k <+: db'.fillsOf k := h.fills.filter _

theorem eq_of_prefix_of_sum_le {α : Type} {f : α → ℚ} {xs ys : List α} (first : xs <+: ys)
    (positive : ∀ y ∈ ys, 0 < f y) (sum : (ys.map f).sum ≤ (xs.map f).sum) : ys = xs := by
  obtain ⟨more, rfl⟩ := first
  rw [List.map_append, List.sum_append, add_le_iff_nonpos_right] at sum
  have none_ : more.map f = [] := by
    by_contra some_
    refine absurd sum (not_le.2 (List.sum_pos _ (fun x mem => ?_) some_))
    obtain ⟨y, there, rfl⟩ := List.mem_map.1 mem
    exact positive y (List.mem_append_right _ there)
  rw [List.map_eq_nil_iff.1 none_, List.append_nil]

section Read

variable {settings : Settings} {upper : String → String} {db₀ : Db}

theorem run_ledger_kept (fresh : db₀.Fresh .exact) (ops : List Op) :
    Ledger db₀ (run (step (.exact settings upper)) db₀ ops) := by
  refine run_induction (.exact settings upper) (Ledger db₀) fresh.sound
    (fun db op db' sound ledger change => ?_) fresh.ledger
  have evolves : db.Evolves db' := fun k o found => (change.amended sound).order_frozen found
  rcases change.quiet_or_filled sound with quiet | ⟨event, t, -, rfl⟩
  · exact ledger.quiet quiet evolves
  · exact ledger.filled t evolves

end Read

/-! Orders that are not to rest. -/

structure Db.Immediate (db : Db) : Prop where
  linked : db.Linked
  orders : ∀ k o, db.orders.find k = some o → o.timeInForce = .ioc →
    db.fillsOf k = [] ∨ (db.fillsOf k).length = 1 ∧ (o.status = .filled ∨ o.status = .cancelled)

theorem Db.Linked.fillsOf {db : Db} (linked : db.Linked) {k : UUID}
    (missing : db.orders.find k = none) : db.fillsOf k = [] := by
  refine List.filter_eq_nil_iff.2 fun f mem => ?_
  have there := linked f mem
  simp only [decide_eq_true_eq]
  rintro rfl
  simp [missing] at there

theorem Concluded.immediate {data : EventData} {o o' : Order} {a a' : Account}
    {es : List OrderEvent} (h : Concluded data o a o' a' es) (ioc : o.timeInForce = .ioc) :
    o'.status = .filled ∨ o'.status = .cancelled := by
  cases h with
  | filled => exact Or.inl rfl
  | ioc => exact Or.inr rfl
  | first _ resting | further _ resting => exact (resting ioc).elim

section Steps

variable {S : Deployment} {db db' : Db} {op : Op}

theorem AppliedFill.fill_orderId {event : BrokerExecutionEvent} (t : AppliedFill S.num db event) :
    (t.fill.stored S.num).orderId = event.orderId :=
  show t.order.id = event.orderId from Table.find_key t.found

theorem AppliedFill.fillsOf_after {event : BrokerExecutionEvent} (t : AppliedFill S.num db event)
    (k : UUID) : t.after.fillsOf k =
      db.fillsOf k ++ if event.orderId = k then [t.fill.stored S.num] else [] := by
  unfold Db.fillsOf
  rw [t.rows_fills, List.filter_append, List.filter_singleton, t.fill_orderId]
  by_cases own : event.orderId = k <;> simp [own]

theorem Change.immediate (h : Change S db op db') (sound : db.Sound S.num)
    (immediate : db.Immediate) : db'.Immediate := by
  have kept : ∀ {k : UUID}, (db.orders.find k).isSome → (db'.orders.find k).isSome := by
    intro k there
    obtain ⟨o, found⟩ := Option.isSome_iff_exists.1 there
    obtain ⟨o', found', -⟩ := (h.amended sound).order_frozen found
    simp [found']
  -- an order that has its fill is not written again, and a new one has none
  have orders : (∀ k, db'.fillsOf k = db.fillsOf k) → ∀ k o', db'.orders.find k = some o' →
      o'.timeInForce = .ioc → db'.fillsOf k = [] ∨
        (db'.fillsOf k).length = 1 ∧ (o'.status = .filled ∨ o'.status = .cancelled) := by
    intro same k o' found' ioc
    rw [same]
    cases found : db.orders.find k with
    | none => exact Or.inl (immediate.linked.fillsOf found)
    | some o =>
      obtain ⟨p, foundP, frozen⟩ := (h.amended sound).order_frozen found
      obtain rfl : p = o' := Option.some.inj (foundP.symm.trans found')
      refine (immediate.orders k o found (frozen.timeInForce.symm.trans ioc)).imp_right ?_
      rintro ⟨one, done⟩
      have still := h.terminal found (by rcases done with eq | eq <;> rw [eq] <;> decide)
      obtain rfl : o = p := Option.some.inj (still.symm.trans found')
      exact ⟨one, done⟩
  rcases h.quiet_or_filled sound with quiet | ⟨event, t, -, rfl⟩
  · have same : ∀ k, db'.fillsOf k = db.fillsOf k := fun k => by rw [Db.fillsOf, quiet.fills]; rfl
    refine ⟨fun f mem => ?_, orders same⟩
    rw [quiet.fills] at mem
    exact kept (immediate.linked f mem)
  · refine ⟨fun f mem => ?_, fun k o' found' ioc => ?_⟩
    · rw [t.rows_fills, List.mem_append, List.mem_singleton] at mem
      rcases mem with old | rfl
      · exact kept (immediate.linked f old)
      · refine kept ?_
        rw [t.fill_orderId, t.found]
        rfl
    · by_cases own : event.orderId = k
      · subst own
        have final : o' = t.final.stored S.num := by
          have left : t.after.orders.find event.orderId = some (t.final.stored S.num) :=
            Table.find_put_of_eq (t.final_id : (t.final.stored S.num).id = event.orderId)
          exact Option.some.inj (found'.symm.trans left)
        rw [final] at ioc ⊢
        have bookedIoc : t.booked.timeInForce = .ioc := t.conclude.frozen.timeInForce.symm.trans ioc
        have orderIoc : t.order.timeInForce = .ioc :=
          (Order.bookFill_frozen t.book).timeInForce.symm.trans bookedIoc
        have first : db.fillsOf event.orderId = [] := by
          refine (immediate.orders _ _ t.found orderIoc).resolve_right ?_
          rintro ⟨-, done⟩
          refine Order.not_terminal_of_working t.working ?_
          rcases done with eq | eq <;> rw [eq] <;> decide
        rw [t.fillsOf_after, first, if_pos rfl]
        exact Or.inr ⟨rfl, t.conclude.immediate bookedIoc⟩
      · have same : t.after.fillsOf k = db.fillsOf k := by
          rw [t.fillsOf_after, if_neg own, List.append_nil]
        have others : t.after.orders.find k = db.orders.find k :=
          Table.find_put_of_ne fun key => own (t.final_id.symm.trans key)
        rw [others] at found'
        rw [same]
        exact immediate.orders k o' found' ioc

/-- Whatever the columns round, an IOC order has one fill at most, and none while it is open. -/
theorem run_iocFills {db₀ : Db} (fresh : db₀.Fresh S.num) (ops : List Op) :
    let db := run (step S) db₀ ops
    ∀ o ∈ db.orders.rows, o.timeInForce = .ioc → (db.fillsOf o.id).length ≤ 1 ∧
      (o.status ∈ openOrderStatuses ∨ o.status = .rejected → db.fillsOf o.id = []) := by
  intro db o mem ioc
  have immediate : db.Immediate :=
    run_induction S Db.Immediate fresh.sound
      (fun _ _ _ sound immediate change => change.immediate sound immediate)
      ⟨by simp [Db.Linked, fresh.fills], fun k o found => by
        simp [Table.find_eq_none_iff.2 (show ∀ r ∈ db₀.orders.rows, r.id ≠ k by
          simp [fresh.orders])] at found⟩
  rcases immediate.orders o.id o (Table.find_of_mem mem) ioc with none_ | ⟨one, done⟩
  · exact ⟨by simp [none_], fun _ => none_⟩
  · refine ⟨one.le, fun still => ?_⟩
    rcases done with eq | eq <;> simp [eq, openOrderStatuses] at still

end Steps

/-! An IOC order, partly filled and then filled again. -/

def limitIoc : OrderCreate := { limitBuy with timeInForce := .ioc }

theorem run_iocFills_partialFill :
    let db := run (step (.exact {} id)) (traderDb .exact)
      [.createOrder ⟨2, 0⟩ limitIoc, .processEvent partialFill]
    (db.fillsOf 2).length = 1 ∧ ∀ o ∈ db.orders.rows, o.timeInForce = .ioc →
      (db.fillsOf o.id).length ≤ 1 := by
  intro db
  exact ⟨by decide +kernel, fun o mem ioc =>
    (run_iocFills (S := .exact {} id) (openAccounts_fresh .exact _)
      [.createOrder ⟨2, 0⟩ limitIoc, .processEvent partialFill] o mem ioc).1⟩

end OrderManagement
