import OrderManagement.SessionRules

/-! A market tick stores a price, unless a newer one is there, and marks every
position in its symbol. -/

namespace OrderManagement

open Program

def markedTable (num : Numeric) (price : ℚ) (ps : List Position)
    (t : Table Position Position.holding) : Table Position Position.holding :=
  ps.foldl (fun t p => t.put ((markedPosition price p).stored num)) t

inductive TickEffect (num : Numeric) (db : Db) (symbol : String) (price : ℚ)
    (observedAt : Timestamp) : Db → Prop
  | outdated {found : MarketPrice} (row : db.marketPrices.find symbol = some found)
      (older : observedAt < found.observedAt) : TickEffect num db symbol price observedAt db
  | marked (kept : (MarketPrice.stored num ⟨symbol, price, observedAt⟩).violation num = none)
      (marks : ∀ p ∈ db.positions.rows, p.symbol = symbol →
        ((markedPosition price p).stored num).violation num = none) :
      TickEffect num db symbol price observedAt
        { db with
          marketPrices := db.marketPrices.put (MarketPrice.stored num ⟨symbol, price, observedAt⟩)
          positions := markedTable num price
            (db.positions.rows.filter fun p => p.symbol = symbol) db.positions }

section Marking

variable {num : Numeric} {db : Db} {price : ℚ}

theorem find_markedTable {ps : List Position} {t : Table Position Position.holding}
    (nodup : (ps.map Position.holding).Nodup) (found : ∀ p ∈ ps, t.find p.holding = some p)
    (k : UUID × String) : (markedTable num price ps t).find k =
      (t.find k).map fun p => if p ∈ ps then (markedPosition price p).stored num else p := by
  induction ps generalizing t with
  | nil => simp [markedTable]
  | cons p ps ih =>
    simp only [List.map_cons, List.nodup_cons, List.mem_map, not_exists, not_and] at nodup
    have row := found p (by simp)
    have key : ((markedPosition price p).stored num).holding = p.holding := rfl
    have rest : ∀ q ∈ ps,
        (t.put ((markedPosition price p).stored num)).find q.holding = some q := fun q hq => by
      have other : p.holding ≠ q.holding := fun same => nodup.1 q hq same.symm
      exact (Table.find_put_of_ne (key.trans_ne other)).trans (found q (by simp [hq]))
    have later := ih nodup.2 rest
    simp only [markedTable, List.foldl_cons] at later ⊢
    rw [later]
    by_cases here : p.holding = k
    · have unlisted : (markedPosition price p).stored num ∉ ps := fun mem => nodup.1 _ mem key
      rw [Table.find_put_of_eq (key.trans here), ← here, row]
      simp [unlisted]
    · rw [Table.find_put_of_ne (key.trans_ne here)]
      cases other : t.find k with
      | none => rfl
      | some q =>
        have differ : q ≠ p := fun same => here (same ▸ Table.find_key other)
        simp [differ]

theorem markPositions_spec {Q : Unit → Db → Prop} {X : Failure → Prop} {ps : List Position}
    (nodup : (ps.map Position.holding).Nodup)
    (found : ∀ p ∈ ps, db.positions.find p.holding = some p)
    (sound : ∀ p ∈ ps, p.stored num = p ∧ p.violation num = none)
    (refused : ∀ p ∈ ps, ∀ f, ((markedPosition price p).stored num).violation num = some f → X f)
    (done : (∀ p ∈ ps, ((markedPosition price p).stored num).violation num = none) →
      Q () { db with positions := markedTable num price ps db.positions }) :
    (markPositions price ps).wp (postgres num) Q X db := by
  induction ps generalizing db with
  | nil => exact done (by simp)
  | cons p ps ih =>
    simp only [List.map_cons, List.nodup_cons, List.mem_map, not_exists, not_and] at nodup
    obtain ⟨kept, checked⟩ := sound p (by simp)
    unfold markPositions
    rw [wp_bind]
    refine wp_updatePosition (by rw [kept]; exact found p (by simp)) (kept.symm ▸ checked) rfl
      (refused p (by simp)) fun marked => ?_
    refine ih nodup.2 (fun q hq => ?_) (fun q hq => sound q (by simp [hq]))
      (fun q hq => refused q (by simp [hq])) fun rest => done ?_
    · have other : ((markedPosition price p).stored num).holding ≠ q.holding :=
        fun same => nodup.1 q hq same.symm
      exact (Table.find_put_of_ne other).trans (found q (by simp [hq]))
    · simpa [marked] using rest

inductive UpsertEffect (num : Numeric) (db : Db) (row : MarketPrice) : Bool → Db → Prop
  | outdated {found : MarketPrice} (held : db.marketPrices.find row.symbol = some found)
      (older : row.observedAt < found.observedAt) : UpsertEffect num db row false db
  | stored (kept : (row.stored num).violation num = none)
      (newest : ∀ found ∈ db.marketPrices.find row.symbol, found.observedAt ≤ row.observedAt) :
      UpsertEffect num db row true { db with marketPrices := db.marketPrices.put (row.stored num) }

theorem upsertMarketPrice_spec {symbol : String} {observedAt : Timestamp} (sound : db.Sound num) :
    (upsertMarketPrice symbol price observedAt).wp (postgres num)
      (UpsertEffect num db ⟨symbol, price, observedAt⟩)
      (fun f =>
        (MarketPrice.stored num ⟨symbol, price, observedAt⟩).violation num = some f) db := by
  unfold upsertMarketPrice
  simp only [wp_bind, wp_marketPrice]
  cases row : db.marketPrices.find symbol with
  | none =>
    simp only [wp_bind, wp_insertMarketPrice]
    have free :
        db.marketPrices.find (MarketPrice.stored num ⟨symbol, price, observedAt⟩).symbol = none :=
      row
    refine ⟨fun f refused => ?_, fun inserted => .stored ?_ (by simp [row])⟩
    · simpa [MarketPrice.refusal, conflict, free] using refused
    · unfold MarketPrice.refusal at inserted
      simp only [Option.or_eq_none_iff] at inserted
      exact inserted.1
  | some found =>
    obtain ⟨stored, checked⟩ := sound.marketPrices found (Table.mem_of_find row)
    have key := Table.find_key row
    have same : ({ found with price, observedAt } : MarketPrice) = ⟨symbol, price, observedAt⟩ := by
      rw [← key]
    by_cases newer : found.observedAt ≤ observedAt
    · simp only [ge_iff_le, newer, if_true, wp_bind]
      refine wp_updateMarketPrice (by rw [stored, key, row]) (stored.symm ▸ checked) rfl
        (fun _ refused => same ▸ refused) fun kept => ?_
      rw [same] at kept ⊢
      refine .stored kept fun other held => ?_
      obtain rfl := Option.some.inj (row.symm.trans held)
      exact newer
    · simp only [ge_iff_le, newer, if_false, wp_pure]
      exact .outdated row (not_le.1 newer)

theorem markSymbol_spec {Q : Unit → Db → Prop} {X : Failure → Prop} (symbol : String)
    (sound : ∀ p ∈ db.positions.rows, p.stored num = p ∧ p.violation num = none)
    (refused : ∀ p ∈ db.positions.rows, p.symbol = symbol →
      ∀ f, ((markedPosition price p).stored num).violation num = some f → X f)
    (done : (∀ p ∈ db.positions.rows, p.symbol = symbol →
        ((markedPosition price p).stored num).violation num = none) →
      Q () { db with
        positions := markedTable num price
          (db.positions.rows.filter fun p => p.symbol = symbol) db.positions }) :
    (issue (Stmt.positionsBySymbolForUpdate symbol) >>= markPositions price : Txn Unit).wp
      (postgres num) Q X db := by
  have inTable : ∀ p ∈ db.positions.rows.filter (fun p => p.symbol = symbol),
      p ∈ db.positions.rows ∧ p.symbol = symbol := fun p hp => by simpa using hp
  rw [wp_bind, wp_positionsBySymbolForUpdate]
  exact markPositions_spec (db.positions.nodup.sublist (List.filter_sublist.map _))
    (fun p hp => Table.find_of_mem (inTable p hp).1) (fun p hp => sound p (inTable p hp).1)
    (fun p hp => refused p (inTable p hp).1 (inTable p hp).2)
    fun marked => done fun p mem same => marked p (by simpa using ⟨mem, same⟩)

theorem applyTick_spec {upper : String → String} {symbol : String} {observedAt : Timestamp}
    (sound : db.Sound num) :
    (applyTick upper symbol price observedAt).wp (postgres num)
      (fun _ => TickEffect num db (upper symbol) price observedAt) (fun _ => True) db := by
  unfold applyTick
  rw [wp_bind]
  refine wp_mono _ (upsertMarketPrice_spec sound) (fun applied db' effect => ?_) fun _ _ => trivial
  cases effect with
  | outdated held older => exact .outdated held older
  | stored kept =>
    exact markSymbol_spec (upper symbol) sound.positions (fun _ _ _ _ _ => trivial)
      fun marked => TickEffect.marked kept marked

end Marking

end OrderManagement
