import OrderManagement.EncodedRuns

/-! The order of ticks. A tick is refused or applied as a whole, and whether its values fit
their columns does not depend on the ticks before it. So a list of ticks leaves every symbol
with the newest of its ticks that the database takes, in whatever order they come. -/

namespace OrderManagement

open Program TransitionRuns

structure Tick where
  symbol : String
  price : ℚ
  observedAt : Timestamp
  deriving DecidableEq, Repr

def Tick.op (t : Tick) : Op := .applyTick t.symbol t.price t.observedAt

def Tick.row (S : Deployment) (t : Tick) : MarketPrice :=
  MarketPrice.stored S.num ⟨S.upper t.symbol, t.price, t.observedAt⟩

/-- A position with the mark of a price; its other columns stay. -/
def Position.markedAt (num : Numeric) (price : ℚ) (p : Position) : Position :=
  { p with
    lastMarkPrice := some (num.round price)
    unrealizedPnl :=
      num.round (calculateUnrealizedPnl p.netQuantity p.averageEntryPrice (some price)) }

/-- The values of the tick fit the columns of its price row and of every position it marks. -/
structure Db.FitsTick (S : Deployment) (db : Db) (t : Tick) : Prop where
  row : (t.row S).violation S.num = none
  marks : ∀ p ∈ db.positions.rows, p.symbol = S.upper t.symbol →
    ((markedPosition t.price p).stored S.num).violation S.num = none

/-- The database takes the symbol and the values of the tick. -/
structure Db.Takes (S : Deployment) (db : Db) (t : Tick) : Prop where
  symbol : NulFree (S.upper t.symbol)
  fits : db.FitsTick S t

def Db.NotNewer (db : Db) (symbol : String) (observedAt : Timestamp) : Prop :=
  ∀ m ∈ db.marketPrices.find symbol, m.observedAt ≤ observedAt

def Db.ticked (S : Deployment) (db : Db) (t : Tick) : Db :=
  { db with
    marketPrices := db.marketPrices.put (t.row S)
    positions := markedTable S.num t.price
      (db.positions.rows.filter fun p => p.symbol = S.upper t.symbol) db.positions }

variable {S : Deployment} {db db' : Db} {t : Tick} {ticks : List Tick}

theorem changedText_self (column : Column) (text : String) : changedText column text text = [] :=
  if_pos rfl

theorem applyTick_encodable {upper : String → String} {symbol : String}
    (free : NulFree (upper symbol)) (price : ℚ) (observedAt : Timestamp) :
    (applyTick upper symbol price observedAt).Keeps encodable (fun _ _ => True) () := by
  have unsent : ∀ {β : Type} {s : Stmt β}, s.texts = [] → s.unencodable = none := fun none_ =>
    Stmt.unencodable_eq_none_iff.2 (by simp [none_])
  have marks : ∀ positions : List Position,
      (markPositions price positions).Keeps encodable (fun _ _ => True) () := by
    intro positions
    induction positions with
    | nil => exact keeps_pure trivial
    | cons p ps ih => exact keeps_issue (unsent (changedText_self _ p.symbol)) fun _ _ => ih
  have stored : (upsertMarketPrice (upper symbol) price observedAt).Keeps encodable
      (fun _ _ => True) () := by
    refine keeps_issue (Stmt.unencodable_of_one rfl free) fun found _ => ?_
    cases found with
    | none => exact keeps_issue (Stmt.unencodable_of_one rfl free) fun _ _ => keeps_pure trivial
    | some row =>
      exact keeps_ite (fun _ => keeps_issue (unsent (changedText_self _ row.symbol)) fun _ _ =>
        keeps_pure trivial) fun _ => keeps_pure trivial
  refine keeps_bind stored fun applied _ _ => ?_
  cases applied with
  | false => exact keeps_pure trivial
  | true =>
    exact keeps_issue (Stmt.unencodable_of_one rfl free) fun positions _ => marks positions

theorem encodedStep_tick_of_nulFree (free : NulFree (S.upper t.symbol)) :
    encodedStep S db t.op = step S db t.op := by
  have ran : (applyTick S.upper t.symbol t.price t.observedAt).run (encodedPostgres S.num) db =
      (applyTick S.upper t.symbol t.price t.observedAt).run (postgres S.num) db :=
    run_guarded (applyTick_encodable free t.price t.observedAt) db
  exact encodedCommitted_of_same ran

theorem encodedStep_tick_of_nul (nul : ¬ NulFree (S.upper t.symbol)) :
    encodedStep S db t.op = db := by
  have refused : (Stmt.marketPrice (S.upper t.symbol)).unencodable =
      some (.data .marketPriceSymbol) := by simp [Stmt.unencodable, Stmt.texts, nul]
  have ran : (applyTick S.upper t.symbol t.price t.observedAt).run (encodedPostgres S.num) db =
      .error (.data .marketPriceSymbol) := run_guarded_refused refused db
  exact encodedCommitted_of_raised ran

/-- A tick that the database takes and that is not outdated is applied, and any other changes
nothing. -/
theorem step_tick (sound : db.Sound S.num) (t : Tick) :
    (db.Takes S t ∧ db.NotNewer (S.upper t.symbol) t.observedAt ∧
        encodedStep S db t.op = db.ticked S t) ∨
      (¬ (db.Takes S t ∧ db.NotNewer (S.upper t.symbol) t.observedAt) ∧
        encodedStep S db t.op = db) := by
  by_cases free : NulFree (S.upper t.symbol)
  swap
  · exact Or.inr ⟨fun both => free both.1.symbol, encodedStep_tick_of_nul free⟩
  rw [encodedStep_tick_of_nulFree free]
  have spec : (applyTick S.upper t.symbol t.price t.observedAt).wp (postgres S.num)
      (fun _ db' => (db.Takes S t ∧ db.NotNewer (S.upper t.symbol) t.observedAt ∧
          db' = db.ticked S t) ∨
        (¬ db.NotNewer (S.upper t.symbol) t.observedAt ∧ db' = db))
      (fun _ => ¬ db.Takes S t) db := by
    unfold applyTick
    rw [wp_bind]
    refine wp_mono _ (upsertMarketPrice_spec sound) (fun applied db' effect => ?_)
      fun f refused takes => ?_
    · cases effect with
      | outdated held older =>
        exact Or.inr ⟨fun notNewer => absurd (notNewer _ held) (not_le.2 older), rfl⟩
      | stored kept newest =>
        exact markSymbol_spec (S.upper t.symbol) sound.positions
          (fun p mem same f refused takes => by
            rw [takes.fits.marks p mem same] at refused
            cases refused)
          fun marked => Or.inl ⟨⟨free, kept, marked⟩, newest, rfl⟩
    · have fits :
          (MarketPrice.stored S.num ⟨S.upper t.symbol, t.price, t.observedAt⟩).violation S.num =
        none := takes.fits.row
      rw [fits] at refused
      cases refused
  change (_ ∧ _ ∧ committed S.num (applyTick S.upper t.symbol t.price t.observedAt) db = _) ∨
    (_ ∧ committed S.num (applyTick S.upper t.symbol t.price t.observedAt) db = _)
  unfold committed
  cases ran : (applyTick S.upper t.symbol t.price t.observedAt).run (postgres S.num) db with
  | error f => exact Or.inr ⟨fun both => wp_error _ spec ran both.1, rfl⟩
  | ok answer =>
    rcases wp_ok _ spec ran with applied | ⟨newer, same⟩
    · exact Or.inl applied
    · exact Or.inr ⟨fun both => newer both.2, same⟩

theorem Position.stored_markedPosition {num : Numeric} {p : Position} (kept : p.stored num = p)
    (price : ℚ) : (markedPosition price p).stored num = p.markedAt num price := by
  have net : num.round p.netQuantity = p.netQuantity := congrArg Position.netQuantity kept
  have entry : num.round p.averageEntryPrice = p.averageEntryPrice :=
    congrArg Position.averageEntryPrice kept
  have realized : num.round p.realizedPnl = p.realizedPnl := congrArg Position.realizedPnl kept
  simp only [Position.stored, markedPosition, Position.markedAt, net, entry, realized,
    Option.map_some]

theorem find_ticked (sound : db.Sound S.num) (t : Tick) (k : UUID × String) :
    (db.ticked S t).positions.find k = (db.positions.find k).map fun p =>
      if p.symbol = S.upper t.symbol then p.markedAt S.num t.price else p := by
  have inTable : ∀ p ∈ db.positions.rows.filter (fun p => p.symbol = S.upper t.symbol),
      p ∈ db.positions.rows := fun p mem => List.mem_of_mem_filter mem
  refine (find_markedTable (db.positions.nodup.sublist (List.filter_sublist.map _))
    (fun p mem => Table.find_of_mem (inTable p mem)) k).trans ?_
  cases found : db.positions.find k with
  | none => rfl
  | some p =>
    have mem := Table.mem_of_find found
    by_cases same : p.symbol = S.upper t.symbol
    · simp [mem, same, Position.stored_markedPosition (sound.positions p mem).1]
    · simp [same]

/-- A position as some ticks left it. -/
def Position.Remarked (num : Numeric) (p p' : Position) : Prop :=
  p' = p ∨ ∃ price, p' = p.markedAt num price

namespace Position.Remarked

variable {num : Numeric} {p p' : Position} (h : p.Remarked num p')

include h

theorem symbol : p'.symbol = p.symbol := by
  rcases h with rfl | ⟨r, rfl⟩ <;> rfl

theorem markedAt (price : ℚ) : p'.markedAt num price = p.markedAt num price := by
  rcases h with rfl | ⟨r, rfl⟩ <;> rfl

theorem markedPosition (price : ℚ) :
    OrderManagement.markedPosition price p' = OrderManagement.markedPosition price p := by
  rcases h with rfl | ⟨r, rfl⟩ <;> rfl

end Position.Remarked

/-- The newest tick of its symbol among those that the database takes, and not older than the
stored price. -/
structure Prevails (S : Deployment) (db : Db) (ticks : List Tick) (t : Tick) : Prop where
  mem : t ∈ ticks
  takes : db.Takes S t
  current : db.NotNewer (S.upper t.symbol) t.observedAt
  newest : ∀ u ∈ ticks, S.upper u.symbol = S.upper t.symbol → db.Takes S u →
    u.observedAt ≤ t.observedAt

/-- What ticks leave of a symbol: the price and the marks of the one that prevails, or all
as it was if those that it takes are older than the stored price. -/
inductive Quoted (S : Deployment) (db : Db) (ticks : List Tick) (db' : Db) (s : String) : Prop
  | unchanged
      (outdated : ∀ t ∈ ticks, S.upper t.symbol = s → db.Takes S t → ¬ db.NotNewer s t.observedAt)
      (price : db'.marketPrices.find s = db.marketPrices.find s)
      (marks : ∀ p ∈ db.positions.rows, p.symbol = s → db'.positions.find p.holding = some p)
  | quoted {t : Tick} (prevails : Prevails S db ticks t) (symbol : S.upper t.symbol = s)
      (price : db'.marketPrices.find s = some (t.row S))
      (marks : ∀ p ∈ db.positions.rows, p.symbol = s →
        db'.positions.find p.holding = some (p.markedAt S.num t.price))

structure Ticked (S : Deployment) (db : Db) (ticks : List Tick) (db' : Db) : Prop where
  quoted : ∀ s, Quoted S db ticks db' s
  holdings : ∀ k, db'.positions.find k = none ↔ db.positions.find k = none
  accounts : db'.accounts = db.accounts
  orders : db'.orders = db.orders
  fills : db'.fills = db.fills
  processed : db'.processedBrokerEvents = db.processedBrokerEvents
  events : db'.orderEvents = db.orderEvents

theorem Ticked.nil : Ticked S db [] db where
  quoted s := .unchanged (by simp) rfl fun p mem _ => Table.find_of_mem mem
  holdings _ := Iff.rfl
  accounts := rfl
  orders := rfl
  fills := rfl
  processed := rfl
  events := rfl

section Step

variable (h : Ticked S db ticks db')

include h

theorem Ticked.position {p : Position} (mem : p ∈ db.positions.rows) :
    ∃ p', db'.positions.find p.holding = some p' ∧ p.Remarked S.num p' := by
  cases h.quoted p.symbol with
  | unchanged _ _ marks => exact ⟨p, marks p mem rfl, Or.inl rfl⟩
  | @quoted u _ _ _ marks => exact ⟨_, marks p mem rfl, Or.inr ⟨u.price, rfl⟩⟩

theorem Ticked.origin {p' : Position} (mem : p' ∈ db'.positions.rows) :
    ∃ p ∈ db.positions.rows, p.Remarked S.num p' := by
  have found := Table.find_of_mem mem
  cases was : db.positions.find p'.holding with
  | none => rw [(h.holdings _).2 was] at found; cases found
  | some p =>
    obtain ⟨q, there, remarked⟩ := h.position (Table.mem_of_find was)
    rw [Table.find_key was, found, Option.some_inj] at there
    exact ⟨p, Table.mem_of_find was, there ▸ remarked⟩

/-- Whether the database takes a tick does not depend on the ticks before it. -/
theorem Ticked.takes_iff : db'.Takes S t ↔ db.Takes S t := by
  refine ⟨fun takes => ⟨takes.symbol, takes.fits.row, fun p mem same => ?_⟩,
    fun takes => ⟨takes.symbol, takes.fits.row, fun p' mem same => ?_⟩⟩
  · obtain ⟨p', found, remarked⟩ := h.position mem
    rw [← remarked.markedPosition]
    exact takes.fits.marks p' (Table.mem_of_find found) (remarked.symbol.trans same)
  · obtain ⟨p, was, remarked⟩ := h.origin mem
    rw [remarked.markedPosition]
    exact takes.fits.marks p was (remarked.symbol.symm.trans same)

theorem Ticked.notNewer_iff {s : String} {observedAt : Timestamp} :
    db'.NotNewer s observedAt ↔ db.NotNewer s observedAt ∧
      ∀ u ∈ ticks, S.upper u.symbol = s → db.Takes S u → u.observedAt ≤ observedAt := by
  cases h.quoted s with
  | unchanged outdated price =>
    unfold Db.NotNewer at outdated ⊢
    rw [price]
    refine ⟨fun current => ⟨current, fun u mem same takes => ?_⟩, fun both => both.1⟩
    by_contra newer
    exact outdated u mem same takes fun m held => (current m held).trans (not_le.1 newer).le
  | @quoted v prevails symbol price =>
    unfold Db.NotNewer
    rw [price]
    constructor
    · intro current
      have le : v.observedAt ≤ observedAt := current _ rfl
      refine ⟨fun m held => (prevails.current m (symbol.symm ▸ held)).trans le,
        fun u mem same takes => ?_⟩
      exact (prevails.newest u mem (same.trans symbol.symm) takes).trans le
    · rintro ⟨-, newest⟩ m held
      obtain rfl := Option.some.inj held
      exact newest v prevails.mem symbol prevails.takes

end Step

theorem Prevails.append {u : Tick} (h : Prevails S db ticks u)
    (later : S.upper t.symbol = S.upper u.symbol → db.Takes S t → t.observedAt ≤ u.observedAt) :
    Prevails S db (ticks ++ [t]) u where
  mem := List.mem_append_left _ h.mem
  takes := h.takes
  current := h.current
  newest v mem same takes := by
    rcases List.mem_append.1 mem with before | last
    · exact h.newest v before same takes
    · obtain rfl := List.mem_singleton.1 last
      exact later same takes

theorem Ticked.skip (h : Ticked S db ticks db')
    (skipped : ¬ (db.Takes S t ∧ db'.NotNewer (S.upper t.symbol) t.observedAt)) :
    Ticked S db (ticks ++ [t]) db' where
  quoted s := by
    cases h.quoted s with
    | unchanged outdated price marks =>
      refine .unchanged (fun u mem same takes => ?_) price marks
      rcases List.mem_append.1 mem with before | last
      · exact outdated u before same takes
      · obtain rfl := List.mem_singleton.1 last
        subst same
        unfold Db.NotNewer at skipped ⊢
        rw [price] at skipped
        exact fun notNewer => skipped ⟨takes, notNewer⟩
    | @quoted u prevails symbol price marks =>
      refine .quoted (prevails.append fun same takes => ?_) symbol price marks
      by_contra newer
      refine skipped ⟨takes, fun m held => ?_⟩
      rw [same, symbol, price, Option.mem_def, Option.some_inj] at held
      exact held ▸ (not_le.1 newer).le
  holdings := h.holdings
  accounts := h.accounts
  orders := h.orders
  fills := h.fills
  processed := h.processed
  events := h.events

theorem Ticked.apply (h : Ticked S db ticks db') (sound' : db'.Sound S.num) (takes : db.Takes S t)
    (current : db'.NotNewer (S.upper t.symbol) t.observedAt) :
    Ticked S db (ticks ++ [t]) (db'.ticked S t) where
  quoted s := by
    by_cases own : S.upper t.symbol = s
    · obtain ⟨notNewer, newest⟩ := h.notNewer_iff.1 current
      have prevails : Prevails S db (ticks ++ [t]) t := by
        refine ⟨by simp, takes, notNewer, fun u mem same fits => ?_⟩
        rcases List.mem_append.1 mem with before | last
        · exact newest u before same fits
        · exact (congrArg Tick.observedAt (List.mem_singleton.1 last)).le
      refine .quoted prevails own (Table.find_put_of_eq own) fun p mem same => ?_
      obtain ⟨p', found, remarked⟩ := h.position mem
      rw [find_ticked sound', found, Option.map_some,
        if_pos (remarked.symbol.trans (same.trans own.symm)), remarked.markedAt]
    · have other : (db'.ticked S t).marketPrices.find s = db'.marketPrices.find s :=
        Table.find_put_of_ne own
      have unmarked : ∀ {p p' : Position}, p.symbol = s → p'.symbol = p.symbol →
          db'.positions.find p.holding = some p' →
          (db'.ticked S t).positions.find p.holding = some p' := fun same symbol found => by
        rw [find_ticked sound', found, Option.map_some,
          if_neg fun eq => own (eq.symm.trans (symbol.trans same))]
      cases h.quoted s with
      | unchanged outdated price marks =>
        refine .unchanged (fun u mem same takes => ?_) (other.trans price) fun p mem same =>
          unmarked same rfl (marks p mem same)
        rcases List.mem_append.1 mem with before | last
        · exact outdated u before same takes
        · obtain rfl := List.mem_singleton.1 last
          exact absurd same own
      | @quoted u prevails symbol price marks =>
        exact .quoted (prevails.append fun same _ => absurd (same.trans symbol) own) symbol
          (other.trans price) fun p mem same => unmarked same rfl (marks p mem same)
  holdings k := by rw [find_ticked sound', Option.map_eq_none_iff, h.holdings]
  accounts := h.accounts
  orders := h.orders
  fills := h.fills
  processed := h.processed
  events := h.events

theorem Ticked.step (h : Ticked S db ticks db') (sound' : db'.Sound S.num) (t : Tick) :
    Ticked S db (ticks ++ [t]) (encodedStep S db' t.op) := by
  rcases step_tick sound' t with ⟨takes, current, eq⟩ | ⟨skipped, eq⟩
  · rw [eq]
    exact h.apply sound' (h.takes_iff.1 takes) current
  · rw [eq]
    exact h.skip fun both => skipped ⟨h.takes_iff.2 both.1, both.2⟩

theorem run_ticked (sound : db.Sound S.num) (ticks : List Tick) :
    Ticked S db ticks (run (encodedStep S) db (ticks.map Tick.op)) := by
  induction ticks using List.reverseRecOn with
  | nil => exact .nil
  | append_singleton ticks t ih =>
    rw [List.map_append, run_append]
    exact ih.step (encodedRun_sound sound _) t

theorem Prevails.of_mem_iff {ticks' : List Tick} (h : Prevails S db ticks t)
    (same : ∀ u, u ∈ ticks' ↔ u ∈ ticks) : Prevails S db ticks' t :=
  ⟨(same t).2 h.mem, h.takes, h.current, fun u mem => h.newest u ((same u).1 mem)⟩

theorem Ticked.of_mem_iff {ticks' : List Tick} (h : Ticked S db ticks db')
    (same : ∀ u, u ∈ ticks' ↔ u ∈ ticks) : Ticked S db ticks' db' :=
  { h with
    quoted := fun s => by
      cases h.quoted s with
      | unchanged outdated price marks =>
        exact .unchanged (fun u mem => outdated u ((same u).1 mem)) price marks
      | quoted prevails symbol price marks =>
        exact .quoted (prevails.of_mem_iff same) symbol price marks }

def Untied (S : Deployment) (ticks : List Tick) : Prop :=
  ticks.Pairwise fun t u => S.upper t.symbol = S.upper u.symbol → t.observedAt ≠ u.observedAt

theorem Untied.prevails_unique (untied : Untied S ticks) {u : Tick} (h : Prevails S db ticks t)
    (g : Prevails S db ticks u) (symbol : S.upper t.symbol = S.upper u.symbol) : t = u := by
  have : Std.Symm fun t u : Tick => S.upper t.symbol = S.upper u.symbol →
      t.observedAt ≠ u.observedAt :=
    ⟨fun _ _ apart same => (apart same.symm).symm⟩
  have le := g.newest t h.mem symbol h.takes
  have ge := h.newest u g.mem symbol.symm g.takes
  by_contra differ
  exact untied.forall h.mem g.mem differ symbol (le_antisymm le ge)

theorem Ticked.agree {left right : Db} (untied : Untied S ticks) (h : Ticked S db ticks left)
    (g : Ticked S db ticks right) (s : String) :
    left.marketPrices.find s = right.marketPrices.find s ∧ ∀ p ∈ db.positions.rows, p.symbol = s →
      left.positions.find p.holding = right.positions.find p.holding := by
  cases h.quoted s with
  | unchanged outdated price marks =>
    cases g.quoted s with
    | unchanged _ price' marks' =>
      exact ⟨price.trans price'.symm,
        fun p mem same => (marks p mem same).trans (marks' p mem same).symm⟩
    | quoted prevails symbol =>
      exact absurd (symbol ▸ prevails.current) (outdated _ prevails.mem symbol prevails.takes)
  | quoted prevails symbol price marks =>
    cases g.quoted s with
    | unchanged outdated =>
      exact absurd (symbol ▸ prevails.current) (outdated _ prevails.mem symbol prevails.takes)
    | quoted prevails' symbol' price' marks' =>
      obtain rfl := untied.prevails_unique prevails prevails' (symbol.trans symbol'.symm)
      exact ⟨price.trans price'.symm,
        fun p mem same => (marks p mem same).trans (marks' p mem same).symm⟩

theorem Ticked.agree_positions {left right : Db} (untied : Untied S ticks)
    (h : Ticked S db ticks left) (g : Ticked S db ticks right) (k : UUID × String) :
    left.positions.find k = right.positions.find k := by
  cases was : db.positions.find k with
  | none => rw [(h.holdings k).2 was, (g.holdings k).2 was]
  | some p =>
    rw [← Table.find_key was]
    exact (h.agree untied g p.symbol).2 p (Table.mem_of_find was) rfl

def earlierTick : Tick := ⟨"AAPL", 31, 10⟩

def laterTick : Tick := ⟨"AAPL", 32, 20⟩

def hugeTick : Tick := ⟨"AAPL", 10 ^ 16, 30⟩

end OrderManagement
