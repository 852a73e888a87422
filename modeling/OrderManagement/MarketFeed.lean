import OrderManagement.MalformedRecords
import OrderManagement.TextColumns
import OrderManagement.TickOrder

/-! The market data client from its connection to the store. The loop of `run` reads a message,
applies its ticks one after the other, each in a transaction of its own, and starts anew with
another connection as soon as anything raises. The services work on beside it. -/

namespace OrderManagement

open Program TransitionRuns DecimalNumerals PayloadTicks

/-! A tick as `apply_tick` takes it. -/

def scalar (c : CodePoint) : Option Char :=
  if c.val.isValidChar then some (Char.ofNat c.val) else none

/-- The text as the database takes it: no lone surrogates, no U+0000. -/
def encoded (t : Text) : Option String :=
  (t.mapM scalar).bind fun chars =>
    if NulFree (String.ofList chars) then some (String.ofList chars) else none

/-- A time in the years 1 to 9999, which a `timestamptz` parameter must be. -/
def Encodable (time : Timestamp) : Prop :=
  -62135596800 * 10 ^ 6 ≤ time ∧ time < 253402300800 * 10 ^ 6

instance (time : Timestamp) : Decidable (Encodable time) := inferInstanceAs (Decidable (_ ∧ _))

structure Quote where
  symbol : Text
  price : Dec
  observedAt : Timestamp
  deriving DecidableEq

def instant (clock : Timestamp) : ObservedAt → Timestamp
  | .given moment => moment.micros - moment.utcoffset.getD 0
  | .now => clock

namespace Quote

variable (S : Deployment) (q : Quote)

def name : Option String := (encoded q.symbol).map S.upper

def value : Option ℚ :=
  match q.price with
  | .finite price => if Encodable q.observedAt then some price else none
  | .nan | .infinity _ => none

/-- `apply_tick` with the values of the quote. The symbol is sent with the first query; the price
and the time only if the stored row is to be written. -/
def applyTick (db : Db) : Except Failure Db :=
  match encoded q.symbol with
  | none => .error (.data .marketPriceSymbol)
  | some symbol =>
    match q.value with
    | some price =>
      ((OrderManagement.applyTick S.upper symbol price q.observedAt).run (postgres S.num) db).map
        Prod.snd
    | none =>
      if (db.marketPrices.find (S.upper symbol)).all (·.observedAt ≤ q.observedAt) then
        .error (.data .marketPriceNumber)
      else .ok db

end Quote

/-! The loop. -/

structure Delivered (Message : Type) where
  rawMessage : Message
  clock : ℕ → Timestamp

def quotes {Message : Type} (py : Library) (loads : Message → Except LoadError Json)
    (m : Delivered Message) : Except Raised (List Quote) :=
  (extractTicks py loads m.rawMessage).map fun ticks =>
    ticks.mapIdx fun i t => ⟨t.symbol, t.price, instant (m.clock i) t.observedAt⟩

/-- The database, the connection, and the ticks of the last message that are still to be applied.
`quoted` and `taken` are the history of the ticks read, and of those applied. -/
structure Feed where
  db : Db
  connected : Bool := false
  pending : List Quote := []
  quoted : List Quote := []
  taken : List Quote := []

/-- Transactions of the services, and steps of the client. `lost` is the end of a connection, or
of a transaction that the database does not finish. -/
inductive FeedInput (Message : Type)
  | order (op : Op)
  | connect
  | lost
  | receive (m : Delivered Message)
  | apply

namespace Feed

variable {Message : Type} (S : Deployment) (py : Library)
  (loads : Message → Except LoadError Json)

def receive (m : Delivered Message) (s : Feed) : Feed :=
  if s.connected ∧ s.pending = [] then
    match quotes py loads m with
    | .ok ticks => { s with pending := ticks, quoted := s.quoted ++ ticks }
    | .error _ => { s with connected := false }
  else s

def apply (s : Feed) : Feed :=
  match s.pending with
  | [] => s
  | q :: rest =>
    match q.applyTick S s.db with
    | .ok db => { s with db, pending := rest, taken := s.taken ++ [q] }
    | .error _ => { s with connected := false, pending := [] }

def step (s : Feed) : FeedInput Message → Feed
  | .order op => { s with db := OrderManagement.step S s.db op }
  | .connect => { s with connected := true }
  | .lost => { s with connected := false, pending := [] }
  | .receive m => s.receive py loads m
  | .apply => s.apply S

end Feed

/-! What a tick does to the price rows. -/

section Prices

variable {S : Deployment} {db db' : Db}

theorem applyTick_exact (sound : db.Sound S.num) (t : Tick) :
    (applyTick S.upper t.symbol t.price t.observedAt).wp (postgres S.num)
      (fun _ db' => db.NotNewer (S.upper t.symbol) t.observedAt ∧ db' = db.ticked S t ∨
        (∃ m ∈ db.marketPrices.find (S.upper t.symbol), t.observedAt < m.observedAt) ∧ db' = db)
      (fun _ => ¬ db.FitsTick S t) db := by
  unfold applyTick
  rw [wp_bind]
  refine wp_mono _ (upsertMarketPrice_spec sound) (fun applied db' effect => ?_)
    fun f refused takes => ?_
  · cases effect with
    | outdated held older => exact Or.inr ⟨⟨_, held, older⟩, rfl⟩
    | stored kept newest =>
      exact markSymbol_spec (S.upper t.symbol) sound.positions
        (fun p mem same f refused takes => by
          rw [takes.marks p mem same] at refused
          cases refused)
        fun _ => Or.inl ⟨newest, rfl⟩
  · have fits : (MarketPrice.stored S.num ⟨S.upper t.symbol, t.price, t.observedAt⟩).violation
        S.num = none := takes.row
    rw [fits] at refused
    cases refused

theorem Change.marketPrices {op : Op} (h : Change S db op db')
    (order : ∀ symbol price observedAt, op ≠ .applyTick symbol price observedAt) :
    db'.marketPrices = db.marketPrices := by
  cases h with
  | ticked => exact absurd rfl (order _ _ _)
  | _ => rfl

def Quote.Fits (S : Deployment) (q : Quote) (db : Db) : Prop :=
  ∃ symbol price, encoded q.symbol = some symbol ∧ q.value = some price ∧
    db.FitsTick S ⟨symbol, price, q.observedAt⟩

/-- What a quote that has been taken leaves of the price rows. -/
inductive Quote.Taken (S : Deployment) (q : Quote) (db : Db) : Db → Prop
  | stored {symbol : String} {price : ℚ} (named : q.name S = some symbol)
      (valued : q.value = some price)
      (newest : ∀ m ∈ db.marketPrices.find symbol, m.observedAt ≤ q.observedAt) {db' : Db}
      (prices : db'.marketPrices =
        db.marketPrices.put (MarketPrice.stored S.num ⟨symbol, price, q.observedAt⟩)) :
      q.Taken S db db'
  | outdated {symbol : String} {m : MarketPrice} (named : q.name S = some symbol)
      (held : db.marketPrices.find symbol = some m) (newer : q.observedAt ≤ m.observedAt) :
      q.Taken S db db

theorem Quote.applyTick_ok {q : Quote} (sound : db.Sound S.num) (ran : q.applyTick S db = .ok db') :
    q.Taken S db db' ∧ db'.Sound S.num := by
  unfold Quote.applyTick at ran
  cases readable : encoded q.symbol with
  | none => simp [readable] at ran
  | some symbol =>
    have named : q.name S = some (S.upper symbol) := by simp [Quote.name, readable]
    rw [readable] at ran
    dsimp only at ran
    cases valued : q.value with
    | none =>
      rw [valued] at ran
      dsimp only at ran
      split_ifs at ran with current
      obtain rfl := Except.ok.inj ran
      cases held : db.marketPrices.find (S.upper symbol) with
      | none => simp [held] at current
      | some m =>
        rw [held] at current
        simp only [Option.all_some, decide_eq_true_eq, not_le] at current
        exact ⟨.outdated named held current.le, sound⟩
    | some price =>
      rw [valued] at ran
      dsimp only at ran
      have spec := applyTick_exact sound ⟨symbol, price, q.observedAt⟩
      have kept := step_sound sound (Tick.op ⟨symbol, price, q.observedAt⟩)
      change (committed S.num (OrderManagement.applyTick S.upper symbol price q.observedAt)
        db).Sound _ at kept
      unfold committed at kept
      cases answer : (OrderManagement.applyTick S.upper symbol price q.observedAt).run
          (postgres S.num) db with
      | error f => simp [answer, Except.map] at ran
      | ok result =>
        rw [answer] at ran kept
        obtain rfl := Except.ok.inj ran
        refine ⟨?_, kept⟩
        rcases wp_ok _ spec answer with ⟨newest, eq⟩ | ⟨⟨m, held, newer⟩, eq⟩
        · exact .stored named valued newest (by rw [eq]; rfl)
        · rw [eq]
          exact .outdated named held newer.le

theorem Quote.Fits.applyTick {q : Quote} (fits : q.Fits S db) (sound : db.Sound S.num) :
    ∃ db', q.applyTick S db = .ok db' := by
  obtain ⟨symbol, price, readable, valued, takes⟩ := fits
  unfold Quote.applyTick
  simp only [readable, valued]
  cases answer : (OrderManagement.applyTick S.upper symbol price q.observedAt).run
      (postgres S.num) db with
  | error f =>
    have refused := wp_error _ (applyTick_exact sound ⟨symbol, price, q.observedAt⟩) answer
    exact absurd takes refused
  | ok result => exact ⟨result.2, rfl⟩

structure Priced (S : Deployment) (taken : List Quote) (db : Db) : Prop where
  stored : ∀ symbol, ∀ m ∈ db.marketPrices.find symbol, ∃ q ∈ taken, ∃ price,
    q.name S = some symbol ∧ q.value = some price ∧
      m = MarketPrice.stored S.num ⟨symbol, price, q.observedAt⟩
  newest : ∀ q ∈ taken, ∃ symbol, q.name S = some symbol ∧
    ∃ m ∈ db.marketPrices.find symbol, q.observedAt ≤ m.observedAt

theorem Priced.take {taken : List Quote} {q : Quote} (h : Priced S taken db)
    (took : q.Taken S db db') : Priced S (taken ++ [q]) db' := by
  cases took with
  | outdated named held newer =>
    refine ⟨fun symbol m found => ?_, fun p mem => ?_⟩
    · obtain ⟨p, mem, rest⟩ := h.stored symbol m found
      exact ⟨p, by simp [mem], rest⟩
    · rcases List.mem_append.1 mem with before | last
      · exact h.newest p before
      · obtain rfl := List.mem_singleton.1 last
        exact ⟨_, named, _, held, newer⟩
  | @stored symbol price named valued newest _ prices =>
    have own : db'.marketPrices.find symbol =
        some (MarketPrice.stored S.num ⟨symbol, price, q.observedAt⟩) := by
      rw [prices]
      exact Table.find_put_of_eq rfl
    have other : ∀ {s}, symbol ≠ s →
        db'.marketPrices.find s = db.marketPrices.find s := fun ne => by
      rw [prices]
      exact Table.find_put_of_ne ne
    refine ⟨fun s m found => ?_, fun p mem => ?_⟩
    · by_cases same : symbol = s
      · subst same
        obtain rfl := Option.some.inj (own.symm.trans found)
        exact ⟨q, by simp, price, named, valued, rfl⟩
      · obtain ⟨p, mem, rest⟩ := h.stored s m ((other same).symm.trans found)
        exact ⟨p, by simp [mem], rest⟩
    · rcases List.mem_append.1 mem with before | last
      · obtain ⟨s, named', m, held, newer⟩ := h.newest p before
        refine ⟨s, named', ?_⟩
        by_cases same : symbol = s
        · subst same
          exact ⟨_, own, newer.trans (newest m held)⟩
        · exact ⟨m, (other same).trans held, newer⟩
      · obtain rfl := List.mem_singleton.1 last
        exact ⟨symbol, named, _, own, le_refl _⟩

end Prices

namespace Feed

variable {Message : Type} {S : Deployment} {py : Library}
  {loads : Message → Except LoadError Json} {s : Feed}

/-- The transactions of the services quote no prices. -/
def Serves : FeedInput Message → Prop
  | .order op => ∀ symbol price observedAt, op ≠ .applyTick symbol price observedAt
  | .connect | .lost | .receive _ | .apply => True

/-- Nothing goes wrong for the client: the messages can be read, the ticks fit, and no connection
ends over a tick. -/
def Clean (S : Deployment) (py : Library) (loads : Message → Except LoadError Json) (s : Feed) :
    FeedInput Message → Prop
  | .order _ | .connect => True
  | .lost => s.pending = []
  | .receive m => Deliverable py loads m.rawMessage
  | .apply => ∀ q ∈ s.pending.head?, q.Fits S s.db

structure Reading (S : Deployment) (s : Feed) : Prop where
  sound : s.db.Sound S.num
  priced : Priced S s.taken s.db
  order : (s.taken ++ s.pending).Sublist s.quoted

theorem Reading.step (h : s.Reading S) {input : FeedInput Message} (serves : Serves input) :
    (s.step S py loads input).Reading S := by
  have dropped : ({ s with connected := false, pending := [] } : Feed).Reading S :=
    ⟨h.sound, h.priced, by
      rw [List.append_nil]
      exact (List.sublist_append_left _ _).trans h.order⟩
  cases input with
  | order op =>
    have prices := (step_change S h.sound op).marketPrices serves
    refine ⟨step_sound h.sound op, ⟨fun symbol m found => ?_, fun q mem => ?_⟩, h.order⟩
    · exact h.priced.stored symbol m (by rwa [← prices])
    · obtain ⟨symbol, named, m, held, newer⟩ := h.priced.newest q mem
      exact ⟨symbol, named, m, by rwa [← prices] at held, newer⟩
  | connect => exact ⟨h.sound, h.priced, h.order⟩
  | lost => exact dropped
  | receive m =>
    change (s.receive py loads m).Reading S
    unfold receive
    split_ifs with ready
    · cases quotes py loads m with
      | error e => exact ⟨h.sound, h.priced, h.order⟩
      | ok ticks =>
        refine ⟨h.sound, h.priced, ?_⟩
        have order := h.order
        rw [ready.2, List.append_nil] at order
        exact order.append (List.Sublist.refl ticks)
    · exact h
  | apply =>
    change (s.apply S).Reading S
    unfold apply
    cases pending : s.pending with
    | nil => exact h
    | cons q rest =>
      dsimp only
      cases ran : q.applyTick S s.db with
      | error f => exact dropped
      | ok db =>
        obtain ⟨took, sound⟩ := Quote.applyTick_ok h.sound ran
        have order := h.order
        rw [pending] at order
        exact ⟨sound, h.priced.take took, by simpa using order⟩

theorem Clean.whole {input : FeedInput Message} (clean : s.Clean S py loads input)
    (sound : s.db.Sound S.num) (whole : s.taken ++ s.pending = s.quoted) :
    (s.step S py loads input).taken ++ (s.step S py loads input).pending =
      (s.step S py loads input).quoted := by
  cases input with
  | order op => exact whole
  | connect => exact whole
  | lost =>
    have none_ : s.pending = [] := clean
    change s.taken ++ [] = s.quoted
    rwa [none_] at whole
  | receive m =>
    change (s.receive py loads m).taken ++ (s.receive py loads m).pending =
      (s.receive py loads m).quoted
    unfold receive
    split_ifs with ready
    · obtain ⟨ticks, extracted, -⟩ := (unsuppressed_iff py loads m.rawMessage).2 clean
      unfold quotes
      rw [extracted]
      simp only [Except.map, ← whole, ready.2, List.append_nil]
    · exact whole
  | apply =>
    change (s.apply S).taken ++ (s.apply S).pending = (s.apply S).quoted
    unfold apply
    cases pending : s.pending with
    | nil =>
      dsimp only
      rw [← whole]
    | cons q rest =>
      dsimp only
      have fits : q.Fits S s.db := clean q (by simp [pending])
      obtain ⟨db, ran⟩ := fits.applyTick sound
      rw [ran]
      simpa [pending] using whole

end Feed

section Runs

variable {Message : Type} {S : Deployment} {py : Library} {loads : Message → Except LoadError Json}
  {db₀ : Db}

end Runs

/-! A record without a price that a number could be ends the connection, and the next one goes
on. -/

def priceRecord (price : String) (timestamp : Json) : Json :=
  .dict (quote (.str (text price)) ++ [(text "timestamp", timestamp)])

def delivered (payload : Json) : Delivered Json := ⟨payload, fun _ => 0⟩

def feedInputs : List (FeedInput Json) :=
  [.connect,
    .receive (delivered (.list [priceRecord "10.5" .null, priceRecord "11" .null])), .apply, .apply,
    .receive (delivered (.list [priceRecord "12" .null, .dict (quote (.float .nan))])),
    .receive (delivered (priceRecord "13" .null)), .connect,
    .receive (delivered (priceRecord "9.25" .null)), .apply]

end OrderManagement
