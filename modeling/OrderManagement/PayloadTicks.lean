import OrderManagement.BinaryFloats
import OrderManagement.DecimalNumerals

/-! What the market data client makes of a message. Every record of the payload gives a tick,
or is skipped, or raises; and one that raises takes the ticks of all the others with it. -/

namespace PayloadTicks

open BinaryFloats DecimalNumerals

structure Double where
  value : ℚ
  isDouble : nearest value = value
  inRange : |value| < 2 ^ 1024

inductive PyFloat
  | nan
  | infinity (negative : Bool)
  | finite (x : Double)

/-- The double nearest to a number. -/
def PyFloat.ofRat (x : ℚ) : PyFloat :=
  if h : |nearest x| < 2 ^ 1024 then .finite ⟨nearest x, nearest_nearest x, h⟩
  else .infinity (x < 0)

/-- What `json.loads` returns. Integers of more than 4300 digits it does not convert. -/
inductive Json
  | null
  | bool (b : Bool)
  | int (n : {n : ℤ // n.natAbs < 10 ^ 4300})
  | float (x : PyFloat)
  | str (t : Text)
  | list (items : List Json)
  | dict (fields : List (Text × Json))

namespace Json

def truthy : Json → Bool
  | null => false
  | bool b => b
  | int n => n.val ≠ 0
  | float (.finite x) => x.value ≠ 0
  | float _ => true
  | str t => !t.isEmpty
  | list items => !items.isEmpty
  | dict fields => !fields.isEmpty

/-- `a or b` -/
def or (a b : Json) : Json := if a.truthy then a else b

def isNone : Json → Bool
  | null => true
  | _ => false

end Json

abbrev Record := List (Text × Json)

def Record.get (record : Record) (key : String) : Json :=
  ((record.find? fun field => field.1 = text key).map Prod.snd).getD .null

/-- A wall clock reading in microseconds, and its offset from UTC unless it is naive. -/
structure Datetime where
  micros : ℤ
  utcoffset : Option ℤ

/-- What the code relies on of strings and dates: `str`, `str.upper`, the digits of scripts, and
`datetime.fromisoformat` with nothing for `ValueError`. -/
structure Library where
  digits : Digits
  str : Json → Text
  upper : Text → Text
  fromisoformat : Text → Option Datetime

/-- An observation time: given by the record, or the reading of the clock in UTC. -/
inductive ObservedAt
  | given (moment : Datetime)
  | now

structure QuotedTick where
  symbol : Text
  price : Dec
  observedAt : ObservedAt

/-- What escapes from `_extract_ticks`. -/
inductive Raised
  | invalidOperation
  | overflow
  | timestampRange
  | loads

def floatOfInt (n : ℤ) : Except Raised PyFloat :=
  match PyFloat.ofRat n with
  | .infinity _ => .error .overflow
  | x => .ok x

def microseconds (x : ℚ) : ℤ :=
  let whole := if 0 ≤ x then ⌊x⌋ else ⌈x⌉
  whole * 10 ^ 6 + halfEven (nearest ((x - whole) * 10 ^ 6))

/-- `datetime.fromtimestamp(x, tz=UTC)` knows the years 1 to 9999. -/
def fromtimestamp : PyFloat → Except Raised Datetime
  | .finite x =>
    if -62135596800 * 10 ^ 6 ≤ microseconds x.value ∧
        microseconds x.value < 253402300800 * 10 ^ 6 then
      .ok ⟨microseconds x.value, some 0⟩
    else .error .timestampRange
  | .nan => .error .timestampRange
  | .infinity _ => .error .overflow

def seconds : PyFloat → PyFloat
  | .finite x => if 10000000000 < x.value then .ofRat (x.value / 1000) else .finite x
  | x => x

def replaceZ (t : Text) : Text :=
  t.flatMap fun c => if c = codePoint 'Z' then text "+00:00" else [c]

section

variable (py : Library)

def ofNumber (timestamp : PyFloat) : Except Raised ObservedAt :=
  (fromtimestamp (seconds timestamp)).map .given

def parseTimestamp : Json → Except Raised ObservedAt
  | .bool b => (floatOfInt b.toNat).bind ofNumber
  | .int n => (floatOfInt n).bind ofNumber
  | .float x => ofNumber x
  | .str t =>
    match py.fromisoformat (replaceZ t) with
    | some parsed =>
      .ok (.given (if parsed.utcoffset.isSome then parsed else { parsed with utcoffset := some 0 }))
    | none => .ok .now
  | _ => .ok .now

/-- `Decimal(str(value))`, with nothing for `InvalidOperation`. A float prints as the shortest
decimal that reads back as it; what else is not a string prints as no numeral. -/
def decimal : Json → Option Dec
  | .int n => some (.finite n.val)
  | .float .nan => some .nan
  | .float (.infinity negative) => some (.infinity negative)
  | .float (.finite x) => some (.finite (shortest x.value))
  | .str t => py.digits.ofText t
  | _ => none

def notPositive : Dec → Except Raised Bool
  | .nan => .error .invalidOperation
  | .infinity negative => .ok negative
  | .finite value => .ok (value ≤ 0)

def symbolField (record : Record) : Json := (record.get "symbol").or (record.get "s")

def priceField (record : Record) : Json :=
  (((record.get "price").or (record.get "ltp")).or (record.get "last_price")).or (record.get "p")

def timestampField (record : Record) : Json := (record.get "timestamp").or (record.get "time")

/-- One round of the loop over the records. -/
def recordTick (record : Record) : Except Raised (Option QuotedTick) :=
  if !(symbolField record).truthy || (priceField record).isNone then .ok none
  else match decimal py (priceField record) with
    | none => .ok none
    | some price => do
      if ← notPositive price then return none
      let observedAt ← parseTimestamp py (timestampField record)
      return some ⟨py.upper (py.str (symbolField record)), price, observedAt⟩

def extend (ticks : List QuotedTick) : List Json → Except Raised (List QuotedTick)
  | [] => .ok ticks
  | .dict record :: rest => do
    match ← recordTick py record with
    | some tick => extend (ticks ++ [tick]) rest
    | none => extend ticks rest
  | _ :: rest => extend ticks rest

def Json.records : Json → List Json
  | .list items => items
  | payload => [payload]

def payloadTicks (payload : Json) : Except Raised (List QuotedTick) :=
  extend py [] payload.records

/-- How `json.loads` may fail. -/
inductive LoadError
  | jsonDecodeError
  | typeError
  | other

variable {Message : Type} (loads : Message → Except LoadError Json)

def extractTicks (rawMessage : Message) : Except Raised (List QuotedTick) :=
  match loads rawMessage with
  | .ok payload => payloadTicks py payload
  | .error .other => .error .loads
  | .error _ => .ok []

end

/-! The numbers that are a time: milliseconds beyond ten digits, seconds up to there. -/

theorem le_microseconds {k : ℤ} {x : ℚ} (h : (k : ℚ) ≤ x) : k * 10 ^ 6 ≤ microseconds x := by
  unfold microseconds
  split
  next nonneg =>
    have whole : k ≤ ⌊x⌋ := Int.le_floor.2 h
    have fraction : 0 ≤ halfEven (nearest ((x - ⌊x⌋) * 10 ^ 6)) := le_halfEven (by
      push_cast
      exact nearest_nonneg (mul_nonneg (sub_nonneg.2 (Int.floor_le x)) (by norm_num)))
    linarith
  next neg =>
    have above := Int.le_ceil x
    have below := Int.ceil_lt_add_one x
    rcases lt_or_ge k ⌈x⌉ with less | more
    · have scaled : ((-10 ^ 6 : ℤ) : ℚ) ≤ nearest ((x - ⌈x⌉) * 10 ^ 6) :=
        le_nearest (nearest_intCast (by norm_num)) (by push_cast; linarith)
      have fraction := le_halfEven scaled
      linarith
    · have whole : x = ⌈x⌉ := by
        have : (⌈x⌉ : ℚ) ≤ k := by exact_mod_cast more
        linarith
      have same : k = ⌈x⌉ := le_antisymm (by rw [whole] at h; exact_mod_cast h) more
      have fraction : halfEven (nearest ((x - ⌈x⌉) * 10 ^ 6)) = 0 := by
        rw [← whole, sub_self, zero_mul, nearest_zero]
        exact halfEven_intCast 0
      change k * 10 ^ 6 ≤ ⌈x⌉ * 10 ^ 6 + halfEven (nearest ((x - ⌈x⌉) * 10 ^ 6))
      rw [fraction, same, add_zero]

theorem microseconds_lt {k : ℤ} {x : ℚ} (h : x ≤ k - 1 / 10 ^ 6) :
    microseconds x < k * 10 ^ 6 := by
  have scaled_le {y : ℚ} {n : ℤ} (short : |n| ≤ 2 ^ 53) (le : y ≤ n) :
      halfEven (nearest y) ≤ n := halfEven_le (nearest_le (nearest_intCast short) le)
  unfold microseconds
  split
  next nonneg =>
    have below := Int.floor_le x
    have above := Int.lt_floor_add_one x
    have whole : ⌊x⌋ < k := Int.floor_lt.2 (by linarith)
    rcases (Int.le_sub_one_of_lt whole).lt_or_eq with less | last
    · have fraction := scaled_le (y := (x - ⌊x⌋) * 10 ^ 6) (n := 10 ^ 6) (by norm_num)
        (by push_cast; linarith)
      linarith
    · have last' : (⌊x⌋ : ℚ) = k - 1 := by exact_mod_cast last
      have fraction := scaled_le (y := (x - ⌊x⌋) * 10 ^ 6) (n := 10 ^ 6 - 1) (by norm_num)
        (by push_cast; linarith)
      linarith
  next neg =>
    have above := Int.le_ceil x
    have whole : ⌈x⌉ ≤ k := Int.ceil_le.2 (by linarith)
    rcases whole.lt_or_eq with less | last
    · have fraction := scaled_le (y := (x - ⌈x⌉) * 10 ^ 6) (n := 0) (by norm_num)
        (by push_cast; linarith)
      linarith
    · have last' : (⌈x⌉ : ℚ) = k := by exact_mod_cast last
      have fraction := scaled_le (y := (x - ⌈x⌉) * 10 ^ 6) (n := -1) (by norm_num)
        (by push_cast; linarith)
      linarith

theorem fromtimestamp_ok_iff {x : Double} :
    (∃ moment, fromtimestamp (.finite x) = .ok moment) ↔
      -62135596800 ≤ x.value ∧ x.value < 253402300800 := by
  have first : -62135596800 * 10 ^ 6 ≤ microseconds x.value ↔ -62135596800 ≤ x.value := by
    constructor
    · refine not_imp_not.1 fun early => ?_
      have early : x.value < -62135596800 := not_le.1 early
      have gap := le_of_double_lt (e := -17) (k := -62135596800 * 2 ^ 17) x.isDouble
        (by rw [abs_of_neg (by linarith)]; norm_num; linarith)
        (by norm_num; exact early)
      exact not_le.2 (microseconds_lt (k := -62135596800) (by norm_num at gap ⊢; linarith))
    · intro late
      exact le_microseconds (k := -62135596800) (by exact_mod_cast late)
  have last : microseconds x.value < 253402300800 * 10 ^ 6 ↔ x.value < 253402300800 := by
    constructor
    · refine not_imp_not.1 fun late => not_lt.2 ?_
      exact le_microseconds (k := 253402300800) (by exact_mod_cast not_lt.1 late)
    · intro early
      have gap : x.value ≤ 253402300800 - 1 / 10 ^ 6 := by
        rcases lt_or_ge |x.value| (2 ^ 37) with small | large
        · have := (abs_lt.1 small).2
          norm_num at this ⊢
          linarith
        · have := le_of_double_lt (e := -15) (k := 253402300800 * 2 ^ 15) x.isDouble
            (by norm_num at large ⊢; exact large) (by norm_num; exact early)
          norm_num at this ⊢
          linarith
      exact microseconds_lt (k := 253402300800) (by exact_mod_cast gap)
  simp only [fromtimestamp, first, last]
  split
  next within => exact ⟨fun _ => within, fun _ => ⟨_, rfl⟩⟩
  next outside => exact ⟨(fun ⟨_, ok⟩ => by cases ok), fun within => absurd within outside⟩

/-- A number that is a time in seconds or milliseconds. -/
def InYears (x : ℚ) : Prop := -62135596800 ≤ x ∧ x < 253402300800000

theorem ofNumber_ok_iff {x : Double} :
    (∃ observedAt, ofNumber (.finite x) = .ok observedAt) ↔ InYears x.value := by
  have mapped (y : PyFloat) :
      (∃ observedAt, (fromtimestamp y).map ObservedAt.given = .ok observedAt) ↔
      ∃ moment, fromtimestamp y = .ok moment := by
    cases fromtimestamp y <;> simp [Except.map]
  unfold ofNumber seconds InYears
  split
  case h_2 other => exact absurd rfl (other x)
  case h_1 y eq =>
  cases eq
  rw [mapped]
  split
  next millis =>
    have scaled : nearest (x.value / 1000) ≤ x.value := nearest_le x.isDouble (by linarith)
    have positive : 0 ≤ nearest (x.value / 1000) := nearest_nonneg (by linarith)
    have small : |nearest (x.value / 1000)| < 2 ^ 1024 := by
      rw [abs_of_nonneg positive]
      exact scaled.trans_lt ((le_abs_self _).trans_lt x.inRange)
    have rounded : PyFloat.ofRat (x.value / 1000) = .finite ⟨_, nearest_nearest _, small⟩ :=
      dif_pos small
    rw [rounded, fromtimestamp_ok_iff]
    refine ⟨fun within => ⟨by linarith, ?_⟩, fun within => ⟨by linarith, ?_⟩⟩
    · by_contra late
      have bound : ((253402300800 : ℤ) : ℚ) ≤ nearest (x.value / 1000) :=
        le_nearest (nearest_intCast (by norm_num)) (by push_cast; linarith)
      push_cast at bound
      linarith [within.2]
    · -- The last double before the year 10000.
      have last : nearest ((253402300800 * 2 ^ 15 - 1 : ℤ) * 2 ^ (-15 : ℤ)) =
          (253402300800 * 2 ^ 15 - 1 : ℤ) * 2 ^ (-15 : ℤ) :=
        nearest_steps (by norm_num) (by norm_num)
      have gap : x.value ≤ 253402300800000 - 1 / 32 := by
        rcases lt_or_ge |x.value| (2 ^ 47) with less | large
        · have := (abs_lt.1 less).2
          norm_num at this ⊢
          linarith
        · have := le_of_double_lt (e := -5) (k := 253402300800000 * 2 ^ 5) x.isDouble
            (by norm_num at large ⊢; exact large) (by norm_num; exact within.2)
          norm_num at this ⊢
          linarith
      have below := nearest_le last (x := x.value / 1000) (by norm_num; linarith)
      refine below.trans_lt ?_
      norm_num
  next plain =>
    rw [fromtimestamp_ok_iff]
    refine ⟨fun within => ⟨within.1, ?_⟩, fun within => ⟨within.1, ?_⟩⟩ <;> linarith

/-- The timestamps that `_parse_timestamp` takes. -/
def Datable : Json → Prop
  | .int n => InYears n.val
  | .float (.finite x) => InYears x.value
  | .float _ => False
  | _ => True

theorem le_nearest_intCast_iff {k n : ℤ} (short : |k| < 2 ^ 53) :
    (k : ℚ) ≤ nearest n ↔ k ≤ n := by
  constructor
  · intro above
    by_contra less
    have below : nearest n ≤ ((k - 1 : ℤ) : ℚ) :=
      nearest_le (nearest_intCast (by rw [abs_lt] at short; rw [abs_le]; omega)) (by
        exact_mod_cast Int.le_sub_one_of_lt (not_le.1 less))
    push_cast at below
    linarith
  · intro h
    exact le_nearest (nearest_intCast short.le) (by exact_mod_cast h)

theorem inYears_nearest {n : ℤ} : InYears (nearest n) ↔ InYears n := by
  have first := le_nearest_intCast_iff (k := -62135596800) (n := n) (by norm_num)
  have last := le_nearest_intCast_iff (k := 253402300800000) (n := n) (by norm_num)
  have first' : (-62135596800 : ℚ) ≤ n ↔ -62135596800 ≤ n := by exact_mod_cast Iff.rfl
  have last' : (253402300800000 : ℚ) ≤ n ↔ 253402300800000 ≤ n := by exact_mod_cast Iff.rfl
  push_cast at first last
  unfold InYears
  rw [first, first', ← not_le, ← not_le, last, last']

theorem ofInt_ok_iff {n : ℤ} :
    (∃ observedAt, (floatOfInt n).bind ofNumber = .ok observedAt) ↔ InYears n := by
  unfold floatOfInt PyFloat.ofRat
  by_cases small : |nearest (n : ℚ)| < 2 ^ 1024
  · rw [dif_pos small, ← inYears_nearest]
    exact ofNumber_ok_iff (x := ⟨_, nearest_nearest _, small⟩)
  · rw [dif_neg small, ← inYears_nearest]
    refine ⟨(fun ⟨_, ok⟩ => by cases ok), fun within => absurd ?_ small⟩
    refine (abs_le.2 ⟨?_, ?_⟩ : |nearest (n : ℚ)| ≤ 2 ^ 100).trans_lt
      (pow_lt_pow_right₀ (by norm_num) (by norm_num))
    · linarith [within.1]
    · linarith [within.2]

variable {py : Library}

theorem parseTimestamp_ok_iff {value : Json} :
    (∃ observedAt, parseTimestamp py value = .ok observedAt) ↔ Datable value := by
  cases value with
  | null => exact ⟨fun _ => trivial, fun _ => ⟨_, rfl⟩⟩
  | bool b =>
    refine ⟨fun _ => trivial, fun _ => ofInt_ok_iff.2 ?_⟩
    cases b <;> norm_num [InYears]
  | int n => exact ofInt_ok_iff
  | float x =>
    cases x with
    | nan => exact ⟨(fun ⟨_, ok⟩ => by cases ok), False.elim⟩
    | infinity negative => exact ⟨(fun ⟨_, ok⟩ => by cases ok), False.elim⟩
    | finite x => exact ofNumber_ok_iff
  | str t =>
    refine ⟨fun _ => trivial, fun _ => ?_⟩
    cases read : py.fromisoformat (replaceZ t) with
    | none => simp [parseTimestamp, read]
    | some parsed => simp [parseTimestamp, read]
  | list items => exact ⟨fun _ => trivial, fun _ => ⟨_, rfl⟩⟩
  | dict fields => exact ⟨fun _ => trivial, fun _ => ⟨_, rfl⟩⟩

def ObservedAt.Aware : ObservedAt → Prop
  | given moment => moment.utcoffset.isSome
  | now => True

theorem ofNumber_aware {timestamp : PyFloat} {observedAt : ObservedAt}
    (h : ofNumber timestamp = .ok observedAt) : observedAt.Aware := by
  unfold ofNumber at h
  cases read : fromtimestamp (seconds timestamp) with
  | error e => simp [read, Except.map] at h
  | ok moment =>
    simp only [read, Except.map, Except.ok.injEq] at h
    subst h
    unfold fromtimestamp at read
    split at read
    · split at read
      · cases read
        rfl
      · cases read
    · cases read
    · cases read

theorem parseTimestamp_aware {value : Json} {observedAt : ObservedAt}
    (h : parseTimestamp py value = .ok observedAt) : observedAt.Aware := by
  have ofInt {n : ℤ} (read : (floatOfInt n).bind ofNumber = .ok observedAt) :
      observedAt.Aware := by
    cases float : floatOfInt n with
    | error e => simp [float, Except.bind] at read
    | ok x => exact ofNumber_aware (by simpa [float, Except.bind] using read)
  unfold parseTimestamp at h
  split at h
  case h_1 => exact ofInt h
  case h_2 => exact ofInt h
  case h_3 => exact ofNumber_aware h
  case h_4 =>
    split at h
    next parsed read =>
      cases h
      change (if parsed.utcoffset.isSome then parsed else _).utcoffset.isSome
      split
      · assumption
      · rfl
    next => cases h; exact trivial
  case h_5 => cases h; exact trivial

end PayloadTicks
