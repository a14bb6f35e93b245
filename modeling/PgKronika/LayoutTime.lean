import PgKronika.ByteCodec

/-! Segment identities: Unix microseconds whose UTC day has a four-digit year; identities of files. -/
namespace PgKronika

def microsPerDay : ℤ := 86400000000

inductive LayoutError
  | segmentIdOutOfRange (value : Int64)
  | malformedDayDirectory (name : String)
  deriving DecidableEq

/-- Filesystem identity of one file. -/
structure FileIdentity where
  device : ℕ
  inode : ℕ
  len : ℕ
  mtimeSeconds : Int64
  mtimeNanoseconds : Int64
  ctimeSeconds : Int64
  ctimeNanoseconds : Int64
  deriving DecidableEq

structure UtcDay where
  year : ℕ
  month : ℕ
  day : ℕ
  deriving DecidableEq

/-- Proleptic Gregorian date of a day count from the Unix epoch. Divisions round
toward zero, as the machine ones do. -/
def civilFromDays (daysSinceEpoch : ℤ) : ℤ × ℕ × ℕ :=
  let shifted := daysSinceEpoch + 719468
  let era := (if 0 ≤ shifted then shifted else shifted - 146096).tdiv 146097
  let dayOfEra := shifted - era*146097
  let yearOfEra :=
    (dayOfEra - dayOfEra.tdiv 1460 + dayOfEra.tdiv 36524 - dayOfEra.tdiv 146096).tdiv 365
  let dayOfYear := dayOfEra - (365*yearOfEra + yearOfEra.tdiv 4 - yearOfEra.tdiv 100)
  let monthPrime := (5*dayOfYear + 2).tdiv 153
  let day := dayOfYear - (153*monthPrime + 2).tdiv 5 + 1
  let month := monthPrime + (if monthPrime < 10 then 3 else -9)
  let year := yearOfEra + era*400 + (if month ≤ 2 then 1 else 0)
  (year,month.toNat,day.toNat)

/-- The UTC day of a raw timestamp, or the refusal of a year outside `0000..=9999`. -/
def utcDayOf (value : Int64) : Except LayoutError UtcDay :=
  let (year,month,day) := civilFromDays (value.toInt / microsPerDay)
  if 0 ≤ year ∧ year ≤ 9999 then .ok ⟨year.toNat,month,day⟩
  else .error (.segmentIdOutOfRange value)

def SegmentIdInRange (value : Int64) : Prop := (utcDayOf value).toOption.isSome = true

instance (value : Int64) : Decidable (SegmentIdInRange value) :=
  inferInstanceAs (Decidable (_ = true))

/-- A timestamp the calendar layout can represent. -/
structure SegmentId where
  value : Int64
  inRange : SegmentIdInRange value
  deriving DecidableEq

theorem segmentIdInRange_zero : SegmentIdInRange 0 := by decide

theorem segmentIdInRange_one : SegmentIdInRange 1 := by decide

theorem segmentIdInRange_two : SegmentIdInRange 2 := by decide

theorem segmentIdInRange_three : SegmentIdInRange 3 := by decide

def SegmentId.new (value : Int64) : Except LayoutError SegmentId :=
  if h : SegmentIdInRange value then .ok ⟨value,h⟩
  else .error (.segmentIdOutOfRange value)

def SegmentId.get (id : SegmentId) : Int64 := id.value

/-- A stored identity is accepted again. -/
@[simp] theorem SegmentId.new_get (id : SegmentId) : SegmentId.new id.get = .ok id :=
  dif_pos id.inRange

theorem SegmentId.get_of_new {value : Int64} {id : SegmentId} (h : SegmentId.new value = .ok id) :
    id.get = value := by
  unfold SegmentId.new at h
  split at h
  · cases h; rfl
  · cases h

end PgKronika
