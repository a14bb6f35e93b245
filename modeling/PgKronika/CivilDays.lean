import PgKronika.GregorianCalendar
import PgKronika.LayoutTime

/-! Segment identities and the UTC days they are filed under: the conversion of a day count is the
Gregorian calendar, and none of its steps leaves the machine's range. -/
namespace PgKronika

open GregorianCalendar

def isLeapYear (year : ℕ) : Bool := year%4 = 0 && (year%100 ≠ 0 || year%400 = 0)

def daysInMonth (year month : ℕ) : ℕ :=
  if month ∈ [1,3,5,7,8,10,12] then 31
  else if month ∈ [4,6,9,11] then 30
  else if month = 2 then if isLeapYear year then 29 else 28
  else 0

/-- Decimal digits, padded to a width. -/
def zeroPadded (width n : ℕ) : String :=
  String.ofList (List.replicate (width - (Nat.toDigits 10 n).length) '0' ++ Nat.toDigits 10 n)

def UtcDay.new (year month day : ℕ) : Except LayoutError UtcDay :=
  if 9999 < year ∨ month < 1 ∨ 12 < month ∨ day = 0 ∨ daysInMonth year month < day then
    .error (.malformedDayDirectory
      (zeroPadded 4 year ++ "/" ++ zeroPadded 2 month ++ "/" ++ zeroPadded 2 day))
  else .ok ⟨year,month,day⟩

def SegmentId.utcDay (id : SegmentId) : Except LayoutError UtcDay := utcDayOf id.get

/-- The order of the fields: year, then month, then day. -/
def UtcDay.le (a b : UtcDay) : Prop :=
  a.year < b.year ∨ a.year = b.year ∧ (a.month < b.month ∨ a.month = b.month ∧ a.day ≤ b.day)

/-- The result of one 64-bit operation; nothing when it overflows. -/
def i64Value (x : ℤ) : Option ℤ := if -2^63 ≤ x ∧ x < 2^63 then some x else none

def u8Value (x : ℤ) : Option ℕ := if 0 ≤ x ∧ x < 2^8 then some x.toNat else none

-- The conversion step by step, in 64-bit integers. Divisions by positive constants stay in range.

def eraChecked (shifted : ℤ) : Option ℤ :=
  (if 0 ≤ shifted then some shifted else i64Value (shifted - 146096)).map (·.tdiv 146097)

def yearOfEraChecked (dayOfEra : ℤ) : Option ℤ :=
  (i64Value (dayOfEra - dayOfEra.tdiv 1460)).bind fun lessQuads =>
  (i64Value (lessQuads + dayOfEra.tdiv 36524)).bind fun moreCenturies =>
  (i64Value (moreCenturies - dayOfEra.tdiv 146096)).map (·.tdiv 365)

def dayOfYearChecked (dayOfEra yearOfEra : ℤ) : Option ℤ :=
  (i64Value (365*yearOfEra)).bind fun yearDays =>
  (i64Value (yearDays + yearOfEra.tdiv 4)).bind fun withLeaps =>
  (i64Value (withLeaps - yearOfEra.tdiv 100)).bind fun beforeYear =>
  i64Value (dayOfEra - beforeYear)

def monthPrimeChecked (dayOfYear : ℤ) : Option ℤ :=
  (i64Value (5*dayOfYear)).bind fun fiveDays =>
  (i64Value (fiveDays + 2)).map (·.tdiv 153)

def dayChecked (dayOfYear monthPrime : ℤ) : Option ℤ :=
  (i64Value (153*monthPrime)).bind fun monthDays =>
  (i64Value (monthDays + 2)).bind fun scaled =>
  (i64Value (dayOfYear - scaled.tdiv 5)).bind fun index =>
  i64Value (index + 1)

def civilFromDaysChecked (daysSinceEpoch : ℤ) : Option (ℤ × ℕ × ℕ) :=
  (i64Value (daysSinceEpoch + 719468)).bind fun shifted =>
  (eraChecked shifted).bind fun era =>
  (i64Value (era*146097)).bind fun eraDays =>
  (i64Value (shifted - eraDays)).bind fun dayOfEra =>
  (yearOfEraChecked dayOfEra).bind fun yearOfEra =>
  (i64Value (era*400)).bind fun eraYears =>
  (i64Value (yearOfEra + eraYears)).bind fun year =>
  (dayOfYearChecked dayOfEra yearOfEra).bind fun dayOfYear =>
  (monthPrimeChecked dayOfYear).bind fun monthPrime =>
  (dayChecked dayOfYear monthPrime).bind fun day =>
  (i64Value (monthPrime + (if monthPrime < 10 then 3 else -9))).bind fun month =>
  (if month ≤ 2 then i64Value (year + 1) else some year).bind fun year =>
  (u8Value month).bind fun month =>
  (u8Value day).map fun day => (year,month,day)

/-- A day of an era of 400 years: its century, its four years, its year and its day there. -/
structure EraDay (dayOfEra century quad year day : ℤ) : Prop where
  eq : dayOfEra = 36524*century+1461*quad+365*year+day
  century_nonneg : 0 ≤ century
  century_le : century ≤ 3
  quad_nonneg : 0 ≤ quad
  quad_le : quad ≤ 24
  year_nonneg : 0 ≤ year
  year_le : year ≤ 3
  day_nonneg : 0 ≤ day
  day_le : day ≤ 364 ∨ day = 365 ∧ year = 3 ∧ (quad < 24 ∨ century = 3)

theorem EraDay.exists {dayOfEra : ℤ} (h : 0 ≤ dayOfEra) (h' : dayOfEra < 146097) :
    ∃ century quad year day, EraDay dayOfEra century quad year day := by
  obtain ⟨c,hc⟩ : ∃ c, c = if dayOfEra/36524 ≤ 3 then dayOfEra/36524 else 3 := ⟨_,rfl⟩
  obtain ⟨q,hq⟩ : ∃ q, q = (dayOfEra-36524*c)/1461 := ⟨_,rfl⟩
  obtain ⟨y,hy⟩ : ∃ y, y = if (dayOfEra-36524*c-1461*q)/365 ≤ 3 then
      (dayOfEra-36524*c-1461*q)/365 else 3 := ⟨_,rfl⟩
  refine ⟨c,q,y,dayOfEra-36524*c-1461*q-365*y,by omega,?_,?_,?_,?_,?_,?_,?_,?_⟩ <;>
    split_ifs at hc hy <;> omega

section Era

variable {doe c q y t : ℤ}

/-- The estimate of the year is exact: each leap day it takes off comes at a boundary. -/
theorem EraDay.yearOfEra (h : EraDay doe c q y t) :
    (doe - doe/1460 + doe/36524 - doe/146096)/365 = 100*c+4*q+y := by
  obtain ⟨hd,hc,hc',hq,hq',hy,hy',ht,hday⟩ := h
  have h1 : doe/1460 = 25*c+q + (if 1460 ≤ 24*c+q+365*y+t then 1 else 0) := by
    split_ifs <;> omega
  have h2 : doe/36524 = c + (if 36524 ≤ 1461*q+365*y+t then 1 else 0) := by
    split_ifs <;> omega
  have h3 : doe/146096 = if doe = 146096 then 1 else 0 := by
    split_ifs <;> omega
  rw [h1,h2,h3]
  split_ifs <;> omega

end Era

/-- The era that a shifted day falls in is rounded down. -/
theorem era_eq (shifted : ℤ) :
    (if 0 ≤ shifted then shifted else shifted - 146096).tdiv 146097 = shifted/146097 := by
  split_ifs with h
  · exact Int.tdiv_eq_ediv_of_nonneg h
  · have hneg : (shifted - 146096).tdiv 146097 = -((146096 - shifted).tdiv 146097) := by
      rw [← Int.neg_tdiv,neg_sub]
    rw [hneg,Int.tdiv_eq_ediv_of_nonneg (by omega)]
    omega

theorem yearStart_era {c q y : ℤ} (hc : 0 ≤ c) (hc' : c ≤ 3) (hq : 0 ≤ q) (hq' : q ≤ 24)
    (hy : 0 ≤ y) (hy' : y ≤ 3) (era : ℤ) :
    yearStart (100*c+4*q+y+era*400) = 36524*c+1461*q+365*y+146097*era := by
  have h4 : (100*c+4*q+y+era*400)/4 = 25*c+q+100*era := by omega
  have h100 : (100*c+4*q+y+era*400)/100 = c+4*era := by omega
  have h400 : (100*c+4*q+y+era*400)/400 = era := by omega
  rw [yearStart,h4,h100,h400]
  ring

theorem yearOfEra_tdiv {doe : ℤ} (h : 0 ≤ doe) :
    (doe - doe.tdiv 1460 + doe.tdiv 36524 - doe.tdiv 146096).tdiv 365 =
      (doe - doe/1460 + doe/36524 - doe/146096)/365 := by
  simp only [Int.tdiv_eq_ediv_of_nonneg h]
  exact Int.tdiv_eq_ediv_of_nonneg (by omega)

theorem dayOfYear_tdiv {c q y doe t : ℤ} (h : EraDay doe c q y t) :
    doe - (365*(100*c+4*q+y) + (100*c+4*q+y).tdiv 4 - (100*c+4*q+y).tdiv 100) = t := by
  obtain ⟨hd,hc,-,hq,hq',hy,hy',-,-⟩ := h
  simp only [Int.tdiv_eq_ediv_of_nonneg (show 0 ≤ 100*c+4*q+y by omega)]
  omega

theorem EraDay.day_lt {c q y doe t : ℤ} (h : EraDay doe c q y t) : t < 366 := by
  rcases h.day_le with hday | ⟨hday,-⟩ <;> omega

def civilDate (civil : ℤ × ℕ × ℕ) : Date := ⟨civil.1,civil.2.1,civil.2.2⟩

section Civil

variable {n c q y t : ℤ}

/-- The conversion in the terms of an era day. -/
theorem civilFromDays_eq (h : EraDay ((n+719468)%146097) c q y t) :
    civilFromDays n =
      (100*c+4*q+y + (n+719468)/146097*400 + (if (5*t+2)/153 < 10 then 0 else 1),
        ((5*t+2)/153 + (if (5*t+2)/153 < 10 then 3 else -9)).toNat,
        (t - (153*((5*t+2)/153)+2)/5 + 1).toNat) := by
  have ht := h.day_nonneg
  unfold civilFromDays
  extract_lets shifted era dayOfEra yearOfEra dayOfYear monthPrime day month year
  have hera : era = (n+719468)/146097 := era_eq _
  have hdoe : dayOfEra = (n+719468)%146097 := by
    rw [show dayOfEra = n+719468 - era*146097 from rfl,hera,Int.emod_def,mul_comm]
  have hyoe : yearOfEra = 100*c+4*q+y := by
    rw [← h.yearOfEra,← hdoe]
    exact yearOfEra_tdiv (hdoe ▸ Int.emod_nonneg _ (by decide))
  have hdoy : dayOfYear = t := by
    rw [← dayOfYear_tdiv h,← hdoe,← hyoe]
  have hprime : monthPrime = (5*t+2)/153 := by
    rw [← hdoy] at ht ⊢
    exact Int.tdiv_eq_ediv_of_nonneg (by positivity)
  have hnonneg : 0 ≤ (5*t+2)/153 := Int.ediv_nonneg (by positivity) (by decide)
  have hdays : day = t - (153*((5*t+2)/153)+2)/5 + 1 := by
    rw [show day = dayOfYear - (153*monthPrime+2).tdiv 5 + 1 from rfl,hdoy,hprime,
      Int.tdiv_eq_ediv_of_nonneg (by positivity)]
  have hmonth : month = (5*t+2)/153 + (if (5*t+2)/153 < 10 then 3 else -9) := by
    rw [show month = monthPrime + (if monthPrime < 10 then 3 else -9) from rfl,hprime]
  have hyear : year = 100*c+4*q+y + (n+719468)/146097*400 +
      (if (5*t+2)/153 < 10 then 0 else 1) := by
    rw [show year = yearOfEra + era*400 + (if month ≤ 2 then 1 else 0) from rfl,hyoe,hera,hmonth]
    have hlt := h.day_lt
    congr 1
    clear * - hlt ht
    split_ifs <;> omega
  rw [hyear,hmonth,hdays]

/-- The date that the conversion finds is valid and has the number of the day. -/
theorem civilFromDays_date (n : ℤ) : (civilDate (civilFromDays n)).Valid ∧
    (civilDate (civilFromDays n)).number = n+719468 := by
  obtain ⟨c,q,y,t,h⟩ := EraDay.exists (Int.emod_nonneg (n+719468) (by decide))
    (Int.emod_lt_of_pos (n+719468) (show 0 < 146097 by decide))
  rw [civilFromDays_eq h]
  have hsplit := Int.emod_add_mul_ediv (n+719468) 146097
  have hlt := h.day_lt
  obtain ⟨hd,hc,hc',hq,hq',hy,hy',ht,hday⟩ := h
  rw [hd] at hsplit
  generalize (n+719468)/146097 = era at hsplit ⊢
  obtain ⟨mp,hmp⟩ : ∃ mp, (5*t+2)/153 = mp := ⟨_,rfl⟩
  have hmp0 : 0 ≤ mp := by omega
  have hmp11 : mp ≤ 11 := by omega
  rw [hmp]
  constructor
  · have hleap : t = 365 → Leap (100*c+4*q+y+era*400+1) := by
      clear hsplit hd hmp
      unfold Leap
      omega
    clear hsplit hd
    constructor
    · simp only [civilDate]
      split_ifs <;> omega
    · simp only [civilDate]
      split_ifs <;> omega
    · simp only [civilDate]
      omega
    · simp only [civilDate]
      interval_cases mp <;> simp [monthLength] <;> (try split_ifs) <;> (try simp_all) <;> omega
  · rw [Date.number,show Date.marchYear _ = 100*c+4*q+y+era*400 by
        simp only [civilDate,Date.marchYear]
        clear hsplit hd hday
        split_ifs <;> omega,
      yearStart_era hc hc' hq hq' hy hy',show Date.marchDay _ = t by
        simp only [civilDate,Date.marchDay,Date.marchMonth]
        clear hsplit hd hday
        interval_cases mp <;> simp <;> omega]
    omega

/-- The day counts of all 64-bit timestamps. -/
def DayCount (n : ℤ) : Prop := -106751992 ≤ n ∧ n ≤ 106751991

theorem dayCount_of_timestamp (value : Int64) : DayCount (value.toInt/microsPerDay) := by
  have hlo := value.minValue_le_toInt
  have hhi := value.toInt_lt
  rw [show Int64.minValue.toInt = -2^63 from rfl] at hlo
  rw [microsPerDay,DayCount]
  omega

theorem i64Value_of {x : ℤ} (h : -2^63 ≤ x ∧ x < 2^63) : i64Value x = some x := if_pos h

theorem u8Value_of {x : ℤ} (h : 0 ≤ x ∧ x < 2^8) : u8Value x = some x.toNat := if_pos h

theorem eraChecked_eq {shifted : ℤ} (h : -2^62 ≤ shifted) :
    eraChecked shifted = some (shifted/146097) := by
  rw [← era_eq,eraChecked]
  split_ifs
  · rfl
  · rw [i64Value_of (by omega)]
    rfl

theorem EraDay.bounds {doe : ℤ} (h : EraDay doe c q y t) : 0 ≤ doe ∧ doe < 146097 := by
  obtain ⟨hd,hc,hc',hq,hq',hy,hy',ht,hday⟩ := h
  omega

theorem EraDay.yearOfEraChecked_eq {doe : ℤ} (h : EraDay doe c q y t) :
    yearOfEraChecked doe = some (100*c+4*q+y) := by
  obtain ⟨hpos,hlt⟩ := h.bounds
  have hyear := yearOfEra_tdiv hpos
  rw [h.yearOfEra] at hyear
  rw [← hyear,yearOfEraChecked]
  simp only [Int.tdiv_eq_ediv_of_nonneg hpos]
  rw [i64Value_of (by omega),Option.bind_some,i64Value_of (by omega),Option.bind_some,
    i64Value_of (by omega),Option.map_some]

theorem EraDay.dayOfYearChecked_eq {doe : ℤ} (h : EraDay doe c q y t) :
    dayOfYearChecked doe (100*c+4*q+y) = some t := by
  have hday := dayOfYear_tdiv h
  have hlt := h.day_lt
  obtain ⟨hd,hc,hc',hq,hq',hy,hy',ht,-⟩ := h
  rw [dayOfYearChecked]
  simp only [Int.tdiv_eq_ediv_of_nonneg (show 0 ≤ 100*c+4*q+y by omega)] at hday ⊢
  rw [i64Value_of (by omega),Option.bind_some,i64Value_of (by omega),Option.bind_some,
    i64Value_of (by omega),Option.bind_some,hday,i64Value_of (by omega)]

theorem monthPrimeChecked_eq (ht : 0 ≤ t) (hlt : t < 366) :
    monthPrimeChecked t = some ((5*t+2)/153) := by
  rw [monthPrimeChecked,i64Value_of (by omega),Option.bind_some,i64Value_of (by omega),
    Option.map_some,Int.tdiv_eq_ediv_of_nonneg (by omega)]

theorem dayChecked_eq (ht : 0 ≤ t) (hlt : t < 366) :
    dayChecked t ((5*t+2)/153) = some (t - (153*((5*t+2)/153)+2)/5 + 1) := by
  rw [dayChecked,i64Value_of (by omega),Option.bind_some,i64Value_of (by omega),Option.bind_some,
    Int.tdiv_eq_ediv_of_nonneg (by omega),i64Value_of (by omega),Option.bind_some,
    i64Value_of (by omega)]

/-- No step of the conversion overflows. -/
theorem civilFromDaysChecked_eq (hn : DayCount n) :
    civilFromDaysChecked n = some (civilFromDays n) := by
  obtain ⟨hlo,hhi⟩ := hn
  obtain ⟨c,q,y,t,h⟩ := EraDay.exists (Int.emod_nonneg (n+719468) (by decide))
    (Int.emod_lt_of_pos (n+719468) (show 0 < 146097 by decide))
  have hlt := h.day_lt
  have ht := h.day_nonneg
  have hera : n+719468 - (n+719468)/146097*146097 = (n+719468)%146097 := by omega
  have hyoe : 0 ≤ 100*c+4*q+y ∧ 100*c+4*q+y < 400 := by
    obtain ⟨-,hc,hc',hq,hq',hy,hy',-,-⟩ := h
    omega
  rw [civilFromDays_eq h,civilFromDaysChecked,i64Value_of (by omega),Option.bind_some,
    eraChecked_eq (by omega),Option.bind_some,i64Value_of (by omega),Option.bind_some,hera,
    i64Value_of (by omega),Option.bind_some,h.yearOfEraChecked_eq,Option.bind_some,
    i64Value_of (by omega),Option.bind_some,i64Value_of (by omega),Option.bind_some,
    h.dayOfYearChecked_eq,Option.bind_some,monthPrimeChecked_eq ht hlt,Option.bind_some,
    dayChecked_eq ht hlt,Option.bind_some]
  have hmonth : 1 ≤ (5*t+2)/153 + (if (5*t+2)/153 < 10 then 3 else -9) ∧
      (5*t+2)/153 + (if (5*t+2)/153 < 10 then 3 else -9) ≤ 12 := by
    split_ifs <;> omega
  have hleap : (5*t+2)/153 + (if (5*t+2)/153 < 10 then 3 else -9) ≤ 2 ↔ ¬(5*t+2)/153 < 10 := by
    split_ifs <;> omega
  rw [i64Value_of (by omega),Option.bind_some]
  by_cases hlate : (5*t+2)/153 < 10
  · rw [if_neg (by rw [hleap]; simpa using hlate),Option.bind_some,u8Value_of (by omega),
      Option.bind_some,u8Value_of (by omega),Option.map_some,if_pos hlate,if_pos hlate,add_zero]
  · rw [if_pos (hleap.mpr hlate),i64Value_of (by omega),Option.bind_some,u8Value_of (by omega),
      Option.bind_some,u8Value_of (by omega),Option.map_some,if_neg hlate,if_neg hlate]

end Civil

section Days

/-- The date that the conversion gives to a day. -/
def civilDay (n : ℤ) : Date := civilDate (civilFromDays n)

def unixEpoch : Date := ⟨1970,1,1⟩

theorem unixEpoch_number : unixEpoch.number = 719468 := by decide

/-- The conversion is the Gregorian calendar. -/
theorem civilDay_calendar : IsCalendar unixEpoch civilDay :=
  .of_number (fun n => (civilFromDays_date n).1)
    (fun n => by rw [unixEpoch_number,add_comm]; exact (civilFromDays_date n).2)
    ⟨by decide,by decide,by decide,by decide⟩

def UtcDay.date (day : UtcDay) : Date := ⟨day.year,day.month,day.day⟩

/-- The years of the layout. -/
def LayoutYear (year : ℤ) : Prop := 0 ≤ year ∧ year ≤ 9999

instance (year : ℤ) : Decidable (LayoutYear year) := inferInstanceAs (Decidable (_ ∧ _))

theorem utcDayOf_ok {value : Int64} {day : UtcDay} :
    utcDayOf value = .ok day ↔
      LayoutYear (civilDay (value.toInt/microsPerDay)).year ∧
        day.date = civilDay (value.toInt/microsPerDay) := by
  change (if LayoutYear (civilDay (value.toInt/microsPerDay)).year then
    Except.ok (UtcDay.mk (civilDay (value.toInt/microsPerDay)).year.toNat
      (civilDay (value.toInt/microsPerDay)).month (civilDay (value.toInt/microsPerDay)).day)
    else _) = _ ↔ _
  generalize civilDay (value.toInt/microsPerDay) = date
  obtain ⟨year,month,number⟩ := date
  obtain ⟨year',month',number'⟩ := day
  by_cases hyear : LayoutYear year
  · have hpos : 0 ≤ year := hyear.1
    rw [if_pos hyear,Except.ok.injEq,UtcDay.mk.injEq,UtcDay.date,Date.mk.injEq]
    dsimp only
    refine ⟨fun ⟨hy,hm,hd⟩ => ⟨hyear,by omega,hm.symm,hd.symm⟩,
      fun ⟨_,hy,hm,hd⟩ => ⟨by omega,hm.symm,hd.symm⟩⟩
  · rw [if_neg hyear]
    exact iff_of_false (fun h => by cases h) fun h => hyear h.1

theorem utcDayOf_of_layoutYear {value : Int64}
    (h : LayoutYear (civilDay (value.toInt/microsPerDay)).year) : ∃ day, utcDayOf value = .ok day := by
  refine ⟨⟨(civilDay (value.toInt/microsPerDay)).year.toNat,
    (civilDay (value.toInt/microsPerDay)).month,(civilDay (value.toInt/microsPerDay)).day⟩,
    utcDayOf_ok.mpr ⟨h,?_⟩⟩
  rw [UtcDay.date,Int.toNat_of_nonneg h.1]

theorem monthLength_daysInMonth (year : ℕ) {month : ℕ} (hpos : 1 ≤ month) (hle : month ≤ 12) :
    monthLength year month = daysInMonth year month := by
  have hleap : Leap year ↔ isLeapYear year = true := by
    simp only [Leap,isLeapYear,Bool.and_eq_true,Bool.or_eq_true,decide_eq_true_eq]
    omega
  interval_cases month <;> simp [monthLength,daysInMonth,hleap]

theorem UtcDay.new_ok {day : UtcDay} :
    UtcDay.new day.year day.month day.day = .ok day ↔ day.year ≤ 9999 ∧ day.date.Valid := by
  rw [UtcDay.new]
  split_ifs with h
  · refine iff_of_false (fun h => by cases h) fun ⟨hyear,hpos,hle,hday,hlen⟩ => ?_
    dsimp only [date] at hpos hle hday hlen
    rw [monthLength_daysInMonth _ hpos hle] at hlen
    omega
  · refine iff_of_true rfl ⟨by omega,⟨by dsimp only [date]; omega,by dsimp only [date]; omega,
      by dsimp only [date]; omega,?_⟩⟩
    dsimp only [date]
    rw [monthLength_daysInMonth _ (by omega) (by omega)]
    omega

theorem UtcDay.number_bounds {day : UtcDay} (hyear : day.year ≤ 9999) (hvalid : day.date.Valid) :
    -366 ≤ day.date.number ∧ day.date.number < 3652425 := by
  obtain ⟨hfrom,hto⟩ := hvalid.number_lt
  have hmarch : -1 ≤ day.date.marchYear ∧ day.date.marchYear ≤ 9999 := by
    rw [Date.marchYear,date]
    dsimp only
    split_ifs <;> omega
  have hlo := yearStart_le hmarch.1
  have hhi := yearStart_le (show day.date.marchYear+1 ≤ 10000 by omega)
  rw [show yearStart (-1) = -366 by decide] at hlo
  rw [show yearStart 10000 = 3652425 by decide] at hhi
  omega

theorem SegmentId.new_ok {value : Int64} {id : SegmentId} (h : SegmentId.new value = .ok id) :
    ∃ day, id.utcDay = .ok day ∧ utcDayOf value = .ok day := by
  have hvalue := SegmentId.get_of_new h
  obtain ⟨day,hday⟩ := Option.isSome_iff_exists.mp id.inRange
  cases hutc : utcDayOf id.value with
  | error e =>
    rw [hutc] at hday
    cases hday
  | ok day => exact ⟨day,hutc,by rw [← hvalue]; exact hutc⟩

theorem SegmentId.new_of_day {value : Int64} {day : UtcDay} (h : utcDayOf value = .ok day) :
    ∃ id, SegmentId.new value = .ok id ∧ id.utcDay = .ok day := by
  have hrange : SegmentIdInRange value := by
    rw [SegmentIdInRange,h]
    rfl
  exact ⟨⟨value,hrange⟩,dif_pos hrange,h⟩

theorem UtcDay.ext_date {a b : UtcDay} (h : a.date = b.date) : a = b := by
  obtain ⟨y,m,d⟩ := a
  obtain ⟨y',m',d'⟩ := b
  obtain ⟨hy,hm,hd⟩ := Date.mk.inj h
  cases hm
  cases hd
  cases Int.ofNat.inj hy
  rfl

/-- An admissible day is a run of whole microseconds. -/
theorem UtcDay.image {day : UtcDay} (hyear : day.year ≤ 9999) (hvalid : day.date.Valid) :
    ∃ first : Int64, first.toInt + microsPerDay ≤ 2^63 ∧ ∀ value : Int64,
      utcDayOf value = .ok day ↔
        first.toInt ≤ value.toInt ∧ value.toInt < first.toInt + microsPerDay := by
  obtain ⟨hlo,hhi⟩ := number_bounds hyear hvalid
  have hfirst : (Int64.ofInt ((day.date.number - 719468)*microsPerDay)).toInt =
      (day.date.number - 719468)*86400000000 := by
    rw [microsPerDay]
    exact Int64.toInt_ofInt_of_le (by omega) (by omega)
  refine ⟨Int64.ofInt ((day.date.number - 719468)*microsPerDay),?_,fun value => ?_⟩
  · rw [hfirst,microsPerDay]
    omega
  · have hat := civilDay_calendar.eq_iff hvalid (value.toInt/microsPerDay)
    have hlayout : LayoutYear day.date.year :=
      ⟨Int.natCast_nonneg day.year,Int.ofNat_le.mpr hyear⟩
    rw [unixEpoch_number,microsPerDay] at hat
    rw [hfirst,utcDayOf_ok,microsPerDay]
    constructor
    · rintro ⟨-,hdate⟩
      have hnumber := hat.mp hdate.symm
      omega
    · intro hbetween
      have hdate := hat.mpr (by omega)
      rw [hdate]
      exact ⟨hlayout,rfl⟩

end Days

/-- Segment identities are the timestamps of the layout's years, each filed under its UTC day. -/
theorem segment_ids_are_utc_days :
    IsCalendar unixEpoch civilDay ∧
    (∀ date, IsCalendar unixEpoch date → ∀ value : Int64,
      ((∃ id, SegmentId.new value = .ok id) ↔ LayoutYear (date (value.toInt/microsPerDay)).year) ∧
      ∀ id, SegmentId.new value = .ok id → ∃ day, id.utcDay = .ok day ∧
        day.date = date (value.toInt/microsPerDay) ∧
        UtcDay.new day.year day.month day.day = .ok day) ∧
    (∀ (a b : SegmentId) (x y : UtcDay), a.get ≤ b.get → a.utcDay = .ok x → b.utcDay = .ok y →
      x.le y) ∧
    (∀ day : UtcDay, UtcDay.new day.year day.month day.day = .ok day →
      ∃ first : Int64, first.toInt + microsPerDay ≤ 2^63 ∧ ∀ value : Int64,
        (∃ id, SegmentId.new value = .ok id ∧ id.utcDay = .ok day) ↔
          first.toInt ≤ value.toInt ∧ value.toInt < first.toInt + microsPerDay) ∧
    ∀ value : Int64, civilFromDaysChecked (value.toInt/microsPerDay) =
      some (civilFromDays (value.toInt/microsPerDay)) := by
  refine ⟨civilDay_calendar,fun date hdate value => ⟨⟨?_,fun hyear => ?_⟩,fun id hid => ?_⟩,
    fun a b x y hle hx hy => ?_,fun day hday => ?_,
    fun value => civilFromDaysChecked_eq (dayCount_of_timestamp value)⟩
  · rintro ⟨id,hid⟩
    obtain ⟨day,-,hday⟩ := SegmentId.new_ok hid
    rw [hdate.unique civilDay_calendar]
    exact (utcDayOf_ok.mp hday).1
  · rw [hdate.unique civilDay_calendar] at hyear
    obtain ⟨day,hday⟩ := utcDayOf_of_layoutYear hyear
    obtain ⟨id,hid,-⟩ := SegmentId.new_of_day hday
    exact ⟨id,hid⟩
  · obtain ⟨day,hutc,hday⟩ := SegmentId.new_ok hid
    obtain ⟨hyear,hsame⟩ := utcDayOf_ok.mp hday
    rw [hdate.unique civilDay_calendar]
    refine ⟨day,hutc,hsame,UtcDay.new_ok.mpr ⟨?_,?_⟩⟩
    · rw [← hsame] at hyear
      exact Int.ofNat_le.mp hyear.2
    · rw [hsame]
      exact civilDay_calendar.valid _
  · have hx' := (utcDayOf_ok.mp hx).2
    have hy' := (utcDayOf_ok.mp hy).2
    have horder : a.get.toInt/microsPerDay ≤ b.get.toInt/microsPerDay :=
      Int.ediv_le_ediv (by decide) (Int64.le_iff_toInt_le.mp hle)
    have hdates := civilDay_calendar.le horder
    rw [← hx',← hy',Date.le,UtcDay.date,UtcDay.date] at hdates
    rw [UtcDay.le]
    dsimp only at hdates
    omega
  · obtain ⟨hyear,hvalid⟩ := UtcDay.new_ok.mp hday
    obtain ⟨first,hfits,himage⟩ := UtcDay.image hyear hvalid
    refine ⟨first,hfits,fun value => (Iff.trans ⟨?_,fun h => SegmentId.new_of_day h⟩ (himage value))⟩
    rintro ⟨id,hid,hutc⟩
    obtain ⟨day',hutc',hday'⟩ := SegmentId.new_ok hid
    cases hutc.symm.trans hutc'
    exact hday'

end PgKronika
