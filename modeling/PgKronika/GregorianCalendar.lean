import Mathlib

/-! The proleptic Gregorian calendar: every day has the date behind that of the day before. -/
namespace PgKronika
namespace GregorianCalendar

structure Date where
  year : ℤ
  month : ℕ
  day : ℕ
  deriving DecidableEq

def Leap (year : ℤ) : Prop := year%4 = 0 ∧ (year%100 ≠ 0 ∨ year%400 = 0)

instance (year : ℤ) : Decidable (Leap year) :=
  inferInstanceAs (Decidable (_ ∧ _))

def monthLength (year : ℤ) (month : ℕ) : ℕ :=
  if month = 2 then if Leap year then 29 else 28
  else if month = 4 ∨ month = 6 ∨ month = 9 ∨ month = 11 then 30
  else 31

structure Date.Valid (date : Date) : Prop where
  month_pos : 1 ≤ date.month
  month_le : date.month ≤ 12
  day_pos : 1 ≤ date.day
  day_le : date.day ≤ monthLength date.year date.month

/-- The date of the next day. -/
def Date.next (date : Date) : Date :=
  if date.day < monthLength date.year date.month then { date with day := date.day+1 }
  else if date.month < 12 then ⟨date.year,date.month+1,1⟩
  else ⟨date.year+1,1,1⟩

/-- Day 0 has the date `epoch`, and the dates of all days follow each other. -/
structure IsCalendar (epoch : Date) (date : ℤ → Date) : Prop where
  epoch : date 0 = epoch
  next : ∀ n, date (n+1) = (date n).next
  valid : ∀ n, (date n).Valid

def Date.le (a b : Date) : Prop :=
  a.year < b.year ∨ a.year = b.year ∧ (a.month < b.month ∨ a.month = b.month ∧ a.day ≤ b.day)

-- Years that begin in March end with the day that a leap year adds.
section MarchYears

def Date.marchYear (date : Date) : ℤ := if date.month ≤ 2 then date.year-1 else date.year

def Date.marchMonth (date : Date) : ℕ := (date.month+9)%12

def Date.marchDay (date : Date) : ℤ := ((153*date.marchMonth+2)/5+date.day : ℕ) - 1

/-- Days in front of the first of March, counted from the one of the year 0. -/
def yearStart (year : ℤ) : ℤ := 365*year + year/4 - year/100 + year/400

def Date.number (date : Date) : ℤ := yearStart date.marchYear + date.marchDay

theorem yearStart_succ (year : ℤ) :
    yearStart (year+1) = yearStart year + 365 + (if Leap (year+1) then 1 else 0) := by
  unfold yearStart Leap
  split_ifs <;> omega

theorem yearStart_le {a b : ℤ} (h : a ≤ b) : yearStart a ≤ yearStart b := by
  induction b, h using Int.leInduction with
  | base => exact le_rfl
  | succ n _ ih =>
    have hnext := yearStart_succ n
    split_ifs at hnext <;> omega

theorem yearStart_lt {a b : ℤ} (h : a < b) : yearStart a < yearStart b := by
  have hle := yearStart_le (show a+1 ≤ b from h)
  have hnext := yearStart_succ a
  split_ifs at hnext <;> omega

namespace Date

variable {a b : Date}

/-- Where a valid date stands in its month and in its year. -/
theorem Valid.bounds (h : a.Valid) :
    a.marchDay*5+2 < 153*(a.marchMonth+1) ∧ 153*a.marchMonth ≤ a.marchDay*5+2 ∧ 0 ≤ a.marchDay ∧
      a.marchDay < 365 + (if Leap (a.marchYear+1) then 1 else 0) := by
  obtain ⟨year,month,day⟩ := a
  obtain ⟨hpos,hle,hday,hlen⟩ := h
  simp only [marchDay,marchMonth,marchYear,monthLength] at *
  interval_cases month <;> simp at * <;> split_ifs at * <;> omega

theorem Valid.number_lt (h : a.Valid) : yearStart a.marchYear ≤ a.number ∧
    a.number < yearStart (a.marchYear+1) := by
  obtain ⟨-,-,hpos,hlt⟩ := h.bounds
  rw [number,yearStart_succ]
  omega

theorem Valid.marchYear_le (ha : a.Valid) (hb : b.Valid) (h : a.number ≤ b.number) :
    a.marchYear ≤ b.marchYear := by
  by_contra hgt
  have hle := yearStart_le (show b.marchYear+1 ≤ a.marchYear by omega)
  have hfrom := ha.number_lt.1
  have hto := hb.number_lt.2
  omega

/-- The dates are in the order of their days. -/
theorem Valid.le_of_number_le (ha : a.Valid) (hb : b.Valid) (h : a.number ≤ b.number) : a.le b := by
  have hyear := ha.marchYear_le hb h
  obtain ⟨hamonth,hamonth',-,-⟩ := ha.bounds
  obtain ⟨hbmonth,hbmonth',-,-⟩ := hb.bounds
  obtain ⟨hapos,hale,-,-⟩ := ha
  obtain ⟨hbpos,hble,-,-⟩ := hb
  have hday : a.marchYear = b.marchYear → a.marchDay ≤ b.marchDay := by
    intro hsame
    rw [number,number,hsame] at h
    omega
  simp only [le,marchYear,marchMonth,marchDay] at *
  split_ifs at * <;> omega

theorem le_antisymm (h : a.le b) (h' : b.le a) : a = b := by
  obtain ⟨y,m,d⟩ := a
  obtain ⟨y',m',d'⟩ := b
  simp only [le] at h h'
  obtain ⟨rfl,rfl,rfl⟩ : y = y' ∧ m = m' ∧ d = d' := by omega
  rfl

/-- A day has one date. -/
theorem Valid.number_injective (ha : a.Valid) (hb : b.Valid) (h : a.number = b.number) : a = b :=
  le_antisymm (ha.le_of_number_le hb h.le) (hb.le_of_number_le ha h.ge)

theorem Valid.next (h : a.Valid) : a.next.Valid := by
  obtain ⟨year,month,day⟩ := a
  obtain ⟨hpos,hle,hday,hlen⟩ := h
  rw [Date.next]
  dsimp only at *
  split_ifs with hmonth hyear
  · exact ⟨hpos,hle,by dsimp only; omega,hmonth⟩
  · refine ⟨by dsimp only; omega,by dsimp only; omega,le_rfl,?_⟩
    dsimp only [monthLength]
    split_ifs <;> omega
  · exact ⟨le_rfl,by dsimp only; omega,le_rfl,by simp [monthLength]⟩

theorem Valid.number_next (h : a.Valid) : a.next.number = a.number+1 := by
  obtain ⟨year,month,day⟩ := a
  obtain ⟨hpos,hle,hday,hlen⟩ := h
  have hyear := yearStart_succ (year-1)
  rw [show year-1+1 = year by omega] at hyear
  rw [Date.next]
  simp only [monthLength] at hlen ⊢
  -- the number of days in front of a month depends on the month alone
  interval_cases month <;> simp [number,marchYear,marchMonth,marchDay] at * <;> split_ifs at * <;>
    simp at * <;> omega

end Date
end MarchYears

section Days

variable {epoch : Date} {date : ℤ → Date}

theorem IsCalendar.number (h : IsCalendar epoch date) (n : ℤ) :
    (date n).number = epoch.number + n := by
  have hstep (k : ℤ) : (date (k+1)).number = (date k).number+1 := by
    rw [h.next,(h.valid k).number_next]
  induction n using Int.induction_on with
  | zero => rw [h.epoch,add_zero]
  | succ k ih =>
    have hnext := hstep k
    omega
  | pred k ih =>
    have hnext := hstep (-k-1)
    rw [show (-(k : ℤ)-1)+1 = -k by omega] at hnext
    omega

/-- Valid dates that number the days are a calendar. -/
theorem IsCalendar.of_number (hvalid : ∀ n, (date n).Valid)
    (hnumber : ∀ n, (date n).number = epoch.number + n) (hepoch : epoch.Valid) :
    IsCalendar epoch date where
  epoch := (hvalid 0).number_injective hepoch (by rw [hnumber,add_zero])
  next n := (hvalid _).number_injective (hvalid n).next (by
    rw [(hvalid n).number_next,hnumber,hnumber,add_assoc])
  valid := hvalid

/-- There is only one calendar. -/
theorem IsCalendar.unique {other : ℤ → Date} (h : IsCalendar epoch date)
    (h' : IsCalendar epoch other) : date = other :=
  funext fun n => (h.valid n).number_injective (h'.valid n) (by rw [h.number,h'.number])

theorem IsCalendar.le (h : IsCalendar epoch date) {m n : ℤ} (hle : m ≤ n) :
    (date m).le (date n) :=
  (h.valid m).le_of_number_le (h.valid n) (by rw [h.number,h.number]; omega)

/-- Every valid date is the date of one day. -/
theorem IsCalendar.eq_iff (h : IsCalendar epoch date) {d : Date} (hd : d.Valid) (n : ℤ) :
    date n = d ↔ n = d.number - epoch.number := by
  have hnumber := h.number n
  constructor
  · rintro rfl
    omega
  · intro hn
    exact (h.valid n).number_injective hd (by omega)

end Days
end GregorianCalendar
end PgKronika
