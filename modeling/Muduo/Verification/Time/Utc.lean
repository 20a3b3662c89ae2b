import Muduo.Base.TimeZone
import Muduo.Verification.Time.Julian

/-! UTC time: `toUtcTime` computes what `gmtime` does, and `fromUtcTime` inverts it. -/

namespace Muduo.Base

open Library Gregorian

namespace TimeZone

/-- Truncation rounds a negative time up to the next day. -/
theorem trunc_day (t : ℤ) :
    t.tmod 86400 < 0 ∧ t.tmod 86400 + 86400 = t % 86400 ∧ t.tdiv 86400 - 1 = t / 86400 ∨
      ¬ t.tmod 86400 < 0 ∧ t.tmod 86400 = t % 86400 ∧ t.tdiv 86400 = t / 86400 := by
  rw [Int.tmod_eq_emod, Int.tdiv_eq_ediv]
  by_cases h : 0 ≤ t ∨ (86400 : ℤ) ∣ t
  · rw [if_pos h, if_pos h]
    right
    omega
  · rw [if_neg h, if_neg h]
    left
    have hsign : Int.sign 86400 = 1 := rfl
    have habs : Int.natAbs 86400 = 86400 := rfl
    rw [hsign, habs]
    omega

/-- The times whose day has a number that is not negative and in range. -/
def Representable (t : ℤ) : Prop := 0 ≤ t / 86400 + 2440588 ∧ t / 86400 + 2440588 ≤ 536838867

instance (t : ℤ) : Decidable (Representable t) := inferInstanceAs (Decidable (_ ∧ _))

/-- The day of a time. -/
def dateOf (t : ℤ) : Gregorian := ofOrdinal (t / 86400 + Tm.epoch)

theorem julianDay_dateOf (t : ℤ) : julianDay (dateOf t) = t / 86400 + 2440588 := by
  rw [julianDay, dateOf, ordinal_ofOrdinal, Tm.epoch]
  omega

theorem kJulianDayOf1970_01_01_eq : Date.kJulianDayOf1970_01_01 = 2440588 := by decide

theorem fillHMS_eq (t : ℤ) (utc : Tm) : fillHMS (t % 86400) utc =
    { utc with tmSec := t % 60, tmMin := t / 60 % 60, tmHour := t / 3600 % 24 } := by
  have hword : word 32 (t % 86400) = (t % 86400).toNat :=
    word_of_nonneg (by omega) (by norm_num; omega)
  have hsec : (((t % 86400).toNat % 60 : ℕ) : ℤ) = t % 60 := by omega
  have hmin : (((t % 86400).toNat / 60 % 60 : ℕ) : ℤ) = t / 60 % 60 := by omega
  have hhour : (((t % 86400).toNat / 60 / 60 : ℕ) : ℤ) = t / 3600 % 24 := by omega
  simp only [fillHMS, hword, hsec, hmin, hhour]

theorem weekDay_eq {t : ℤ} (ht : Representable t) :
    (Date.mk (t / 86400 + 2440588)).weekDay = .ok (dateOf t).weekday := by
  obtain ⟨hlow, hhigh⟩ := ht
  rw [Date.weekDay, checked_bind (by simp only; omega) (by simp only; omega),
    Date.kDaysPerWeek, Int.tmod_eq_emod_of_nonneg (by simp only; omega), weekday, dateOf,
    ordinal_ofOrdinal, Tm.epoch]
  exact congrArg Except.ok (by simp only; omega)

theorem startOfYear_eq {t : ℤ} (ht : Representable t) :
    Date.ofYearMonthDay (dateOf t).year 1 1 =
      .ok ⟨t / 86400 + 2440588 - (dateOf t).dayOfYear⟩ := by
  obtain ⟨hlow, hhigh⟩ := ht
  have hnumber := julianDay_dateOf t
  have hnonneg := (dateOf t).dayOfYear_nonneg
  have hlt := (dateOf t).dayOfYear_lt_daysInYear
  have hyear := daysInYear_le (dateOf t).year
  have hfirst := ordinal_newYear (dateOf t)
  have hrange : InRange (julianDay (newYear (dateOf t).year)) := by
    rw [julianDay] at hnumber ⊢
    constructor <;> omega
  have hdate : getJulianDayNumber (dateOf t).year 1 1 = _ := getJulianDayNumber_eq hrange
  rw [Date.ofYearMonthDay, hdate, ok_bind, julianDay, hfirst]
  rw [julianDay] at hnumber
  exact congrArg (fun j => Except.ok (Date.mk j)) (by omega)

theorem splitDay_eq {t : ℤ} (ht : Representable t) : splitDay t = .ok (t % 86400, t / 86400) := by
  obtain ⟨hlow, hhigh⟩ := ht
  have hmod : castInt (t.tmod kSecondsPerDay) = t.tmod 86400 := by
    have h := trunc_day t
    exact castInt_of (by change _ ≤ t.tmod 86400; omega) (by change t.tmod 86400 ≤ _; omega)
  have hdiv : castInt (t.tdiv kSecondsPerDay) = t.tdiv 86400 := by
    have h := trunc_day t
    exact castInt_of (by change _ ≤ t.tdiv 86400; omega) (by change t.tdiv 86400 ≤ _; omega)
  have hday : kSecondsPerDay = 86400 := rfl
  simp only [splitDay, hmod, hdiv]
  rw [hday]
  rcases trunc_day t with ⟨hneg, hseconds, hdays⟩ | ⟨hnonneg, hseconds, hdays⟩
  · rw [if_pos hneg, hseconds, hdays, checked_bind (by omega) (by omega),
      checked_bind (by omega) (by omega)]
    rfl
  · rw [if_neg hnonneg, hseconds, hdays]
    rfl

theorem toUtcTime_eq {t : ℤ} (ht : Representable t) :
    toUtcTime t true = .ok (Tm.gmtime t) := by
  have hlow := ht.1
  have hhigh := ht.2
  have hrange : InRange (t / 86400 + 2440588) := ⟨by omega, hhigh⟩
  have hdate : ofOrdinal (t / 86400 + 2440588 - 1721425) = dateOf t := by
    rw [dateOf, Tm.epoch]
    congr 1
    omega
  have hymd : (Date.mk (t / 86400 + 2440588)).yearMonthDay =
      .ok ⟨(dateOf t).year, (dateOf t).month, (dateOf t).day⟩ := by
    rw [Date.yearMonthDay, getYearMonthDay_eq hrange, hdate]
  have hnumber : InRange (julianDay (dateOf t)) := by
    rw [julianDay_dateOf]
    exact hrange
  have hyearLow := marchYear_nonneg hnumber.1
  have hyearHigh := marchYear_le hnumber.2
  have hmonth := (dateOf t).month_mem
  have hdayLow := (dateOf t).dayOfYear_nonneg
  have hdayHigh := (dateOf t).dayOfYear_lt_daysInYear
  have hdays := daysInYear_le (dateOf t).year
  have hyday : t / 86400 + 2440588 - (t / 86400 + 2440588 - (dateOf t).dayOfYear) =
      (dateOf t).dayOfYear := by omega
  rw [toUtcTime]
  simp only [splitDay_eq ht, ok_bind, if_true, kJulianDayOf1970_01_01_eq, hymd, weekDay_eq ht,
    startOfYear_eq ht, hyday, fillHMS_eq,
    checked_of (x := t / 86400 + 2440588) (by omega) (by omega),
    checked_of (x := (dateOf t).year - 1900) (by omega) (by omega),
    checked_of (x := (dateOf t).month - 1) (by omega) (by omega),
    checked_of (x := (dateOf t).dayOfYear) (by omega) (by omega)]
  rfl

theorem fromUtcTime_gmtime {t : ℤ} (ht : Representable t) :
    fromUtcTime (Tm.gmtime t) = .ok t := by
  obtain ⟨hlow, hhigh⟩ := ht
  have hnumber : InRange (julianDay (dateOf t)) := by
    rw [julianDay_dateOf]
    exact ⟨by omega, hhigh⟩
  have hyearLow := marchYear_nonneg hnumber.1
  have hyearHigh := marchYear_le hnumber.2
  have hmonth := (dateOf t).month_mem
  have hyear : (Tm.gmtime t).tmYear + 1900 = (dateOf t).year := Int.sub_add_cancel _ _
  have hmon : (Tm.gmtime t).tmMon + 1 = (dateOf t).month := Int.sub_add_cancel _ _
  have hdate : Date.ofYearMonthDay (dateOf t).year (dateOf t).month (Tm.gmtime t).tmMday =
      .ok ⟨t / 86400 + 2440588⟩ := by
    rw [Date.ofYearMonthDay, show (Tm.gmtime t).tmMday = (dateOf t).day from rfl,
      getJulianDayNumber_eq hnumber, julianDay_dateOf]
    rfl
  have hhour : (Tm.gmtime t).tmHour = t / 3600 % 24 := rfl
  have hmin : (Tm.gmtime t).tmMin = t / 60 % 60 := rfl
  have hsec : (Tm.gmtime t).tmSec = t % 60 := rfl
  have hseconds : t / 3600 % 24 * 3600 + t / 60 % 60 * 60 + t % 60 = t % 86400 := by omega
  have hdays : t / 86400 + 2440588 - 2440588 = t / 86400 := Int.add_sub_cancel _ _
  rw [fromUtcTime, hyear, hmon, checked_bind (by omega) (by omega),
    checked_bind (by omega) (by omega), fromUtcFields, hdate, ok_bind, hhour, hmin, hsec,
    checked_bind (x := t / 3600 % 24 * 3600) (by omega) (by omega),
    checked_bind (x := t / 60 % 60 * 60) (by omega) (by omega),
    checked_bind (x := t / 3600 % 24 * 3600 + t / 60 % 60 * 60) (by omega) (by omega),
    hseconds, checked_bind (x := t % 86400) (by omega) (by omega),
    kJulianDayOf1970_01_01_eq]
  simp only [hdays]
  rw [checked_bind (x := t / 86400) (by omega) (by omega)]
  exact congrArg Except.ok (Int.ediv_mul_add_emod t 86400)

end TimeZone

namespace Tm

/-- Year, month, day, hour, minute and second. -/
def fields (tm : Tm) : List ℤ :=
  [tm.tmYear, tm.tmMon, tm.tmMday, tm.tmHour, tm.tmMin, tm.tmSec]

/-- Later times have later fields. -/
theorem fields_gmtime_lt {t u : ℤ} (h : t < u) : (gmtime t).fields < (gmtime u).fields := by
  have hday : t / 86400 < u / 86400 ∨ t / 86400 = u / 86400 := by omega
  simp only [fields, List.cons_lt_cons_iff]
  rcases hday with hlt | heq
  · have hdate : ofOrdinal (t / 86400 + epoch) < ofOrdinal (u / 86400 + epoch) := by
      rw [← ordinal_strictMono.lt_iff_lt, ordinal_ofOrdinal, ordinal_ofOrdinal]
      omega
    simp only [gmtime]
    rcases lt_iff.mp hdate with hyear | ⟨hyear, hmonth | ⟨hmonth, hday⟩⟩
    · exact .inl (by omega)
    · exact .inr ⟨by omega, .inl (by omega)⟩
    · exact .inr ⟨by omega, .inr ⟨by omega, .inl (by omega)⟩⟩
  · refine .inr ⟨by simp only [gmtime, heq], .inr ⟨by simp only [gmtime, heq], .inr
      ⟨by simp only [gmtime, heq], ?_⟩⟩⟩
    simp only [gmtime]
    omega

end Tm

namespace TimeZone

/-- `toUtcTime` breaks a time down into its day in the calendar and the time of day,
`fromUtcTime` puts them together again, and the fields are in the order of the times. -/
theorem utc_round_trip :
    (∀ t, Representable t → ∃ utc, toUtcTime t true = .ok utc ∧
      (0 ≤ utc.tmHour ∧ utc.tmHour ≤ 23) ∧ (0 ≤ utc.tmMin ∧ utc.tmMin ≤ 59) ∧
      (0 ≤ utc.tmSec ∧ utc.tmSec ≤ 59) ∧ (0 ≤ utc.tmMon ∧ utc.tmMon ≤ 11) ∧
      (0 ≤ utc.tmWday ∧ utc.tmWday ≤ 6) ∧ (0 ≤ utc.tmYday ∧ utc.tmYday ≤ 365) ∧
      (∃ date : Gregorian, date.ordinal = t / 86400 + Tm.epoch ∧
        utc.tmYear + 1900 = date.year ∧ utc.tmMon + 1 = date.month ∧ utc.tmMday = date.day ∧
        utc.tmWday = date.weekday ∧ utc.tmYday = date.dayOfYear) ∧
      fromUtcTime utc = .ok t) ∧
    ∀ t u utc utc', Representable t → Representable u → t < u →
      toUtcTime t true = .ok utc → toUtcTime u true = .ok utc' → utc.fields < utc'.fields := by
  constructor
  · intro t ht
    have hmonth := (dateOf t).month_mem
    have hdayLow := (dateOf t).dayOfYear_nonneg
    have hdayHigh := (dateOf t).dayOfYear_lt_daysInYear
    have hdays := daysInYear_le (dateOf t).year
    refine ⟨Tm.gmtime t, toUtcTime_eq ht, ?_, ?_, ?_, ?_, ?_, ?_, ?_, fromUtcTime_gmtime ht⟩
    · change 0 ≤ t / 3600 % 24 ∧ t / 3600 % 24 ≤ 23
      omega
    · change 0 ≤ t / 60 % 60 ∧ t / 60 % 60 ≤ 59
      omega
    · change 0 ≤ t % 60 ∧ t % 60 ≤ 59
      omega
    · change 0 ≤ (dateOf t).month - 1 ∧ (dateOf t).month - 1 ≤ 11
      omega
    · change 0 ≤ (dateOf t).ordinal % 7 ∧ (dateOf t).ordinal % 7 ≤ 6
      omega
    · change 0 ≤ (dateOf t).dayOfYear ∧ (dateOf t).dayOfYear ≤ 365
      omega
    · exact ⟨dateOf t, ordinal_ofOrdinal _, Int.sub_add_cancel _ _, Int.sub_add_cancel _ _, rfl,
        rfl, rfl⟩
  · intro t u utc utc' ht hu hlt hutc hutc'
    rw [toUtcTime_eq ht] at hutc
    rw [toUtcTime_eq hu] at hutc'
    obtain rfl := Except.ok.inj hutc
    obtain rfl := Except.ok.inj hutc'
    exact Tm.fields_gmtime_lt hlt

-- 1 January 1970 was a Thursday.
example : (newYear 1970).weekday = 4 := by decide

/-- The last second before the epoch, and the epoch. -/
theorem utc_round_trip_epoch :
    (∃ utc, toUtcTime (-1) true = .ok utc ∧ fromUtcTime utc = .ok (-1)) ∧
      ∃ utc utc', toUtcTime (-1) true = .ok utc ∧ toUtcTime 0 true = .ok utc' ∧
        utc.fields < utc'.fields := by
  obtain ⟨hround, horder⟩ := utc_round_trip
  obtain ⟨utc, hutc, -, -, -, -, -, -, -, hback⟩ := hround (-1) (by decide)
  obtain ⟨utc', hutc', -⟩ := hround 0 (by decide)
  exact ⟨⟨utc, hutc, hback⟩, utc, utc', hutc, hutc',
    horder _ _ _ _ (by decide) (by decide) (by decide) hutc hutc'⟩

end TimeZone

end Muduo.Base
