import Muduo.Base.Date
import Muduo.Library.Gregorian

/-! The Julian day numbers of the days of the calendar. -/

namespace Muduo.Base

open Library Gregorian

/-- The Julian day number; 1 January of year 1 has the number 1721426. -/
def julianDay (d : Gregorian) : ℤ := d.ordinal + 1721425

/-- The days for which the code is exact. They start on 1 March of the year -4800. -/
def InRange (j : ℤ) : Prop := -32044 ≤ j ∧ j ≤ 536838867

instance (j : ℤ) : Decidable (InRange j) := inferInstanceAs (Decidable (_ ∧ _))

theorem julianDay_strictMono : StrictMono julianDay := fun _ _ h =>
  Int.add_lt_add_right (ordinal_strictMono h) _

/-- The year in the formula, which starts in March, is not negative. -/
theorem marchYear_nonneg {d : Gregorian} (h : -32044 ≤ julianDay d) :
    0 ≤ d.year + 4800 - (14 - d.month) / 12 := by
  let first : Gregorian := ⟨-4800, 3, 1, by decide, by decide⟩
  have hfirst : julianDay first = -32044 := by decide
  have hle : ¬ d < first := fun hlt => by
    have hmono := julianDay_strictMono hlt
    omega
  have hmonth := d.month_mem
  rw [lt_iff] at hle
  have hyear : first.year = -4800 := rfl
  have hmarch : first.month = 3 := rfl
  have hday : first.day = 1 := rfl
  have hday' := d.day_mem
  omega

theorem julianDay_eq (d : Gregorian) : julianDay d =
    daysBeforeMarch (d.year + 4800 - (14 - d.month) / 12) +
      daysFromMarch (d.month + 12 * ((14 - d.month) / 12) - 3) + d.day - 32045 := by
  rw [julianDay, ordinal_eq, daysBeforeMarch, daysBeforeMarch]
  omega

/-- For two million years the formula is computed without an overflow. -/
theorem getJulianDayNumber_of {year month day a y m : ℤ} (ha : (14 - month).tdiv 12 = a)
    (hy : year + 4800 - a = y) (hm : month + 12 * a - 3 = m) (ha₀ : 0 ≤ a) (ha₁ : a ≤ 1)
    (hy₀ : 0 ≤ y) (hy₁ : y ≤ 2000000) (hm₀ : 0 ≤ m) (hm₁ : m ≤ 11) (hday₀ : 1 ≤ day)
    (hday₁ : day ≤ 31) : getJulianDayNumber year month day =
      .ok (day + (153 * m + 2) / 5 + y * 365 + y / 4 - y / 100 + y / 400 - 32045) := by
  have hfirst : (153 * m + 2).tdiv 5 = (153 * m + 2) / 5 :=
    Int.tdiv_eq_ediv_of_nonneg (by omega)
  have hfour : y.tdiv 4 = y / 4 := Int.tdiv_eq_ediv_of_nonneg hy₀
  have hhundred : y.tdiv 100 = y / 100 := Int.tdiv_eq_ediv_of_nonneg hy₀
  have hera : y.tdiv 400 = y / 400 := Int.tdiv_eq_ediv_of_nonneg hy₀
  obtain ⟨q, hq, hq₀, hq₁⟩ : ∃ q, (153 * m + 2) / 5 = q ∧ 0 ≤ q ∧ q ≤ 337 :=
    ⟨_, rfl, by omega, by omega⟩
  obtain ⟨r, hr, hr₀, hr₁⟩ : ∃ r, y / 4 = r ∧ 0 ≤ r ∧ r ≤ 500000 := ⟨_, rfl, by omega, by omega⟩
  obtain ⟨s, hs, hs₀, hs₁⟩ : ∃ s, y / 100 = s ∧ 0 ≤ s ∧ s ≤ 20000 := ⟨_, rfl, by omega, by omega⟩
  obtain ⟨t, ht, ht₀, ht₁⟩ : ∃ t, y / 400 = t ∧ 0 ≤ t ∧ t ≤ 5000 := ⟨_, rfl, by omega, by omega⟩
  rw [getJulianDayNumber, checked_bind (x := 14 - month) (by omega) (by omega)]
  simp only [ha]
  rw [checked_bind (x := year + 4800) (by omega) (by omega), hy,
    checked_bind (x := y) (by omega) (by omega)]
  simp only [hfour, hhundred, hera, hr, hs, ht]
  clear hr hs ht hfour hhundred hera
  rw [checked_bind (x := 12 * a) (by omega) (by omega),
    checked_bind (x := month + 12 * a) (by omega) (by omega), hm,
    checked_bind (x := m) (by omega) (by omega),
    checked_bind (x := 153 * m) (by omega) (by omega),
    checked_bind (x := 153 * m + 2) (by omega) (by omega), hfirst, hq]
  clear hfirst hq
  rw [checked_bind (x := day + q) (by omega) (by omega),
    checked_bind (x := y * 365) (by omega) (by omega),
    checked_bind (x := day + q + y * 365) (by omega) (by omega),
    checked_bind (x := day + q + y * 365 + r) (by omega) (by omega),
    checked_bind (x := day + q + y * 365 + r - s) (by omega) (by omega),
    checked_bind (x := day + q + y * 365 + r - s + t) (by omega) (by omega),
    checked_of (by omega) (by omega)]

theorem marchYear_le {d : Gregorian} (h : julianDay d ≤ 536838867) :
    d.year + 4800 - (14 - d.month) / 12 ≤ 2000000 := by
  have hmonth := d.month_mem
  have hday := d.day_mem
  have heq := julianDay_eq d
  rw [daysBeforeMarch, daysFromMarch] at heq
  omega

theorem getJulianDayNumber_eq {d : Gregorian} (h : InRange (julianDay d)) :
    getJulianDayNumber d.year d.month d.day = .ok (julianDay d) := by
  obtain ⟨hlow, hhigh⟩ := d.month_mem
  have hday := d.day_mem
  have hmonth := daysInMonth_le d.year d.month
  have ha : (14 - d.month).tdiv 12 = (14 - d.month) / 12 := Int.tdiv_eq_ediv_of_nonneg (by omega)
  rw [getJulianDayNumber_of ha rfl rfl (by omega) (by omega) (marchYear_nonneg h.1)
    (marchYear_le h.2) (by omega) (by omega) hday.1 (by omega), julianDay_eq, daysBeforeMarch,
    daysFromMarch]
  exact congrArg Except.ok (by omega)

/-- What comes back without an overflow is the number of the day. -/
theorem of_getJulianDayNumber {d : Gregorian} {j : ℤ} (hyear : -4799 ≤ d.year)
    (h : getJulianDayNumber d.year d.month d.day = .ok j) : julianDay d = j := by
  have hmonth := d.month_mem
  have ha : (14 - d.month).tdiv 12 = (14 - d.month) / 12 := Int.tdiv_eq_ediv_of_nonneg (by omega)
  have hlow : 0 ≤ d.year + 4800 - (14 - d.month) / 12 := by omega
  have hm : 0 ≤ 153 * (d.month + 12 * ((14 - d.month) / 12) - 3) + 2 := by omega
  simp only [getJulianDayNumber, checked_bind_eq_ok, checked_eq_ok, ha] at h
  simp only [Int.tdiv_eq_ediv_of_nonneg hlow, Int.tdiv_eq_ediv_of_nonneg hm] at h
  rw [julianDay_eq, daysBeforeMarch, daysFromMarch]
  omega

/-- The algorithm counts the centuries from the year -4800. -/
theorem ofOrdinal_eq (a : ℤ) :
    (ofOrdinal (a - 32044 - 1721425)).year = marchYear a - 4800 + marchMonth (marchDay a) / 10 ∧
    (ofOrdinal (a - 32044 - 1721425)).month =
      marchMonth (marchDay a) + 3 - 12 * (marchMonth (marchDay a) / 10) ∧
    (ofOrdinal (a - 32044 - 1721425)).day = dayOfMonth (marchDay a) := by
  have hstart : a - 32044 - 1721425 + 305 = a - 1753164 := by omega
  have hcentury : century (a - 1753164) = century a - 48 := by
    rw [century, century]
    omega
  have hday : dayOfCentury (a - 1753164) = dayOfCentury a := by
    rw [dayOfCentury, dayOfCentury, hcentury]
    omega
  simp only [ofOrdinal, hstart, marchYear, marchDay, hcentury, hday, and_self, and_true]
  omega

/-- The steps of the algorithm, none of which overflows. -/
theorem getYearMonthDay_of {j a b c d e m : ℤ} (ha : j + 32044 = a)
    (hb : (4 * a + 3).tdiv 146097 = b) (hc : a - (b * 146097).tdiv 4 = c)
    (hd : (4 * c + 3).tdiv 1461 = d) (he : c - (1461 * d).tdiv 4 = e)
    (hm : (5 * e + 2).tdiv 153 = m) (ha₀ : 0 ≤ a) (ha₁ : a ≤ 536870911) (hb₀ : 0 ≤ b)
    (hb₁ : b ≤ 14699) (hc₀ : 0 ≤ c) (hc₁ : c ≤ 36524) (hd₀ : 0 ≤ d) (hd₁ : d ≤ 99)
    (he₀ : 0 ≤ e) (he₁ : e ≤ 365) (hm₀ : 0 ≤ m) (hm₁ : m ≤ 11) :
    getYearMonthDay j = .ok ⟨b * 100 + d - 4800 + m / 10, m + 3 - 12 * (m / 10),
      e - (153 * m + 2) / 5 + 1⟩ := by
  have hfirst : (153 * m + 2).tdiv 5 = (153 * m + 2) / 5 :=
    Int.tdiv_eq_ediv_of_nonneg (by omega)
  have hten : m.tdiv 10 = m / 10 := Int.tdiv_eq_ediv_of_nonneg hm₀
  rw [getYearMonthDay, ha, checked_bind (x := a) (by omega) (by omega),
    checked_bind (x := 4 * a) (by omega) (by omega),
    checked_bind (x := 4 * a + 3) (by omega) (by omega)]
  simp only [hb]
  rw [checked_bind (x := b * 146097) (by omega) (by omega), hc,
    checked_bind (x := c) (by omega) (by omega),
    checked_bind (x := 4 * c) (by omega) (by omega),
    checked_bind (x := 4 * c + 3) (by omega) (by omega)]
  simp only [hd]
  rw [checked_bind (x := 1461 * d) (by omega) (by omega), he,
    checked_bind (x := e) (by omega) (by omega),
    checked_bind (x := 5 * e) (by omega) (by omega),
    checked_bind (x := 5 * e + 2) (by omega) (by omega)]
  simp only [hm, hten]
  rw [checked_bind (x := 153 * m) (by omega) (by omega),
    checked_bind (x := 153 * m + 2) (by omega) (by omega), hfirst,
    checked_bind (x := e - (153 * m + 2) / 5) (by omega) (by omega),
    checked_bind (x := e - (153 * m + 2) / 5 + 1) (by omega) (by omega),
    checked_bind (x := m + 3) (by omega) (by omega),
    checked_bind (x := 12 * (m / 10)) (by omega) (by omega),
    checked_bind (x := m + 3 - 12 * (m / 10)) (by omega) (by omega),
    checked_bind (x := b * 100) (by omega) (by omega),
    checked_bind (x := b * 100 + d) (by omega) (by omega),
    checked_bind (x := b * 100 + d - 4800) (by omega) (by omega),
    checked_bind (x := b * 100 + d - 4800 + m / 10) (by omega) (by omega)]
  rfl

theorem getYearMonthDay_eq {j : ℤ} (h : InRange j) : getYearMonthDay j =
    .ok ⟨(ofOrdinal (j - 1721425)).year, (ofOrdinal (j - 1721425)).month,
      (ofOrdinal (j - 1721425)).day⟩ := by
  obtain ⟨hlow, hhigh⟩ := h
  obtain ⟨a, rfl⟩ : ∃ a, j = a - 32044 := ⟨j + 32044, by omega⟩
  obtain ⟨hc₀, hc₁, -⟩ := dayOfCentury_mem a
  obtain ⟨hd₀, hd₁⟩ := yearOfCentury_mem hc₀ hc₁
  obtain ⟨he₀, he₁, -⟩ := marchDay_mem a
  obtain ⟨hm₀, hm₁⟩ := marchMonth_mem he₀ he₁
  obtain ⟨hb₀, hb₁⟩ : 0 ≤ century a ∧ century a ≤ 14699 := by
    rw [century]
    omega
  have hb : (4 * a + 3).tdiv 146097 = century a := Int.tdiv_eq_ediv_of_nonneg (by omega)
  have hc : a - (century a * 146097).tdiv 4 = dayOfCentury a := by
    rw [Int.tdiv_eq_ediv_of_nonneg (by omega), Int.mul_comm, dayOfCentury]
  have hd : (4 * dayOfCentury a + 3).tdiv 1461 = yearOfCentury (dayOfCentury a) :=
    Int.tdiv_eq_ediv_of_nonneg (by omega)
  have he : dayOfCentury a - (1461 * yearOfCentury (dayOfCentury a)).tdiv 4 = marchDay a := by
    rw [Int.tdiv_eq_ediv_of_nonneg (by omega)]
    rfl
  have hm : (5 * marchDay a + 2).tdiv 153 = marchMonth (marchDay a) :=
    Int.tdiv_eq_ediv_of_nonneg (by omega)
  obtain ⟨hy, hmon, hdom⟩ := ofOrdinal_eq a
  rw [hy, hmon, hdom, dayOfMonth, marchYear, Int.mul_comm 100]
  exact getYearMonthDay_of (Int.sub_add_cancel a 32044) hb hc hd he hm (by omega) (by omega) hb₀
    hb₁ hc₀ hc₁ hd₀ hd₁ he₀ he₁ hm₀ hm₁

/-- The days in range and their numbers correspond one to one and in order, and neither
direction overflows. -/
theorem julian_day_bijection :
    (∀ j, InRange j → ∃ d : Gregorian, getYearMonthDay j = .ok ⟨d.year, d.month, d.day⟩ ∧
      getJulianDayNumber d.year d.month d.day = .ok j) ∧
    (∀ (d : Gregorian) (j : ℤ), -4799 ≤ d.year →
      getJulianDayNumber d.year d.month d.day = .ok j → InRange j →
      getYearMonthDay j = .ok ⟨d.year, d.month, d.day⟩) ∧
    ∀ (d e : Gregorian) (x y : Date), -4799 ≤ d.year → -4799 ≤ e.year →
      Date.ofYearMonthDay d.year d.month d.day = .ok x → InRange x.julianDayNumber →
      Date.ofYearMonthDay e.year e.month e.day = .ok y → InRange y.julianDayNumber →
      (x < y ↔ d < e) := by
  refine ⟨fun j hj => ?_, fun d j hyear hd hj => ?_, fun d e x y hd he hx _ hy _ => ?_⟩
  · have hday : julianDay (ofOrdinal (j - 1721425)) = j := by
      rw [julianDay, ordinal_ofOrdinal]
      omega
    refine ⟨ofOrdinal (j - 1721425), getYearMonthDay_eq hj, ?_⟩
    rw [getJulianDayNumber_eq (hday.symm ▸ hj), hday]
  · obtain rfl := of_getJulianDayNumber hyear hd
    rw [getYearMonthDay_eq hj, julianDay, Int.add_sub_cancel, ofOrdinal_ordinal]
  · obtain ⟨j, hj, hjx⟩ := of_bind hx
    obtain ⟨k, hk, hky⟩ := of_bind hy
    obtain rfl : Date.mk j = x := Except.ok.inj hjx
    obtain rfl : Date.mk k = y := Except.ok.inj hky
    rw [← julianDay_strictMono.lt_iff_lt, of_getJulianDayNumber hd hj,
      of_getJulianDayNumber he hk]
    rfl

theorem leapDay_mem : (1 : ℤ) ≤ 29 ∧ 29 ≤ daysInMonth 2000 2 := by decide

theorem marchFirst_mem : (1 : ℤ) ≤ 1 ∧ 1 ≤ daysInMonth 2000 3 := by decide

/-- The last day in range, and the leap day of the year 2000 with the day behind it. -/
theorem julian_day_bijection_leap_day :
    let leapDay : Gregorian := ⟨2000, 2, 29, by decide, leapDay_mem⟩
    let marchFirst : Gregorian := ⟨2000, 3, 1, by decide, marchFirst_mem⟩
    (∃ d : Gregorian, getYearMonthDay 536838867 = .ok ⟨d.year, d.month, d.day⟩ ∧
      getJulianDayNumber d.year d.month d.day = .ok 536838867) ∧
    getYearMonthDay 2451604 = .ok ⟨2000, 2, 29⟩ ∧
    ((⟨2451604⟩ : Date) < ⟨2451605⟩ ↔ leapDay < marchFirst) := by
  intro leapDay marchFirst
  obtain ⟨hdate, hnumber, horder⟩ := julian_day_bijection
  refine ⟨hdate _ (by decide), hnumber leapDay _ (by decide) (by decide) (by decide), ?_⟩
  exact horder leapDay marchFirst _ _ (by decide) (by decide) rfl (by decide) rfl (by decide)

end Muduo.Base
