import Muduo.System.Stamping
import Muduo.Verification.Logging.Lines
import Muduo.Verification.Time.LocalTime

/-! The time in front of a log record. It is kept for as long as the second stays the same, also
when the time zone does not. -/

namespace Muduo.Base.Logger

open Library Net LogStream

/-! ### The text determines the time -/

theorem digitChar_inj {d e : ℕ} (hd : d < 36) (he : e < 36) (h : digitChar d = digitChar e) :
    d = e := by
  have hvalue := digitValue_digitChar hd
  rw [h, digitValue_digitChar he] at hvalue
  exact (Option.some.inj hvalue).symm

theorem zeroPadded_two {x : ℤ} (hlow : 0 ≤ x) (hhigh : x < 100) :
    zeroPadded 2 x = [digitChar (x / 10).toNat, digitChar (x % 10).toNat] := by
  have htable : ∀ n < 100,
      zeroPadded 2 (n : ℕ) = [digitChar ((n : ℤ) / 10).toNat, digitChar ((n : ℤ) % 10).toNat] := by
    decide
  obtain ⟨n, rfl⟩ := Int.eq_ofNat_of_zero_le hlow
  exact htable n (Int.ofNat_lt.mp hhigh)

theorem zeroPadded_two_inj {x y : ℤ} (hx : 0 ≤ x ∧ x < 100) (hy : 0 ≤ y ∧ y < 100)
    (h : zeroPadded 2 x = zeroPadded 2 y) : x = y := by
  rw [zeroPadded_two hx.1 hx.2, zeroPadded_two hy.1 hy.2] at h
  obtain ⟨hten, h⟩ := List.cons.inj h
  have htens := digitChar_inj (by omega) (by omega) hten
  have hunits := digitChar_inj (by omega) (by omega) (List.cons.inj h).1
  omega

theorem length_zeroPadded_two {x : ℤ} (hx : 0 ≤ x ∧ x < 100) : (zeroPadded 2 x).length = 2 := by
  rw [zeroPadded_two hx.1 hx.2]
  rfl

/-- The text of a number does not start with a blank. -/
theorem dropWhile_intNumeral (x : ℤ) : (intNumeral x).dropWhile (· = 32) = intNumeral x := by
  have hhead : ∀ n, (numeral 10 n).dropWhile (· = 32) = numeral 10 n := by
    intro n
    obtain ⟨d, hd, hhead, -⟩ := head_numeral (by decide : 1 < 10) n
    obtain ⟨rest, hrest⟩ := List.head?_eq_some_iff.mp hhead
    have hblank : digitChar d ≠ 32 := fun h => by
      have hvalue := digitValue_digitChar (Nat.lt_trans hd (by decide : 10 < 36))
      rw [h] at hvalue
      cases hvalue
    rw [hrest, List.dropWhile_cons_of_neg (by simpa using hblank)]
  rw [intNumeral]
  split
  · rfl
  · exact hhead _

theorem spacePadded_inj {width : ℕ} {x y : ℤ} (h : spacePadded width x = spacePadded width y) :
    x = y := by
  have hdrop : ∀ z, (spacePadded width z).dropWhile (· = 32) = intNumeral z := by
    intro z
    rw [spacePadded, padded, List.dropWhile_append_of_pos (by simp), dropWhile_intNumeral]
  have htext : intNumeral x = intNumeral y := by rw [← hdrop x, h, hdrop]
  have hx := (canonicalInt_intNumeral x).parses
  rw [htext, (canonicalInt_intNumeral y).parses] at hx
  exact (Option.some.inj hx).symm

/-- The members that are written with two digits. -/
structure TwoDigits (tm : Tm) : Prop where
  mon : 0 ≤ tm.tmMon + 1 ∧ tm.tmMon + 1 < 100
  mday : 0 ≤ tm.tmMday ∧ tm.tmMday < 100
  hour : 0 ≤ tm.tmHour ∧ tm.tmHour < 100
  min : 0 ≤ tm.tmMin ∧ tm.tmMin < 100
  sec : 0 ≤ tm.tmSec ∧ tm.tmSec < 100

theorem gmtime_twoDigits (t : ℤ) : TwoDigits (Tm.gmtime t) := by
  have hmonth := (Gregorian.ofOrdinal (t / 86400 + Tm.epoch)).month_mem
  have hday := (Gregorian.ofOrdinal (t / 86400 + Tm.epoch)).day_mem
  have hdays := Gregorian.daysInMonth_le (Gregorian.ofOrdinal (t / 86400 + Tm.epoch)).year
    (Gregorian.ofOrdinal (t / 86400 + Tm.epoch)).month
  constructor <;> simp only [Tm.gmtime] <;> omega

theorem zeroPadded_append_inj {x y : ℤ} {xs ys : List UInt8} (hx : 0 ≤ x ∧ x < 100)
    (hy : 0 ≤ y ∧ y < 100) (h : zeroPadded 2 x ++ xs = zeroPadded 2 y ++ ys) : x = y ∧ xs = ys := by
  have hlength : (zeroPadded 2 x).length = (zeroPadded 2 y).length := by
    rw [length_zeroPadded_two hx, length_zeroPadded_two hy]
  obtain ⟨htext, hrest⟩ := List.append_inj h hlength
  exact ⟨zeroPadded_two_inj hx hy htext, hrest⟩

/-- All but the year takes thirteen characters. -/
theorem length_year {tm : Tm} (h : TwoDigits tm) (hlength : (timeText tm).length = 17) :
    (spacePadded 4 (tm.tmYear + 1900)).length = 4 := by
  have hblank : (ascii " ").length = 1 := rfl
  have hcolon : (ascii ":").length = 1 := rfl
  simp only [timeText, List.length_append, hblank, hcolon, length_zeroPadded_two h.mon,
    length_zeroPadded_two h.mday, length_zeroPadded_two h.hour, length_zeroPadded_two h.min,
    length_zeroPadded_two h.sec] at hlength
  omega

theorem timegm_eq_of_timeText {tm tm' : Tm} (h : TwoDigits tm) (h' : TwoDigits tm')
    (hlength : (timeText tm).length = 17) (htext : timeText tm = timeText tm') :
    tm.timegm = tm'.timegm := by
  have hyear := length_year h hlength
  have hyear' := length_year h' (htext ▸ hlength)
  simp only [timeText, List.append_assoc] at htext
  obtain ⟨hyears, htext⟩ := List.append_inj htext (hyear.trans hyear'.symm)
  obtain ⟨hmon, htext⟩ := zeroPadded_append_inj h.mon h'.mon htext
  obtain ⟨hmday, htext⟩ := zeroPadded_append_inj h.mday h'.mday htext
  obtain ⟨hhour, htext⟩ := zeroPadded_append_inj h.hour h'.hour (List.append_cancel_left htext)
  obtain ⟨hmin, htext⟩ := zeroPadded_append_inj h.min h'.min (List.append_cancel_left htext)
  have hsec := zeroPadded_two_inj h.sec h'.sec (List.append_cancel_left htext)
  rw [Tm.timegm, Tm.timegm, spacePadded_inj hyears, hmon, hmday, hhour, hmin, hsec]

/-! ### Offsets -/

/-- What is added to UTC in a zone; without a valid zone, nothing. -/
def offset (zone : TimeZone) (seconds : ℤ) : Except TimeZone.Fault ℤ :=
  if zone.valid then do
    let data ← zone.deref
    let localtime ← TimeZone.findLocaltime data ⟨seconds, 0, 0⟩ ⟨true⟩
    return localtime.gmtOffset
  else .ok 0

/-- The text is that of UTC, with the offset added. -/
theorem timeText_brokenDown {zone : TimeZone} {seconds : ℤ} {tm : Tm}
    (h : brokenDown zone seconds = .ok tm) :
    ∃ off, offset zone seconds = .ok off ∧ timeText tm = timeText (Tm.gmtime (seconds + off)) := by
  rw [brokenDown] at h
  by_cases hvalid : zone.valid = true
  · rw [if_pos hvalid] at h
    obtain ⟨data, hdata, h⟩ := of_bind (of_mapError h)
    obtain ⟨localtime, hlocaltime, h⟩ := of_bind h
    obtain rfl := Except.ok.inj h
    refine ⟨localtime.gmtOffset, ?_, rfl⟩
    rw [offset, if_pos hvalid, hdata, ok_bind, hlocaltime]
    rfl
  · rw [if_neg hvalid] at h
    obtain rfl := Except.ok.inj h
    exact ⟨0, if_neg hvalid, by rw [Int.add_zero]⟩

theorem brokenDown_of_offset {zone : TimeZone} {seconds off : ℤ}
    (h : offset zone seconds = .ok off) : ∃ tm, brokenDown zone seconds = .ok tm := by
  rw [offset] at h
  by_cases hvalid : zone.valid = true
  · rw [if_pos hvalid] at h
    obtain ⟨data, hdata, h⟩ := of_bind h
    obtain ⟨localtime, hlocaltime, -⟩ := of_bind h
    rw [brokenDown, if_pos hvalid, TimeZone.toLocalTime, hdata, ok_bind]
    dsimp only
    rw [hlocaltime]
    exact ⟨_, rfl⟩
  · exact ⟨_, if_neg hvalid⟩

/-- Two zones show the same text for a second exactly if their offsets are the same. -/
theorem timeText_eq_iff {zone zone' : TimeZone} {seconds : ℤ} {tm tm' : Tm}
    (h : brokenDown zone seconds = .ok tm) (h' : brokenDown zone' seconds = .ok tm')
    (hlength : (timeText tm).length = 17) :
    timeText tm = timeText tm' ↔ offset zone seconds = offset zone' seconds := by
  obtain ⟨off, hoff, htext⟩ := timeText_brokenDown h
  obtain ⟨off', hoff', htext'⟩ := timeText_brokenDown h'
  rw [hoff, hoff', htext, htext']
  constructor
  · intro heq
    rw [htext] at hlength
    have htime := timegm_eq_of_timeText (gmtime_twoDigits _) (gmtime_twoDigits _) hlength heq
    rw [Tm.timegm_gmtime, Tm.timegm_gmtime] at htime
    exact congrArg Except.ok (Int.add_left_cancel htime)
  · intro heq
    rw [Except.ok.inj heq]

/-! ### What `formatTime` does -/

/-- The microseconds in the zone in force, of the length that is asserted. -/
structure Fraction (zone : TimeZone) (time : ℤ) (us : List UInt8) : Prop where
  text : (microsecondsText zone (time.tmod kMicroSecondsPerSecond)).1 = us
  length : us.length = (microsecondsText zone (time.tmod kMicroSecondsPerSecond)).2

theorem Fraction.le {zone : TimeZone} {time : ℤ} {us : List UInt8} (h : Fraction zone time us) :
    us.length ≤ 9 := by
  have hlength := h.length
  rw [microsecondsText] at hlength
  split at hlength
  · exact Nat.le_succ_of_le (Nat.le_of_eq hlength)
  · exact Nat.le_of_eq hlength

theorem append_data {s : LogStream} {text : List UInt8} (h : text.length < s.buffer.avail) :
    (s.append text).buffer.data = s.buffer.data ++ text := by
  have htakes := append_takes s text
  rwa [Takes, if_pos (Nat.succ_le_of_lt h)] at htakes

theorem stream_data {tTime us : List UInt8} (htime : tTime.length = 17) (hus : us.length ≤ 9) :
    ((LogStream.init.append tTime).append us).buffer.data = tTime ++ us := by
  have hfirst : (LogStream.init.append tTime).buffer.data = tTime := by
    rw [append_data (by rw [htime]; decide)]
    rfl
  have havail : (LogStream.init.append tTime).buffer.avail = kSmallBuffer - 17 := by
    rw [FixedBuffer.avail, FixedBuffer.length, hfirst, htime]
  rw [append_data (by rw [havail, kSmallBuffer]; omega), hfirst]

/-- The characters written are those of `t_time` and the microseconds. -/
theorem formatTime_iff {g g' : Globals} {time : ℤ} {text : List UInt8} :
    (∃ stream, formatTime g time .init = .ok (stream, g') ∧ stream.buffer.data = text) ↔
      refresh g (secondsOf time) = .ok g' ∧ g'.tTime.length = 17 ∧
        ∃ us, Fraction g'.logTimeZone time us ∧ text = g'.tTime ++ us := by
  constructor
  · rintro ⟨stream, h, rfl⟩
    obtain ⟨g₁, hrefresh, h⟩ := of_bind h
    obtain ⟨hus, h⟩ := of_ensure_bind h
    obtain ⟨tTime, htTime, h⟩ := of_bind h
    obtain ⟨us, husText, h⟩ := of_bind h
    obtain ⟨hlength, htTime⟩ := of_ensure_bind htTime
    obtain ⟨-, husText⟩ := of_ensure_bind husText
    obtain rfl := Except.ok.inj htTime
    obtain rfl := Except.ok.inj husText
    obtain ⟨rfl, rfl⟩ := Prod.mk.inj (Except.ok.inj h)
    have hfraction : Fraction g₁.logTimeZone time _ := ⟨rfl, hus⟩
    exact ⟨hrefresh, hlength, _, hfraction, stream_data hlength hfraction.le⟩
  · rintro ⟨hrefresh, hlength, us, hus, rfl⟩
    refine ⟨(LogStream.init.append g'.tTime).append us, ?_, stream_data hlength hus.le⟩
    rw [formatTime, hrefresh, ok_bind]
    dsimp only
    rw [hus.text, ensure_of _ hus.length, ok_bind,
      T_of_length hlength, ok_bind, T_of_length hus.length]
    rfl

theorem refresh_of_ne {g : Globals} {seconds : ℤ} {tm : Tm} (hne : seconds ≠ g.tLastSecond)
    (htm : brokenDown g.logTimeZone seconds = .ok tm) (hlength : (timeText tm).length = 17) :
    refresh g seconds = .ok { g with tTime := timeText tm, tLastSecond := seconds } := by
  rw [refresh, if_pos hne, htm, ok_bind]
  dsimp only
  rw [ensure_of _ hlength, ok_bind, List.take_of_length_le (by omega)]
  rfl

theorem refresh_of_eq {g : Globals} {seconds : ℤ} (h : seconds = g.tLastSecond) :
    refresh g seconds = .ok g := if_neg (not_not_intro h)

theorem of_refresh {g g' : Globals} {seconds : ℤ} (hne : seconds ≠ g.tLastSecond)
    (h : refresh g seconds = .ok g') :
    ∃ tm, brokenDown g.logTimeZone seconds = .ok tm ∧ (timeText tm).length = 17 ∧
      g' = { g with tTime := timeText tm, tLastSecond := seconds } := by
  rw [refresh, if_pos hne] at h
  obtain ⟨tm, htm, h⟩ := of_bind h
  obtain ⟨hlength, h⟩ := of_ensure_bind h
  obtain rfl := Except.ok.inj h
  refine ⟨tm, htm, hlength, ?_⟩
  rw [List.take_of_length_le (by omega)]

/-! ### From scratch -/

/-- What a thread writes that has not logged before. -/
def scratch (zone : TimeZone) (time : ℤ) : Except Fault (List UInt8) := do
  let (stream, _) ← formatTime (.init zone) time .init
  return stream.buffer.data

/-- The text of the time in the zone, and the microseconds. -/
theorem scratch_iff {zone : TimeZone} {time : ℤ} {text : List UInt8} (htime : secondsOf time ≠ 0) :
    scratch zone time = .ok text ↔
      ∃ tm us, brokenDown zone (secondsOf time) = .ok tm ∧ (timeText tm).length = 17 ∧
        Fraction zone time us ∧ text = timeText tm ++ us := by
  constructor
  · intro h
    obtain ⟨⟨stream, g'⟩, hformat, h⟩ := of_bind h
    obtain ⟨hrefresh, -, us, hus, htext⟩ :=
      formatTime_iff.mp ⟨stream, hformat, Except.ok.inj h⟩
    obtain ⟨tm, htm, hlength, rfl⟩ := of_refresh htime hrefresh
    exact ⟨tm, us, htm, hlength, hus, htext⟩
  · rintro ⟨tm, us, htm, hlength, hus, htext⟩
    rw [htext]
    have hrefresh : refresh (.init zone) (secondsOf time) = _ := refresh_of_ne htime htm hlength
    obtain ⟨stream, hformat, hdata⟩ :=
      formatTime_iff.mpr ⟨hrefresh, hlength, us, hus, rfl⟩
    rw [scratch, hformat, ok_bind]
    exact congrArg Except.ok hdata

example : scratch ⟨none⟩ 172800000000 = .ok (ascii "19700103 00:00:00.000000Z ") := rfl

/-! ### Times that can be formatted -/

/-- Two days after the epoch, in microseconds. -/
def twoDays : ℤ := 172800000000

/-- The start of the year 9999, in microseconds. -/
def year9999 : ℤ := 253370764800000000

theorem secondsOf_eq {time : ℤ} (h : twoDays ≤ time) : secondsOf time = time / 1000000 := by
  rw [twoDays] at h
  rw [secondsOf, kMicroSecondsPerSecond, Int.tdiv_eq_ediv_of_nonneg (by omega)]
  rfl

theorem secondsOf_ne_zero {time : ℤ} (h : twoDays ≤ time) : secondsOf time ≠ 0 := by
  rw [secondsOf_eq h]
  rw [twoDays] at h
  omega

theorem length_padded {width : ℕ} {fill : UInt8} {text : List UInt8} (h : text.length ≤ width) :
    (padded width fill text).length = width := by
  rw [padded, List.length_append, List.length_replicate, Nat.sub_add_cancel h]

/-- The year lies between those that the two days start. -/
theorem year_mem {n : ℤ} (hlow : 719163 ≤ n) (hhigh : n < 3652060) :
    1970 ≤ (Gregorian.ofOrdinal n).year ∧ (Gregorian.ofOrdinal n).year < 10000 := by
  have hfirst : (Gregorian.newYear 1970).ordinal = 719163 := by decide
  have hlast : (Gregorian.newYear 10000).ordinal = 3652060 := by decide
  have hn := Gregorian.ordinal_ofOrdinal n
  constructor
  · by_contra hyear
    have hlt : Gregorian.ofOrdinal n < Gregorian.newYear 1970 :=
      Gregorian.lt_iff.mpr (.inl (Int.not_le.mp hyear))
    have := Gregorian.ordinal_strictMono hlt
    omega
  · by_contra hyear
    have hle : Gregorian.newYear 10000 ≤ Gregorian.ofOrdinal n := by
      rw [← not_lt, Gregorian.lt_iff]
      have hday := (Gregorian.ofOrdinal n).day_mem
      have hmonth := (Gregorian.ofOrdinal n).month_mem
      simp only [Gregorian.newYear]
      omega
    have := Gregorian.ordinal_strictMono.monotone hle
    omega

theorem length_timeText {t : ℤ} (hlow : 0 ≤ t) (hhigh : t < 253402300800) :
    (timeText (Tm.gmtime t)).length = 17 := by
  have h := gmtime_twoDigits t
  have hyear := year_mem (n := t / 86400 + Tm.epoch) (by rw [Tm.epoch]; omega)
    (by rw [Tm.epoch]; omega)
  have hvalue : (Tm.gmtime t).tmYear + 1900 = (Gregorian.ofOrdinal (t / 86400 + Tm.epoch)).year :=
    Int.sub_add_cancel _ _
  have hnumeral : (intNumeral ((Tm.gmtime t).tmYear + 1900)).length ≤ 4 := by
    rw [hvalue, intNumeral, if_neg (by omega)]
    exact length_numeral_le (by decide) (by decide) (by omega)
  have hblank : (ascii " ").length = 1 := rfl
  have hcolon : (ascii ":").length = 1 := rfl
  simp only [timeText, spacePadded, List.length_append, hblank, hcolon,
    length_padded hnumeral, length_zeroPadded_two h.mon, length_zeroPadded_two h.mday,
    length_zeroPadded_two h.hour, length_zeroPadded_two h.min, length_zeroPadded_two h.sec]

theorem fraction_exists (zone : TimeZone) {time : ℤ} (h : 0 ≤ time) :
    ∃ us, Fraction zone time us := by
  refine ⟨_, rfl, ?_⟩
  have hlow : 0 ≤ time.tmod kMicroSecondsPerSecond := Int.tmod_nonneg _ h
  have hhigh : time.tmod kMicroSecondsPerSecond < 1000000 := Int.tmod_lt_of_pos _ (by decide)
  generalize time.tmod kMicroSecondsPerSecond = us at hlow hhigh
  have hnumeral : (numeral 10 us.natAbs).length ≤ 6 :=
    length_numeral_le (by decide) (by decide) (by omega)
  have hlength : (zeroPadded 6 us).length = 6 := by
    rw [zeroPadded, if_neg (by omega), length_padded hnumeral]
  rw [microsecondsText]
  split <;> simp only [List.length_append, hlength] <;> rfl

/-- There is a text for every time from two days after the epoch to the year 9999, in every zone
that has an offset for it of at most a day. -/
theorem scratch_exists {zone : TimeZone} {time off : ℤ} (hlow : twoDays ≤ time)
    (hhigh : time < year9999) (hoff : offset zone (secondsOf time) = .ok off)
    (hday : -86400 ≤ off ∧ off ≤ 86400) : ∃ text, scratch zone time = .ok text := by
  have hseconds := secondsOf_eq hlow
  have hne := secondsOf_ne_zero hlow
  rw [twoDays] at hlow
  rw [year9999] at hhigh
  obtain ⟨tm, htm⟩ := brokenDown_of_offset hoff
  obtain ⟨off', hoff', htext⟩ := timeText_brokenDown htm
  obtain rfl : off = off' := Except.ok.inj (hoff.symm.trans hoff')
  have hnonneg : 0 ≤ time := by omega
  obtain ⟨us, hus⟩ := fraction_exists zone hnonneg
  have hlength : (timeText tm).length = 17 := by
    rw [htext]
    exact length_timeText (by omega) (by omega)
  exact ⟨_, (scratch_iff hne).mpr ⟨tm, us, htm, hlength, hus, rfl⟩⟩

end Muduo.Base.Logger

namespace Muduo.System.Stamping

open Library Base Net Logger

/-! ### Runs -/

/-- The time is at least two days after the epoch, and there is a text for it in the zone in
force. -/
def Legal (s : State) : Label → Prop
  | .log time => twoDays ≤ time ∧ ∃ text, scratch s.globals.logTimeZone time = .ok text
  | .setTimeZone _ => True

/-- In the second of the last record, the zone in force has the offset of the one `t_time` was
filled in. -/
def Steady (s : State) : Label → Prop
  | .log time => secondsOf time = s.globals.tLastSecond →
      offset s.filledIn (secondsOf time) = offset s.globals.logTimeZone (secondsOf time)
  | .setTimeZone _ => True

/-- Every record has the text that is obtained from scratch. -/
def Exact (s : State) : Prop := ∀ r ∈ s.records, scratch r.zone r.time = .ok r.text

/-- `t_time` holds the last second as it was shown in the zone it was filled in. -/
structure Filled (s : State) : Prop where
  text : s.globals.tLastSecond ≠ 0 →
    ∃ tm, brokenDown s.filledIn s.globals.tLastSecond = .ok tm ∧ s.globals.tTime = timeText tm ∧
      (timeText tm).length = 17

theorem exact_append {records : List Record} {r : Record} {g : Globals} {zone : TimeZone}
    (h : ∀ r ∈ records, scratch r.zone r.time = .ok r.text) :
    Exact ⟨g, records ++ [r], zone⟩ ↔ scratch r.zone r.time = .ok r.text := by
  refine ⟨fun hall => hall r (List.mem_append_right _ List.mem_cons_self), fun hr x hx => ?_⟩
  rcases List.mem_append.mp hx with hx | hx
  · exact h x hx
  · exact List.mem_singleton.mp hx ▸ hr

/-- The state after a record, for what `formatTime` leaves. -/
theorem exec_log {s : State} {time : ℤ} {g' : Globals} {us : List UInt8}
    (hrefresh : refresh s.globals (secondsOf time) = .ok g') (hlength : g'.tTime.length = 17)
    (hus : Fraction g'.logTimeZone time us) :
    exec s (.log time) = .ok {
      globals := g'
      records := s.records ++ [⟨g'.tTime ++ us, time, s.globals.logTimeZone⟩]
      filledIn :=
        if secondsOf time = s.globals.tLastSecond then s.filledIn else s.globals.logTimeZone } := by
  obtain ⟨stream, hformat, hdata⟩ := formatTime_iff.mpr ⟨hrefresh, hlength, us, hus, rfl⟩
  rw [exec, hformat, ok_bind]
  dsimp only
  rw [hdata]
  rfl

/-- A record of a new second. -/
theorem log_new {s : State} {time : ℤ} (hlegal : Legal s (.log time))
    (hnew : secondsOf time ≠ s.globals.tLastSecond) :
    ∃ s', exec s (.log time) = .ok s' ∧ Filled s' ∧ (Exact s → Exact s') := by
  obtain ⟨htime, text, htext⟩ := hlegal
  obtain ⟨tm, us, htm, hlength, hus, heq⟩ := (scratch_iff (secondsOf_ne_zero htime)).mp htext
  rw [heq] at htext
  refine ⟨_, exec_log (refresh_of_ne hnew htm hlength) hlength hus,
    ⟨fun _ => ⟨tm, ?_, rfl, hlength⟩⟩, fun hexact => (exact_append hexact).mpr htext⟩
  rw [if_neg hnew]
  exact htm

/-- A record of the same second is right exactly if the offset has not changed. -/
theorem log_same {s : State} {time : ℤ} (hfilled : Filled s) (hlegal : Legal s (.log time))
    (hsame : secondsOf time = s.globals.tLastSecond) :
    ∃ s', exec s (.log time) = .ok s' ∧ Filled s' ∧
      (Exact s → (Exact s' ↔ Steady s (.log time))) := by
  obtain ⟨htime, text, htext⟩ := hlegal
  have hne := secondsOf_ne_zero htime
  obtain ⟨tm, us, htm, hlength, hus, heq⟩ := (scratch_iff hne).mp htext
  rw [heq] at htext
  obtain ⟨tm₀, htm₀, htTime, hlength₀⟩ := hfilled.text (hsame ▸ hne)
  refine ⟨_, exec_log (refresh_of_eq hsame) (htTime ▸ hlength₀) hus, ?_, fun hexact => ?_⟩
  · rw [if_pos hsame]
    exact ⟨hfilled.text⟩
  · rw [exact_append hexact, htext, htTime]
    rw [← hsame] at htm₀
    have hiff := timeText_eq_iff htm₀ htm hlength₀
    constructor
    · intro heq _
      exact hiff.mp (List.append_cancel_right (Except.ok.inj heq)).symm
    · intro hsteady
      rw [hiff.mpr (hsteady hsame)]

theorem step_exact {s : State} (l : Label) (hfilled : Filled s) (hlegal : Legal s l) :
    ∃ s', exec s l = .ok s' ∧ Filled s' ∧ (Exact s → (Exact s' ↔ Steady s l)) := by
  cases l with
  | setTimeZone tz => exact ⟨_, rfl, ⟨hfilled.text⟩, fun hexact => iff_of_true hexact trivial⟩
  | log time =>
      by_cases hsame : secondsOf time = s.globals.tLastSecond
      · exact log_same hfilled hlegal hsame
      · obtain ⟨s', hs', hfilled', hexact'⟩ := log_new hlegal hsame
        refine ⟨s', hs', hfilled', fun hexact => ?_⟩
        exact iff_of_true (hexact' hexact) fun h => absurd h hsame

/-- Every record has the text of its second in the zone in force, exactly if no record of the
same second as the one before is logged in a zone with another offset. -/
theorem stamps_exact_iff (zone : TimeZone) (ls : List Label)
    (hlegal : LegalRun exec Legal (init zone) ls) :
    (∀ xs, xs <+: ls → ∃ s, run exec (init zone) xs = .ok s ∧ Exact s) ↔
      LegalRun exec Steady (init zone) ls := by
  have hfilled : Filled (init zone) := ⟨fun h => absurd rfl h⟩
  have hexact : Exact (init zone) := fun r hr => absurd hr List.not_mem_nil
  exact run_good_iff (fun _ l hf hl => step_exact l hf hl) hfilled hexact hlegal

theorem legal_log {s : State} {time off : ℤ} (hlow : twoDays ≤ time) (hhigh : time < year9999)
    (hoff : offset s.globals.logTimeZone (secondsOf time) = .ok off)
    (hday : -86400 ≤ off ∧ off ≤ 86400) : Legal s (.log time) :=
  ⟨hlow, scratch_exists hlow hhigh hoff hday⟩

/-- Eight hours east of UTC. -/
def east : TimeZone := .ofOffset 28800 (ascii "CST")

/-- A zone is set after the first record. -/
def zoneChange (time : ℤ) : List Label := [.log twoDays, .setTimeZone east, .log time]

/-- The second record is of the next second. -/
theorem stamps_exact_iff_next :
    LegalRun exec Legal (init ⟨none⟩) (zoneChange (twoDays + 1000000)) ∧
      ((∀ xs, xs <+: zoneChange (twoDays + 1000000) →
          ∃ s, run exec (init ⟨none⟩) xs = .ok s ∧ Exact s) ↔
        LegalRun exec Steady (init ⟨none⟩) (zoneChange (twoDays + 1000000))) := by
  have hpath : ∃ s, Path exec Legal (init ⟨none⟩) (zoneChange (twoDays + 1000000)) s :=
    ⟨_, .cons (legal_log (by decide) (by decide) rfl (by decide)) rfl
      (.cons trivial rfl
        (.cons (legal_log (by decide) (by decide) rfl (by decide)) rfl (.nil _)))⟩
  obtain ⟨s, hpath⟩ := hpath
  exact ⟨hpath.legal, stamps_exact_iff ⟨none⟩ _ hpath.legal⟩

/-- The second record is of the same second, and shows the time of UTC as local time. -/
theorem stale_stamp :
    ∃ s, Path exec Legal (init ⟨none⟩) (zoneChange twoDays) s ∧ ¬ Exact s := by
  refine ⟨_, .cons (legal_log (by decide) (by decide) rfl (by decide)) rfl
    (.cons trivial rfl
      (.cons (legal_log (by decide) (by decide) rfl (by decide)) rfl (.nil _))), fun hexact => ?_⟩
  have hlast := hexact ⟨ascii "19700103 00:00:00.000000 ", twoDays, east⟩
    (List.mem_cons_of_mem _ List.mem_cons_self)
  have htext : scratch east twoDays = .ok (ascii "19700103 08:00:00.000000 ") := rfl
  rw [htext] at hlast
  exact absurd (Except.ok.inj hlast) (by decide)

end Muduo.System.Stamping
