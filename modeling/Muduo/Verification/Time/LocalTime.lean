import Muduo.Verification.Time.Lookup

/-! Local time and back. The round trip fails exactly at the transitions that turn the clock
back otherwise than by an hour at the end of daylight saving time. -/

namespace Muduo.Base

open Library Gregorian

theorem Tm.timegm_gmtime (t : ℤ) : (Tm.gmtime t).timegm = t := by
  have hyear : (Tm.gmtime t).tmYear + 1900 = (ofOrdinal (t / 86400 + epoch)).year :=
    Int.sub_add_cancel _ _
  have hmon : (Tm.gmtime t).tmMon + 1 = (ofOrdinal (t / 86400 + epoch)).month :=
    Int.sub_add_cancel _ _
  have hmday : (Tm.gmtime t).tmMday = (ofOrdinal (t / 86400 + epoch)).day := rfl
  have hhour : (Tm.gmtime t).tmHour = t / 3600 % 24 := rfl
  have hmin : (Tm.gmtime t).tmMin = t / 60 % 60 := rfl
  have hsec : (Tm.gmtime t).tmSec = t % 60 := rfl
  simp only [timegm]
  rw [hyear, hmon, hmday, ordinal_firstOf, ordinal_ofOrdinal, hhour, hmin, hsec]
  omega

namespace TimeZone

/-- Zone data as the reader builds it, with transitions two days apart and offsets of less
than a day. -/
structure Regular (data : Data) : Prop where
  nonempty : data.localtimes ≠ []
  built : ∀ t ∈ data.transitions, ∃ l, data.localtimes[t.localtimeIdx]? = some l ∧
    t.localtime = t.gmttime + l.gmtOffset
  apart : data.transitions.Pairwise fun s t => s.gmttime + 172800 ≤ t.gmttime
  offsets : ∀ l ∈ data.localtimes, -86400 < l.gmtOffset ∧ l.gmtOffset < 86400

/-- A transition that turns the clock back ends daylight saving time, which is one hour. -/
def FallsBackAnHour (data : Data) : Prop :=
  ∀ k l l', k < data.transitions.length → data.typeAfter k = .ok l →
    data.typeAfter (k + 1) = .ok l' → l'.gmtOffset < l.gmtOffset →
    l.isDst = true ∧ l'.isDst = false ∧ l.gmtOffset = l'.gmtOffset + 3600

section Regular

variable {data : Data}

theorem Regular.typeAfter (h : Regular data) {k : ℕ} (hk : k ≤ data.transitions.length) :
    ∃ l, data.typeAfter k = .ok l ∧ l ∈ data.localtimes := by
  cases k with
  | zero =>
      obtain ⟨l, rest, hl⟩ := List.exists_cons_of_ne_nil h.nonempty
      exact ⟨l, Data.localtimeAt_of (by rw [hl]; rfl), by rw [hl]; exact List.mem_cons_self⟩
  | succ k =>
      have ht := List.getElem?_eq_getElem hk
      obtain ⟨l, hl, -⟩ := h.built _ (List.mem_of_getElem? ht)
      exact ⟨l, by rw [Data.typeAfter_succ ht, Data.localtimeAt_of hl], List.mem_of_getElem? hl⟩

/-- The local time at which a transition is entered is that of the type it starts. -/
theorem Regular.localtime_eq (h : Regular data) {k : ℕ} {t : Transition} {l : Localtime}
    (ht : data.transitions[k]? = some t) (hl : data.typeAfter (k + 1) = .ok l) :
    t.localtime = t.gmttime + l.gmtOffset := by
  obtain ⟨l', hl', hlocal⟩ := h.built t (List.mem_of_getElem? ht)
  rw [Data.typeAfter_succ ht, Data.localtimeAt_of hl'] at hl
  obtain rfl := Except.ok.inj hl
  exact hlocal

theorem Regular.gmt_ascending (h : Regular data) : Ascending data ⟨true⟩ :=
  h.apart.imp fun {s t} hst => show s.gmttime < t.gmttime by omega

theorem Regular.local_ascending (h : Regular data) : Ascending data ⟨false⟩ := by
  refine h.apart.imp_of_mem fun {s t} hs ht hst => ?_
  obtain ⟨l, hl, hlocal⟩ := h.built s hs
  obtain ⟨l', hl', hlocal'⟩ := h.built t ht
  have hoff := h.offsets l (List.mem_of_getElem? hl)
  have hoff' := h.offsets l' (List.mem_of_getElem? hl')
  change s.localtime < t.localtime
  omega

theorem Regular.exists_position (h : Regular data) (t : ℤ) :
    ∃ k l, Position data ⟨true⟩ t k ∧ data.typeAfter k = .ok l ∧ l ∈ data.localtimes := by
  obtain ⟨k, hk, -, hpos⟩ := findLocaltime_typeAfter data ⟨t, 0, 0⟩ ⟨true⟩
  obtain ⟨l, hl, hmem⟩ := h.typeAfter hk
  exact ⟨k, l, hpos h.gmt_ascending, hl, hmem⟩

/-- The local time of `t` under a type. -/
def localTm (t : ℤ) (l : Localtime) : Tm :=
  { Tm.gmtime (t + l.gmtOffset) with
    tmIsdst := if l.isDst then 1 else 0
    tmGmtoff := l.gmtOffset
    tmZone := .abbreviation l.arrbIdx }

theorem timegm_localTm (t : ℤ) (l : Localtime) : (localTm t l).timegm = t + l.gmtOffset :=
  Tm.timegm_gmtime _

theorem localTm_tmIsdst (t : ℤ) (l : Localtime) : (localTm t l).tmIsdst = 0 ↔ l.isDst = false := by
  rw [localTm]
  cases l.isDst <;> simp

variable {t : ℤ} {k : ℕ} {l l' : Localtime}

theorem Regular.toLocalTime (h : Regular data) (hpos : Position data ⟨true⟩ t k)
    (hl : data.typeAfter k = .ok l) : toLocalTime ⟨some data⟩ t = .ok (localTm t l) := by
  have hfind : findLocaltime data ⟨t, 0, 0⟩ ⟨true⟩ = .ok l :=
    (findLocaltime_of_position h.gmt_ascending ⟨t, 0, 0⟩ hpos).trans hl
  rw [TimeZone.toLocalTime, deref, ok_bind]
  simp only [hfind, ok_bind]
  rfl

/-- Back from a local time that lies in the type `l'` as local times are compared, and in the
same type as UTC. -/
theorem Regular.fromLocalTime (h : Regular data)
    (hpos : Position data ⟨false⟩ (t + l.gmtOffset) k) (hl' : data.typeAfter k = .ok l')
    (hpos' : Position data ⟨true⟩ (t + l.gmtOffset - l'.gmtOffset) k) :
    fromLocalTime ⟨some data⟩ (localTm t l) =
      .ok ((if l.isDst = true ∧ l'.isDst = false then t + l.gmtOffset - 3600
        else t + l.gmtOffset) - l'.gmtOffset) := by
  have hfind : findLocaltime data ⟨0, t + l.gmtOffset, 0⟩ ⟨false⟩ = .ok l' :=
    (findLocaltime_of_position h.local_ascending ⟨0, t + l.gmtOffset, 0⟩ hpos).trans hl'
  have hsame : t + l.gmtOffset - l'.gmtOffset + l'.gmtOffset = t + l.gmtOffset :=
    Int.sub_add_cancel _ _
  have hhour : (localTm (t + l.gmtOffset - l'.gmtOffset) l').tmHour = (localTm t l).tmHour := by
    simp only [localTm, hsame]
  have hmin : (localTm (t + l.gmtOffset - l'.gmtOffset) l').tmMin = (localTm t l).tmMin := by
    simp only [localTm, hsame]
  rw [TimeZone.fromLocalTime, deref, ok_bind]
  simp only [timegm_localTm, hfind, ok_bind, h.toLocalTime hpos' hl', hhour, hmin, and_true,
    localTm_tmIsdst, ne_eq]
  cases l.isDst <;> cases l'.isDst <;> rfl

theorem Regular.gmttime_le (h : Regular data) {i j : ℕ} {s u : Transition}
    (hs : data.transitions[i]? = some s) (hu : data.transitions[j]? = some u) (hij : i < j) :
    s.gmttime + 172800 ≤ u.gmttime := by
  obtain ⟨hi, rfl⟩ := List.getElem?_eq_some_iff.mp hs
  obtain ⟨hj, rfl⟩ := List.getElem?_eq_some_iff.mp hu
  exact List.pairwise_iff_getElem.mp h.apart i j hi hj hij

theorem Regular.offset_mem (h : Regular data) (hk : k ≤ data.transitions.length)
    (hl : data.typeAfter k = .ok l) : -86400 < l.gmtOffset ∧ l.gmtOffset < 86400 := by
  obtain ⟨l', hl', hmem⟩ := h.typeAfter hk
  rw [hl] at hl'
  obtain rfl := Except.ok.inj hl'
  exact h.offsets _ hmem

/-- As long as the local time is before that of the next transition, both searches agree. -/
theorem Regular.position_before (h : Regular data) (hpos : Position data ⟨true⟩ t k)
    (hl : data.typeAfter k = .ok l)
    (hbefore : ∀ u, data.transitions[k]? = some u → t + l.gmtOffset < u.localtime) :
    Position data ⟨false⟩ (t + l.gmtOffset) k := by
  refine ⟨hpos.le, fun j u hj hu => ?_, hbefore⟩
  subst hj
  have hpast : u.gmttime ≤ t := hpos.past j u rfl hu
  have hlocal := h.localtime_eq hu hl
  change u.localtime ≤ t + l.gmtOffset
  omega

/-- Otherwise the clock is about to be turned back, and the search by local time finds the
type after the transition. -/
theorem Regular.position_overlap (h : Regular data) (hpos : Position data ⟨true⟩ t k)
    (hl : data.typeAfter k = .ok l) (hl' : data.typeAfter (k + 1) = .ok l') {u : Transition}
    (hu : data.transitions[k]? = some u) (hoverlap : u.localtime ≤ t + l.gmtOffset) :
    Position data ⟨false⟩ (t + l.gmtOffset) (k + 1) ∧
      Position data ⟨true⟩ (t + l.gmtOffset - l'.gmtOffset) (k + 1) ∧
      l'.gmtOffset < l.gmtOffset := by
  have hk : k + 1 ≤ data.transitions.length := (List.getElem?_eq_some_iff.mp hu).1
  have hahead : t < u.gmttime := hpos.ahead u hu
  have hlocal := h.localtime_eq hu hl'
  have hoff := h.offset_mem (Nat.le_of_succ_le hk) hl
  have hoff' := h.offset_mem hk hl'
  have hthis : ∀ j v, k + 1 = j + 1 → data.transitions[j]? = some v → v = u := by
    intro j v hj hv
    obtain rfl : k = j := Nat.succ.inj hj
    exact Option.some.inj (hv.symm.trans hu)
  refine ⟨⟨hk, fun j v hj hv => ?_, fun v hv => ?_⟩, ⟨hk, fun j v hj hv => ?_, fun v hv => ?_⟩, ?_⟩
  · obtain rfl := hthis j v hj hv
    exact hoverlap
  · have hapart := h.gmttime_le hu hv (Nat.lt_succ_self k)
    obtain ⟨m, hm, hlocal'⟩ := h.built v (List.mem_of_getElem? hv)
    have hoff'' := h.offsets m (List.mem_of_getElem? hm)
    change t + l.gmtOffset < v.localtime
    omega
  · obtain rfl := hthis j v hj hv
    change v.gmttime ≤ t + l.gmtOffset - l'.gmtOffset
    omega
  · have hapart := h.gmttime_le hu hv (Nat.lt_succ_self k)
    change t + l.gmtOffset - l'.gmtOffset < v.gmttime
    omega
  · omega

/-- The last second before a transition. -/
theorem Regular.position_last (h : Regular data) {u : Transition}
    (hu : data.transitions[k]? = some u) : Position data ⟨true⟩ (u.gmttime - 1) k := by
  refine ⟨Nat.le_of_lt (List.getElem?_eq_some_iff.mp hu).1, fun j v hj hv => ?_, fun v hv => ?_⟩
  · have hapart := h.gmttime_le hv hu (by omega)
    change v.gmttime ≤ u.gmttime - 1
    omega
  · obtain rfl := Option.some.inj (hu.symm.trans hv)
    exact Int.sub_one_lt_iff.mpr (Int.le_refl _)

end Regular

/-- Every time comes back from its local time exactly if the clock is only turned back by an
hour at the end of daylight saving time. -/
theorem local_time_invertible_iff (data : Data) (h : Regular data) :
    (∀ t, ∃ tm, toLocalTime ⟨some data⟩ t = .ok tm ∧ fromLocalTime ⟨some data⟩ tm = .ok t) ↔
      FallsBackAnHour data := by
  constructor
  · intro hround k l l' hk hl hl' hback
    have hu := List.getElem?_eq_getElem hk
    have hpos := h.position_last hu
    have hlocal := h.localtime_eq hu hl'
    obtain ⟨hpos', hpos'', -⟩ := h.position_overlap hpos hl hl' hu (by omega)
    obtain ⟨tm, hto, hfrom⟩ := hround (data.transitions[k].gmttime - 1)
    rw [h.toLocalTime hpos hl] at hto
    obtain rfl := Except.ok.inj hto
    rw [h.fromLocalTime hpos' hl' hpos''] at hfrom
    have hvalue := Except.ok.inj hfrom
    split at hvalue
    · rename_i hdst
      exact ⟨hdst.1, hdst.2, by omega⟩
    · omega
  · intro hback t
    obtain ⟨k, l, hpos, hl, -⟩ := h.exists_position t
    refine ⟨localTm t l, h.toLocalTime hpos hl, ?_⟩
    by_cases hbefore : ∀ u, data.transitions[k]? = some u → t + l.gmtOffset < u.localtime
    · have hsame : t + l.gmtOffset - l.gmtOffset = t := Int.add_sub_cancel _ _
      have hno : ¬ (l.isDst = true ∧ l.isDst = false) := by
        rintro ⟨hdst, hstd⟩
        rw [hdst] at hstd
        cases hstd
      rw [h.fromLocalTime (h.position_before hpos hl hbefore) hl (by rw [hsame]; exact hpos),
        if_neg hno, hsame]
    · simp only [not_forall, not_lt] at hbefore
      obtain ⟨u, hu, hoverlap⟩ := hbefore
      have hk : k < data.transitions.length := (List.getElem?_eq_some_iff.mp hu).1
      obtain ⟨l', hl', -⟩ := h.typeAfter (Nat.succ_le_of_lt hk)
      obtain ⟨hpos', hpos'', hlt⟩ := h.position_overlap hpos hl hl' hu hoverlap
      obtain ⟨hdst, hstd, hhour⟩ := hback k l l' hk hl hl' hlt
      rw [h.fromLocalTime hpos' hl' hpos'', if_pos ⟨hdst, hstd⟩]
      exact congrArg Except.ok (by omega)

/-- A zone with one summer. -/
def oneSummer : Data where
  transitions := [⟨1000000, 1007200, 1⟩, ⟨2000000, 2003600, 0⟩]
  localtimes := [⟨3600, false, 0⟩, ⟨7200, true, 4⟩]
  abbreviation := []

theorem oneSummer_regular : Regular oneSummer where
  nonempty := by decide
  built := by
    intro t ht
    simp only [oneSummer, List.mem_cons, List.not_mem_nil, or_false] at ht
    rcases ht with rfl | rfl
    · exact ⟨⟨7200, true, 4⟩, rfl, rfl⟩
    · exact ⟨⟨3600, false, 0⟩, rfl, rfl⟩
  apart := by decide
  offsets := by decide

theorem oneSummer_fallsBackAnHour : FallsBackAnHour oneSummer := by
  intro k l l' hk hl hl' hlt
  have hk : k = 0 ∨ k = 1 := by
    change k < 2 at hk
    omega
  rcases hk with rfl | rfl
  · obtain rfl := Except.ok.inj hl
    obtain rfl := Except.ok.inj hl'
    exact absurd hlt (by decide)
  · obtain rfl := Except.ok.inj hl
    obtain rfl := Except.ok.inj hl'
    decide

/-- The hour that comes twice at the end of the summer. -/
theorem local_time_invertible_iff_oneSummer :
    Regular oneSummer ∧ FallsBackAnHour oneSummer ∧
      (∃ tm, toLocalTime ⟨some oneSummer⟩ 1999999 = .ok tm ∧
        fromLocalTime ⟨some oneSummer⟩ tm = .ok 1999999) ∧
      ∃ tm, toLocalTime ⟨some oneSummer⟩ 2000000 = .ok tm ∧
        fromLocalTime ⟨some oneSummer⟩ tm = .ok 2000000 := by
  have hround := (local_time_invertible_iff oneSummer oneSummer_regular).mpr
    oneSummer_fallsBackAnHour
  exact ⟨oneSummer_regular, oneSummer_fallsBackAnHour, hround _, hround _⟩

/-- A zone that gives up an hour of its standard time. -/
def standardShift : Data where
  transitions := [⟨1000000, 1000000, 1⟩]
  localtimes := [⟨3600, false, 0⟩, ⟨0, false, 4⟩]
  abbreviation := []

/-- The last second before the shift comes back as a time after it. -/
theorem standard_shift_not_inverted :
    Regular standardShift ∧
      ∃ tm, toLocalTime ⟨some standardShift⟩ 999999 = .ok tm ∧
        fromLocalTime ⟨some standardShift⟩ tm = .ok 1003599 := by
  refine ⟨⟨by decide, ?_, by decide, by decide⟩, by decide +kernel⟩
  intro t ht
  obtain rfl := List.mem_singleton.mp ht
  exact ⟨⟨0, false, 4⟩, rfl, rfl⟩

end TimeZone

end Muduo.Base
