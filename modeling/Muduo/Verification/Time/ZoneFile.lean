import Muduo.Verification.Time.Lookup

/-! What a zone file must hold for the object made from it to be usable. -/

namespace Muduo.Base.TimeZone

open Library

/-- The `int32_t` at an offset of a file. -/
def int32At (content : List UInt8) (k : ℕ) : ℤ := signed 32 (ofBytes ((content.drop k).take 4))

/-- The byte at an offset of a file. -/
def byteAt (content : List UInt8) (k : ℕ) : ℕ := ofBytes ((content.drop k).take 1)

def timecnt (content : List UInt8) : ℤ := int32At content 32

def typecnt (content : List UInt8) : ℤ := int32At content 36

def charcnt (content : List UInt8) : ℤ := int32At content 40

/-- Where the type indices begin, behind the header and the times of the transitions. -/
def indexStart (content : List UInt8) : ℕ := 44 + 4 * (timecnt content).toNat

/-- Where the local-time records begin. -/
def recordStart (content : List UInt8) : ℕ := indexStart content + (timecnt content).toNat

/-- The header is good and the first local-time record is complete. If all of them are, the
transitions refer to them, and the count of the abbreviations' characters is not negative. -/
structure WellIndexed (content : List UInt8) : Prop where
  head : content.take 4 = magic
  timecnt_nonneg : 0 ≤ timecnt content
  typecnt_pos : 0 < typecnt content
  record : recordStart content + 6 ≤ content.length
  indices : recordStart content + 6 * (typecnt content).toNat ≤ content.length →
    0 ≤ charcnt content ∧ ∀ i < (timecnt content).toNat,
      byteAt content (indexStart content + i) < (typecnt content).toNat

/-! ### Reading -/

section Reading

variable {α β : Type} {x : Reading α} {g : α → Reading β} {f f' : File}

theorem run_bind_of_ok {a : α} (h : x.run f = .ok a f') : (x >>= g).run f = (g a).run f' := by
  rw [EStateM.run_bind, h]

theorem run_bind_of_error {stop : Stop} (h : x.run f = .error stop f') :
    (x >>= g).run f = .error stop f' := by
  rw [EStateM.run_bind, h]

theorem expect_run {p : Prop} [Decidable p] (h : p) : (expect p).run f = .ok () f := by
  rw [expect, if_pos h]
  rfl

theorem expect_run_not {p : Prop} [Decidable p] (h : ¬ p) :
    (expect p).run f = .error .logicError f := by
  rw [expect, if_neg h]
  rfl

variable {content : List UInt8} {data : Data} {k : ℕ}

/-- Reading `n` bytes from the offset `k`. -/
theorem fread_run (n : ℕ) : (fread n).run ⟨content.drop k, data⟩ =
    .ok ((content.drop k).take n) ⟨content.drop (k + n), data⟩ := by
  rw [← List.drop_drop]
  rfl

theorem length_take_drop {n : ℕ} (h : k + n ≤ content.length) :
    ((content.drop k).take n).length = n := by
  rw [List.length_take, List.length_drop]
  omega

theorem length_take_drop_ne {n : ℕ} (hk : k ≤ content.length) (h : content.length < k + n) :
    ((content.drop k).take n).length ≠ n := by
  rw [List.length_take, List.length_drop]
  omega

/-- What a reader of `w` bytes does at any offset of the file: it leaves the object alone, and
throws when the bytes are not all there. -/
structure Reads (content : List UInt8) (read : Reading α) (w : ℕ) (val : ℕ → α) : Prop where
  run : ∀ k data, k + w ≤ content.length →
    read.run ⟨content.drop k, data⟩ = .ok (val k) ⟨content.drop (k + w), data⟩
  short : ∀ k data, k ≤ content.length → content.length < k + w →
    ∃ rest, read.run ⟨content.drop k, data⟩ = .error .logicError ⟨rest, data⟩

theorem readBytes_reads (content : List UInt8) (n : ℕ) :
    Reads content (readBytes n) n (fun k => (content.drop k).take n) := by
  have hread : readBytes n = do
      let buf ← fread n
      expect (buf.length = n)
      return buf := by
    rw [readBytes, if_neg (Int.not_lt.mpr (Int.natCast_nonneg n)), Int.toNat_natCast]
  rw [hread]
  constructor
  · intro k data h
    refine (run_bind_of_ok (fread_run n)).trans ?_
    exact (run_bind_of_ok (expect_run (length_take_drop h))).trans rfl
  · intro k data hk h
    refine ⟨content.drop (k + n), (run_bind_of_ok (fread_run n)).trans ?_⟩
    exact run_bind_of_error (expect_run_not (length_take_drop_ne hk h))

theorem readInt32_reads (content : List UInt8) : Reads content readInt32 4 (int32At content) where
  run k data h := by
    refine (run_bind_of_ok (fread_run 4)).trans ?_
    exact (run_bind_of_ok (expect_run (length_take_drop h))).trans rfl
  short k data hk h := by
    refine ⟨content.drop (k + 4), (run_bind_of_ok (fread_run 4)).trans ?_⟩
    exact run_bind_of_error (expect_run_not (length_take_drop_ne hk h))

theorem readUInt8_reads (content : List UInt8) : Reads content readUInt8 1 (byteAt content) where
  run k data h := by
    refine (run_bind_of_ok (fread_run 1)).trans ?_
    exact (run_bind_of_ok (expect_run (length_take_drop h))).trans rfl
  short k data hk h := by
    refine ⟨content.drop (k + 1), (run_bind_of_ok (fread_run 1)).trans ?_⟩
    exact run_bind_of_error (expect_run_not (length_take_drop_ne hk h))

/-- A loop over records of `w` bytes. -/
theorem Reads.times {read : Reading α} {val : ℕ → α} {w : ℕ} (h : Reads content read w val)
    (n : ℕ) : Reads content (times n read) (w * n)
      (fun k => (List.range n).map fun i => val (k + w * i)) := by
  have hsum : ∀ n k, k + w + w * n = k + w * (n + 1) := fun n k => by
    rw [Nat.mul_succ, Nat.add_assoc, Nat.add_comm w]
  induction n with
  | zero => exact ⟨fun k data _ => rfl, fun k data hk hlt => absurd hk (Nat.not_le.mpr hlt)⟩
  | succ n ih =>
      constructor
      · intro k data hlen
        have hrest := ih.run (k + w) data (hsum n k ▸ hlen)
        rw [hsum n k] at hrest
        refine (run_bind_of_ok (h.run k data (by rw [← hsum n k] at hlen; omega))).trans ?_
        refine (run_bind_of_ok hrest).trans ?_
        rw [List.range_succ_eq_map, List.map_cons, List.map_map]
        simp only [Function.comp_def, ← hsum _ k]
        rfl
      · intro k data hk hlen
        by_cases hfirst : k + w ≤ content.length
        · obtain ⟨rest, hrest⟩ := ih.short (k + w) data hfirst (hsum n k ▸ hlen)
          refine ⟨rest, (run_bind_of_ok (h.run k data hfirst)).trans ?_⟩
          exact run_bind_of_error hrest
        · obtain ⟨rest, hrest⟩ := h.short k data hk (Nat.lt_of_not_le hfirst)
          exact ⟨rest, run_bind_of_error hrest⟩

/-- The object with more local-time types. -/
def Data.addTypes (data : Data) (ls : List Localtime) : Data :=
  { data with localtimes := data.localtimes ++ ls }

theorem readLocaltime_run (data : Data) (h : k + 6 ≤ content.length) :
    ∃ l, readLocaltime.run ⟨content.drop k, data⟩ =
      .ok () ⟨content.drop (k + 6), data.addTypes [l]⟩ := by
  refine ⟨⟨int32At content k, byteAt content (k + 4) ≠ 0, byteAt content (k + 5)⟩, ?_⟩
  refine (run_bind_of_ok ((readInt32_reads content).run k data (by omega))).trans ?_
  refine (run_bind_of_ok ((readUInt8_reads content).run _ data (by omega))).trans ?_
  refine (run_bind_of_ok ((readUInt8_reads content).run _ data (by omega))).trans ?_
  rfl

/-- A record that is cut off leaves the object as it is. -/
theorem readLocaltime_short (data : Data) (hk : k ≤ content.length)
    (h : content.length < k + 6) :
    ∃ rest, readLocaltime.run ⟨content.drop k, data⟩ = .error .logicError ⟨rest, data⟩ := by
  have hint := readInt32_reads content
  have hbyte := readUInt8_reads content
  by_cases hoffset : k + 4 ≤ content.length
  · by_cases hdst : k + 4 + 1 ≤ content.length
    · obtain ⟨rest, hrest⟩ := hbyte.short (k + 4 + 1) data hdst (by omega)
      refine ⟨rest, (run_bind_of_ok (hint.run k data hoffset)).trans ?_⟩
      refine (run_bind_of_ok (hbyte.run _ data hdst)).trans ?_
      exact run_bind_of_error hrest
    · obtain ⟨rest, hrest⟩ := hbyte.short (k + 4) data hoffset (Nat.lt_of_not_le hdst)
      refine ⟨rest, (run_bind_of_ok (hint.run k data hoffset)).trans ?_⟩
      exact run_bind_of_error hrest
  · obtain ⟨rest, hrest⟩ := hint.short k data hk (Nat.lt_of_not_le hoffset)
    exact ⟨rest, run_bind_of_error hrest⟩

/-- The loop over the local-time records, which may be cut off. -/
theorem readTypes_run (content : List UInt8) (n k : ℕ) (data : Data) (hk : k ≤ content.length) :
    ∃ ls : List Localtime, (ls ≠ [] ↔ 0 < n ∧ k + 6 ≤ content.length) ∧
    ((k + 6 * n ≤ content.length ∧ ls.length = n ∧
      ∃ xs, (times n readLocaltime).run ⟨content.drop k, data⟩ =
        .ok xs ⟨content.drop (k + 6 * n), data.addTypes ls⟩) ∨
    (content.length < k + 6 * n ∧
      ∃ rest, (times n readLocaltime).run ⟨content.drop k, data⟩ =
        .error .logicError ⟨rest, data.addTypes ls⟩)) := by
  induction n generalizing k data with
  | zero =>
      have hnil : data.addTypes [] = data := by rw [Data.addTypes, List.append_nil]
      exact ⟨[], by simp, .inl ⟨hk, rfl, [], by rw [hnil]; rfl⟩⟩
  | succ n ih =>
      by_cases hrecord : k + 6 ≤ content.length
      · obtain ⟨l, hl⟩ := readLocaltime_run data hrecord
        obtain ⟨ls, -, hrest⟩ := ih (k + 6) (data.addTypes [l]) hrecord
        have hadd : (data.addTypes [l]).addTypes ls = data.addTypes (l :: ls) := by
          rw [Data.addTypes, Data.addTypes, Data.addTypes, List.append_assoc, List.singleton_append]
        rw [hadd, show k + 6 + 6 * n = k + 6 * (n + 1) by omega] at hrest
        refine ⟨l :: ls, iff_of_true (List.cons_ne_nil l ls) ⟨n.succ_pos, hrecord⟩, ?_⟩
        rcases hrest with ⟨hlen, hcount, xs, hrun⟩ | ⟨hlen, rest, hrun⟩
        · refine .inl ⟨hlen, by rw [List.length_cons, hcount], () :: xs, ?_⟩
          refine (run_bind_of_ok hl).trans ?_
          exact (run_bind_of_ok hrun).trans rfl
        · refine .inr ⟨hlen, rest, (run_bind_of_ok hl).trans ?_⟩
          exact run_bind_of_error hrun
      · obtain ⟨rest, hshort⟩ := readLocaltime_short data hk (Nat.lt_of_not_le hrecord)
        refine ⟨[], iff_of_false (fun h => h rfl) (fun h => hrecord h.2), .inr ⟨by omega, rest, ?_⟩⟩
        rw [Data.addTypes, List.append_nil]
        exact run_bind_of_error hshort

/-- The object with more transitions. -/
def Data.addTransitions (data : Data) (ts : List Transition) : Data :=
  { data with transitions := data.transitions ++ ts }

/-- One more transition, whose type is there. -/
theorem addTransition_run (rest : List UInt8) (data : Data) (trans : ℤ) {localIdx : ℕ}
    {l : Localtime} (h : data.localtimes[localIdx]? = some l) :
    (addTransition trans localIdx).run ⟨rest, data⟩ =
      .ok () ⟨rest, data.addTransitions [⟨trans, trans + l.gmtOffset, localIdx⟩]⟩ := by
  have hget : (get : Reading File).run ⟨rest, data⟩ = .ok ⟨rest, data⟩ ⟨rest, data⟩ := rfl
  refine (run_bind_of_ok hget).trans ?_
  simp only [h]
  rfl

/-- The loop over the transitions, whose types are all there. -/
theorem addTransitions_run (rest : List UInt8) (pairs : List (ℤ × ℕ)) (data : Data)
    (h : ∀ p ∈ pairs, p.2 < data.localtimes.length) :
    ∃ ts, (pairs.forM fun p => addTransition p.1 p.2).run ⟨rest, data⟩ =
      .ok () ⟨rest, data.addTransitions ts⟩ ∧
      ∀ t ∈ ts, t.localtimeIdx < data.localtimes.length := by
  induction pairs generalizing data with
  | nil =>
      refine ⟨[], ?_, nofun⟩
      rw [Data.addTransitions, List.append_nil]
      rfl
  | cons p pairs ih =>
      obtain ⟨trans, localIdx⟩ := p
      have hidx : localIdx < data.localtimes.length := h _ List.mem_cons_self
      obtain ⟨l, hl⟩ : ∃ l, data.localtimes[localIdx]? = some l :=
        ⟨_, List.getElem?_eq_getElem hidx⟩
      obtain ⟨ts, hts, hall⟩ := ih (data.addTransitions [⟨trans, trans + l.gmtOffset, localIdx⟩])
        fun p hp => h p (List.mem_cons_of_mem _ hp)
      refine ⟨⟨trans, trans + l.gmtOffset, localIdx⟩ :: ts, ?_, ?_⟩
      · refine (run_bind_of_ok (addTransition_run rest data trans hl)).trans (hts.trans ?_)
        rw [Data.addTransitions, Data.addTransitions, Data.addTransitions, List.append_assoc,
          List.singleton_append]
      · intro t ht
        rcases List.mem_cons.mp ht with rfl | ht
        · exact hidx
        · exact hall t ht

/-- A transition whose type is not there. -/
theorem addTransitions_fault (rest : List UInt8) (pairs : List (ℤ × ℕ)) (data : Data)
    (h : ∃ p ∈ pairs, data.localtimes.length ≤ p.2) :
    ∃ f, (pairs.forM fun p => addTransition p.1 p.2).run ⟨rest, data⟩ =
      .error (.fault .localtimes) f := by
  induction pairs generalizing data with
  | nil =>
      obtain ⟨p, hp, -⟩ := h
      cases hp
  | cons q pairs ih =>
      obtain ⟨trans, localIdx⟩ := q
      cases hl : data.localtimes[localIdx]? with
      | none =>
          have hget : (get : Reading File).run ⟨rest, data⟩ = .ok ⟨rest, data⟩ ⟨rest, data⟩ := rfl
          refine ⟨⟨rest, data⟩, run_bind_of_error ((run_bind_of_ok hget).trans ?_)⟩
          simp only [hl]
          rfl
      | some l =>
          obtain ⟨p, hp, hidx⟩ := h
          have htail : p ∈ pairs := by
            rcases List.mem_cons.mp hp with rfl | hp
            · exact absurd (List.getElem?_eq_some_iff.mp hl).1 (Nat.not_lt.mpr hidx)
            · exact hp
          obtain ⟨f, hf⟩ := ih (data.addTransitions [⟨trans, trans + l.gmtOffset, localIdx⟩])
            ⟨p, htail, hidx⟩
          exact ⟨f, (run_bind_of_ok (addTransition_run rest data trans hl)).trans hf⟩

/-- The times of the transitions of a file and their type indices, as the two loops read them. -/
def transitionPairs (content : List UInt8) : List (ℤ × ℕ) :=
  ((List.range (timecnt content).toNat).map fun i => int32At content (44 + 4 * i)).zip
    ((List.range (timecnt content).toNat).map fun i => byteAt content (indexStart content + 1 * i))

theorem forall_transitionPairs {n : ℕ} : (∀ p ∈ transitionPairs content, p.2 < n) ↔
    ∀ i < (timecnt content).toNat, byteAt content (indexStart content + i) < n := by
  have hsnd : (transitionPairs content).map Prod.snd = (List.range (timecnt content).toNat).map
      fun i => byteAt content (indexStart content + 1 * i) := List.map_snd_zip (by simp)
  have hall : (∀ j ∈ (transitionPairs content).map Prod.snd, j < n) ↔
      ∀ p ∈ transitionPairs content, p.2 < n := List.forall_mem_map
  rw [← hall, hsnd, List.forall_mem_map]
  simp only [List.mem_range, Nat.one_mul]

/-- Reading ends without a fault, with an object that satisfies `P`. -/
def Ends (P : Data → Prop) : EStateM.Result Stop File Unit → Prop
  | .ok _ f => P f.data
  | .error .logicError f => P f.data
  | .error (.fault _) _ => False

variable {P : Data → Prop}

theorem Ends.imp {Q : Data → Prop} {r : EStateM.Result Stop File Unit} (h : Ends P r)
    (hPQ : ∀ data, P data → Q data) : Ends Q r := by
  cases r with
  | ok x f => exact hPQ _ h
  | error stop f =>
      cases stop with
      | logicError => exact hPQ _ h
      | fault fault => exact h.elim

theorem Ends.bind {x : Reading α} {g : α → Reading Unit} {a : α} (hx : x.run f = .ok a f')
    (h : Ends P ((g a).run f')) : Ends P ((x >>= g).run f) := by
  rw [run_bind_of_ok hx]
  exact h

theorem Ends.stop {x : Reading α} {g : α → Reading Unit} {stop : Stop}
    (hx : x.run f = .error stop f') (h : Ends P (.error stop f')) :
    Ends P ((x >>= g).run f) := by
  rw [run_bind_of_error hx]
  exact h

/-- Where the object so far does not satisfy `P`, the bytes must be there. -/
theorem Ends.of_reads {x : Reading α} {val : ℕ → α} {w : ℕ} {g : α → Reading Unit}
    (h : Ends P ((x >>= g).run ⟨content.drop k, data⟩)) (hP : ¬ P data)
    (hx : Reads content x w val) (hk : k ≤ content.length) :
    k + w ≤ content.length ∧ Ends P ((g (val k)).run ⟨content.drop (k + w), data⟩) := by
  by_cases hlen : k + w ≤ content.length
  · rw [run_bind_of_ok (hx.run k data hlen)] at h
    exact ⟨hlen, h⟩
  · obtain ⟨rest, hrest⟩ := hx.short k data hk (Nat.lt_of_not_le hlen)
    rw [run_bind_of_error hrest] at h
    exact absurd h hP

theorem Ends.of_expect {p : Prop} [Decidable p] {g : Unit → Reading Unit}
    (h : Ends P ((expect p >>= g).run f)) (hP : ¬ P f.data) : p ∧ Ends P ((g ()).run f) := by
  by_cases hp : p
  · rw [run_bind_of_ok (expect_run hp)] at h
    exact ⟨hp, h⟩
  · rw [run_bind_of_error (expect_run_not hp)] at h
    exact absurd h hP

/-- There is a type for the times before the first transition. -/
def Typed (data : Data) : Prop := data.localtimes ≠ []

/-- The object can be used: every lookup finds its elements. -/
structure Usable (data : Data) : Prop where
  nonempty : Typed data
  indices : ∀ t ∈ data.transitions, t.localtimeIdx < data.localtimes.length

/-- The last part of the block that is tried, behind the transitions. -/
def readAbbreviation (charcnt : ℤ) : Reading Unit := do
  let abbreviation ← readBytes charcnt
  modify fun f => { f with data := { f.data with abbreviation := abbreviation } }

/-- The part of the block behind the local-time records. -/
def readRest (pairs : List (ℤ × ℕ)) (charcnt : ℤ) : Reading Unit := do
  pairs.forM fun p => addTransition p.1 p.2
  readAbbreviation charcnt

section Rest

variable {rest : List UInt8} {pairs : List (ℤ × ℕ)} {charcnt : ℤ}

theorem fread_rest (n : ℕ) (f : File) :
    (fread n).run f = .ok (f.rest.take n) ⟨f.rest.drop n, f.data⟩ := rfl

theorem readAbbreviation_usable (hcharcnt : 0 ≤ charcnt) (h : Usable f.data) :
    Ends Usable ((readAbbreviation charcnt).run f) := by
  rw [readAbbreviation, readBytes, if_neg (Int.not_lt.mpr hcharcnt), bind_assoc]
  refine .bind (fread_rest charcnt.toNat f) ?_
  rw [bind_assoc]
  by_cases hlen : (f.rest.take charcnt.toNat).length = charcnt.toNat
  · exact .bind (expect_run hlen) ⟨h.nonempty, h.indices⟩
  · exact .stop (expect_run_not hlen) h

theorem of_readAbbreviation (h : Ends Typed ((readAbbreviation charcnt).run f)) :
    0 ≤ charcnt ∧ Typed f.data := by
  rw [readAbbreviation, readBytes] at h
  by_cases hcharcnt : charcnt < 0
  · rw [if_pos hcharcnt] at h
    exact h.elim
  · rw [if_neg hcharcnt, bind_assoc, run_bind_of_ok (fread_rest charcnt.toNat f), bind_assoc] at h
    refine ⟨Int.not_lt.mp hcharcnt, ?_⟩
    by_cases hlen : (f.rest.take charcnt.toNat).length = charcnt.toNat
    · rw [run_bind_of_ok (expect_run hlen)] at h
      exact h
    · rw [run_bind_of_error (expect_run_not hlen)] at h
      exact h

theorem readRest_usable (htypes : data.localtimes ≠ []) (hnone : data.transitions = [])
    (hpairs : ∀ p ∈ pairs, p.2 < data.localtimes.length) (hcharcnt : 0 ≤ charcnt) :
    Ends Usable ((readRest pairs charcnt).run ⟨rest, data⟩) := by
  obtain ⟨ts, hts, hin⟩ := addTransitions_run rest pairs data hpairs
  refine .bind hts (readAbbreviation_usable hcharcnt ⟨htypes, ?_⟩)
  change ∀ t ∈ data.transitions ++ ts, t.localtimeIdx < data.localtimes.length
  rw [hnone]
  exact hin

theorem of_readRest (h : Ends Typed ((readRest pairs charcnt).run ⟨rest, data⟩)) :
    (∀ p ∈ pairs, p.2 < data.localtimes.length) ∧ 0 ≤ charcnt ∧ Typed data := by
  by_cases hpairs : ∀ p ∈ pairs, p.2 < data.localtimes.length
  · obtain ⟨ts, hts, -⟩ := addTransitions_run rest pairs data hpairs
    rw [readRest, run_bind_of_ok hts] at h
    exact ⟨hpairs, of_readAbbreviation h⟩
  · push Not at hpairs
    obtain ⟨f, hf⟩ := addTransitions_fault rest pairs data hpairs
    rw [readRest, run_bind_of_error hf] at h
    exact h.elim

end Rest

theorem readZone_usable (h : WellIndexed content) :
    Ends Usable (readZone.run ⟨content, .empty⟩) := by
  have hlen := h.record
  have hint := readInt32_reads content
  have hbyte := readUInt8_reads content
  rw [recordStart, indexStart] at hlen
  rw [readZone]
  refine .bind ((readBytes_reads content 4).run 0 _ (by omega)) ?_
  refine .bind (expect_run h.head) ?_
  refine .bind ((readBytes_reads content 1).run _ _ (by omega)) ?_
  refine .bind ((readBytes_reads content 15).run _ _ (by omega)) ?_
  refine .bind (hint.run _ _ (by omega)) ?_
  refine .bind (hint.run _ _ (by omega)) ?_
  refine .bind (hint.run _ _ (by omega)) ?_
  refine .bind (hint.run _ _ (by omega)) ?_
  refine .bind (hint.run _ _ (by omega)) ?_
  refine .bind (hint.run _ _ (by omega)) ?_
  refine .bind (expect_run h.timecnt_nonneg) ?_
  refine .bind ((hint.times (timecnt content).toNat).run 44 _ (by omega)) ?_
  refine .bind ((hbyte.times (timecnt content).toNat).run (indexStart content) _
    (by rw [indexStart]; omega)) ?_
  rw [Nat.one_mul]
  obtain ⟨ls, hne, hls⟩ := readTypes_run content (typecnt content).toNat (recordStart content)
    .empty (by rw [recordStart, indexStart]; omega)
  have htypes : ls ≠ [] := hne.mpr ⟨Int.lt_toNat.mpr h.typecnt_pos, h.record⟩
  rcases hls with ⟨hall, hcount, xs, hrun⟩ | ⟨-, rest, hrun⟩
  · obtain ⟨hcharcnt, hindices⟩ := h.indices hall
    refine .bind hrun ?_
    rw [← hcount] at hindices
    exact readRest_usable htypes rfl (forall_transitionPairs.mpr hindices) hcharcnt
  · exact .stop hrun ⟨htypes, nofun⟩

/-- Reading that ends with a type has found a file that is well indexed. -/
theorem wellIndexed_of_readZone (h : Ends Typed (readZone.run ⟨content, .empty⟩)) :
    WellIndexed content := by
  have hempty : ¬ Typed .empty := fun h => h rfl
  have hint := readInt32_reads content
  have hbyte := readUInt8_reads content
  rw [readZone] at h
  obtain ⟨hlen, h⟩ := h.of_reads (k := 0) hempty (readBytes_reads content 4) (Nat.zero_le _)
  obtain ⟨hhead, h⟩ := h.of_expect hempty
  obtain ⟨hlen, h⟩ := h.of_reads hempty (readBytes_reads content 1) hlen
  obtain ⟨hlen, h⟩ := h.of_reads hempty (readBytes_reads content 15) hlen
  obtain ⟨hlen, h⟩ := h.of_reads hempty hint hlen
  obtain ⟨hlen, h⟩ := h.of_reads hempty hint hlen
  obtain ⟨hlen, h⟩ := h.of_reads hempty hint hlen
  obtain ⟨hlen, h⟩ := h.of_reads hempty hint hlen
  obtain ⟨hlen, h⟩ := h.of_reads hempty hint hlen
  obtain ⟨hlen, h⟩ := h.of_reads hempty hint hlen
  obtain ⟨htimecnt, h⟩ := h.of_expect hempty
  obtain ⟨hlen, h⟩ := h.of_reads hempty (hint.times (timecnt content).toNat) hlen
  obtain ⟨hlen, h⟩ := h.of_reads hempty (hbyte.times (timecnt content).toNat) hlen
  rw [Nat.one_mul] at hlen h
  obtain ⟨ls, hne, hls⟩ := readTypes_run content (typecnt content).toNat (recordStart content)
    .empty hlen
  have htyped : Typed (Data.empty.addTypes ls) →
      0 < typecnt content ∧ recordStart content + 6 ≤ content.length := fun h =>
    (hne.mp h).imp_left Int.lt_toNat.mp
  rcases hls with ⟨-, hcount, xs, hrun⟩ | ⟨hcut, rest, hrun⟩
  · have h := (congrArg (Ends Typed) (run_bind_of_ok hrun)).mp h
    obtain ⟨hindices, hcharcnt, htypes⟩ := of_readRest h
    obtain ⟨htypecnt, hrecord⟩ := htyped htypes
    have hall := forall_transitionPairs.mp hindices
    exact ⟨hhead, htimecnt, htypecnt, hrecord, fun _ => ⟨hcharcnt, hcount ▸ hall⟩⟩
  · have h := (congrArg (Ends Typed) (run_bind_of_error hrun)).mp h
    obtain ⟨htypecnt, hrecord⟩ := htyped h
    exact ⟨hhead, htimecnt, htypecnt, hrecord, fun hall => absurd hall (Nat.not_le.mpr hcut)⟩

end Reading

/-! ### Looking up -/

section Lookup

variable {data : Data}

theorem Usable.findLocaltime (h : Usable data) (sentry : Transition) (comp : Comp) :
    ∃ l, findLocaltime data sentry comp = .ok l := by
  obtain ⟨k, hk, heq, -⟩ := findLocaltime_typeAfter data sentry comp
  rw [heq]
  cases k with
  | zero =>
      obtain ⟨l, rest, hl⟩ := List.exists_cons_of_ne_nil h.nonempty
      exact ⟨l, Data.localtimeAt_of (by rw [hl]; rfl)⟩
  | succ k =>
      have ht := List.getElem?_eq_getElem hk
      have hidx := h.indices _ (List.mem_of_getElem? ht)
      exact ⟨_, (Data.typeAfter_succ ht).trans
        (Data.localtimeAt_of (List.getElem?_eq_getElem hidx))⟩

theorem Usable.toLocalTime (h : Usable data) (seconds : ℤ) :
    ∃ tm, toLocalTime ⟨some data⟩ seconds = .ok tm := by
  obtain ⟨l, hl⟩ := h.findLocaltime ⟨seconds, 0, 0⟩ ⟨true⟩
  rw [TimeZone.toLocalTime, deref, ok_bind]
  simp only [hl, ok_bind]
  exact ⟨_, rfl⟩

theorem Usable.fromLocalTime (h : Usable data) (localTm : Tm) :
    ∃ t, fromLocalTime ⟨some data⟩ localTm = .ok t := by
  obtain ⟨l, hl⟩ := h.findLocaltime ⟨0, localTm.timegm, 0⟩ ⟨false⟩
  obtain ⟨tryTm, htry⟩ := h.toLocalTime (localTm.timegm - l.gmtOffset)
  rw [TimeZone.fromLocalTime, deref, ok_bind]
  simp only [hl, htry, ok_bind]
  split
  · split <;> exact ⟨_, rfl⟩
  · exact ⟨_, rfl⟩

end Lookup

/-- Nothing is found before the first transition if there is no type. -/
theorem typed_of_toLocalTime {data : Data}
    (h : ∀ seconds, ∃ tm, toLocalTime ⟨some data⟩ seconds = .ok tm) : Typed data := by
  obtain ⟨seconds, hseconds⟩ : ∃ seconds : ℤ,
      data.transitions.head?.all (Comp.less ⟨true⟩ ⟨seconds, 0, 0⟩ ·) = true := by
    cases data.transitions.head? with
    | none => exact ⟨0, rfl⟩
    | some t => exact ⟨t.gmttime - 1, by simp [Comp.less]⟩
  obtain ⟨tm, htm⟩ := h seconds
  rw [toLocalTime, deref, ok_bind] at htm
  obtain ⟨l, hl, -⟩ := of_bind htm
  rw [findLocaltime, if_pos hseconds, Data.localtimeAt] at hl
  intro hnil
  rw [hnil] at hl
  cases hl

/-- The constructor keeps what has been read, whether or not reading was broken off. -/
theorem ofFile_some_iff {Q : TimeZone → Prop} {content : List UInt8} :
    (∃ z, ofFile (some content) = .ok z ∧ Q z) ↔
      Ends (fun data => Q ⟨some data⟩) (readZone.run ⟨content, .empty⟩) := by
  rw [ofFile, readTimeZoneFile]
  have hok : ∀ data, (∃ z, (.ok ⟨some data⟩ : Except Fault TimeZone) = .ok z ∧ Q z) ↔
      Q ⟨some data⟩ := by
    simp
  cases readZone.run ⟨content, .empty⟩ with
  | ok x f => exact hok f.data
  | error stop f =>
      cases stop with
      | logicError => exact hok f.data
      | fault fault =>
          refine iff_of_false ?_ id
          rintro ⟨z, hz, -⟩
          cases hz

/-- The constructor returns, and the object is not valid or every conversion returns: no vector is
accessed out of range, and no array of negative size is made. -/
def Safe (zonefile : Option (List UInt8)) : Prop :=
  ∃ z, ofFile zonefile = .ok z ∧ (z.valid = false ∨
    (∀ seconds, ∃ tm, z.toLocalTime seconds = .ok tm) ∧
      ∀ localTm, ∃ t, z.fromLocalTime localTm = .ok t)

/-- A zone file is safe exactly if it is there and well indexed, wherever it is cut off. -/
theorem zone_file_usable (zonefile : Option (List UInt8)) :
    Safe zonefile ↔ ∃ content, zonefile = some content ∧ WellIndexed content := by
  cases zonefile with
  | none =>
      refine iff_of_false ?_ (by simp)
      rintro ⟨z, hz, hconversions⟩
      obtain rfl : (⟨some .empty⟩ : TimeZone) = z := Except.ok.inj hz
      rcases hconversions with hvalid | ⟨hlocal, -⟩
      · cases hvalid
      · exact typed_of_toLocalTime hlocal rfl
  | some content =>
      have hfile : (∃ c, some content = some c ∧ WellIndexed c) ↔ WellIndexed content := by simp
      rw [Safe, ofFile_some_iff, hfile]
      constructor
      · intro hends
        refine wellIndexed_of_readZone (hends.imp fun data hdata => ?_)
        rcases hdata with hvalid | ⟨hlocal, -⟩
        · cases hvalid
        · exact typed_of_toLocalTime hlocal
      · intro hindexed
        exact (readZone_usable hindexed).imp fun data hdata =>
          .inr ⟨hdata.toLocalTime, hdata.fromLocalTime⟩

/-- A file with one transition, to the local-time type `idx`, and one type. -/
def smallFile (idx : UInt8) : List UInt8 :=
  magic ++ List.replicate 28 0 ++ [0, 0, 0, 1, 0, 0, 0, 1, 0, 0, 0, 4] ++ [0, 0, 0, 9, idx] ++
    [0, 0, 14, 16, 0, 0] ++ [67, 69, 84, 0]

theorem smallFile_wellIndexed : WellIndexed (smallFile 0) where
  head := by decide
  timecnt_nonneg := by decide
  typecnt_pos := by decide
  record := by decide
  indices := by decide

theorem zone_file_usable_small :
    (∃ z, ofFile (some (smallFile 0)) = .ok z ∧ z.valid = true) ∧ Safe (some (smallFile 0)) :=
  ⟨by decide +kernel, (zone_file_usable _).mpr ⟨_, rfl, smallFile_wellIndexed⟩⟩

/-- A file that does not exist makes an object that claims to be valid and has no types, and
the only transition of the small file refers to a second type. -/
theorem zone_file_out_of_range :
    (∃ z, ofFile none = .ok z ∧ z.valid = true ∧ z.toLocalTime 0 = .error .localtimes) ∧
      ofFile (some (smallFile 1)) = .error .localtimes := by
  refine ⟨⟨⟨some .empty⟩, rfl, rfl, rfl⟩, eq_error_of_outcome ?_⟩
  decide +kernel

end Muduo.Base.TimeZone
