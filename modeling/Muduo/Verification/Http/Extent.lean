import Muduo.Verification.Http.Targets

/-! The extension of a file name. `GetExtent` walks to the front of a name that has none. -/

namespace Muduo.Net

open Library ConfigServer

namespace Util

/-! ### The loop -/

theorem charAt_of_getElem? {path : List UInt8} {i : ℕ} {c : UInt8} (h : path[i]? = some c) :
    charAt path i = .ok c := by
  rw [charAt, h]

theorem extentLoop_of_eq {path : List UInt8} {i : ℕ} (h : charAt path i = .ok 46) (rounds : ℕ) :
    extentLoop path (rounds + 1) i = .ok (i, [i]) := by
  rw [extentLoop, h, ok_bind, if_pos rfl]
  rfl

theorem extentLoop_of_ne {path : List UInt8} {i : ℕ} {c : UInt8} (h : charAt path i = .ok c)
    (hne : c ≠ 46) (rounds : ℕ) :
    extentLoop path (rounds + 1) i =
      extentLoop path rounds (decrement i) >>= fun r => pure (r.1, i :: r.2) := by
  rw [extentLoop, h, ok_bind, if_neg hne]

/-- From a place behind the last dot the loop comes to it, and reads nothing outside. -/
theorem extentLoop_append {dir name : List UInt8} (h : 46 ∉ name) {k rounds : ℕ}
    (hk : k ≤ name.length) (hrounds : k < rounds) :
    ∃ reads, extentLoop (dir ++ 46 :: name) rounds (dir.length + k) = .ok (dir.length, reads) ∧
      ∀ i ∈ reads, i < (dir ++ 46 :: name).length := by
  have hget : ∀ j, (dir ++ 46 :: name)[dir.length + j]? = (46 :: name)[j]? := by
    intro j
    rw [List.getElem?_append_right (Nat.le_add_right _ _), Nat.add_sub_cancel_left]
  have hlt : ∀ j ≤ name.length, dir.length + j < (dir ++ 46 :: name).length := by
    intro j hj
    rw [List.length_append, List.length_cons]
    omega
  induction k generalizing rounds with
  | zero =>
      obtain ⟨rounds, rfl⟩ := Nat.exists_eq_add_of_lt hrounds
      refine ⟨[dir.length], extentLoop_of_eq (charAt_of_getElem? (hget 0)) _, fun i hi => ?_⟩
      rw [List.mem_singleton.mp hi]
      exact hlt 0 hk
  | succ k ih =>
      obtain ⟨rounds, rfl⟩ := Nat.exists_eq_add_of_lt hrounds
      have hchar := charAt_of_getElem? ((hget (k + 1)).trans (List.getElem?_eq_getElem hk))
      have hne : name[k] ≠ 46 := fun heq => h (heq ▸ List.getElem_mem hk)
      have hdec : decrement (dir.length + (k + 1)) = dir.length + k := if_neg (by omega)
      obtain ⟨reads, hloop, hreads⟩ := @ih (k + 1 + rounds) (by omega) (by omega)
      refine ⟨(dir.length + (k + 1)) :: reads, ?_, fun i hi => ?_⟩
      · rw [extentLoop_of_ne hchar hne, hdec, hloop]
        rfl
      · rcases List.mem_cons.mp hi with rfl | hi
        · exact hlt (k + 1) hk
        · exact hreads i hi

theorem charAt_ne {path : List UInt8} (h : 46 ∉ path) {i : ℕ} {c : UInt8}
    (hchar : charAt path i = .ok c) : c ≠ 46 := by
  rintro rfl
  rw [charAt] at hchar
  cases hget : path[i]? with
  | some c =>
      rw [hget] at hchar
      exact h (Except.ok.inj hchar ▸ List.mem_of_getElem? hget)
  | none =>
      simp only [hget] at hchar
      split at hchar
      · exact absurd (Except.ok.inj hchar) (by decide)
      · cases hchar

/-- Without a dot the loop is not left. -/
theorem extentLoop_of_not_mem {path : List UInt8} (h : 46 ∉ path) (rounds i : ℕ) :
    ∃ fault, extentLoop path rounds i = .error fault := by
  induction rounds generalizing i with
  | zero => exact ⟨_, rfl⟩
  | succ rounds ih =>
      cases hchar : charAt path i with
      | error fault => exact ⟨fault, by rw [extentLoop, hchar, error_bind]⟩
      | ok c =>
          obtain ⟨fault, hloop⟩ := ih (decrement i)
          exact ⟨fault, by rw [extentLoop_of_ne hchar (charAt_ne h hchar), hloop, error_bind]⟩

/-! ### Extensions -/

theorem getExtent_append {dir name : List UInt8} (h : 46 ∉ name) :
    ∃ reads, getExtent (dir ++ 46 :: name) = .ok (name, reads) ∧
      ∀ i ∈ reads, i < (dir ++ 46 :: name).length := by
  have hlength : (dir ++ 46 :: name).length = dir.length + name.length + 1 := by
    rw [List.length_append, List.length_cons, Nat.add_assoc]
  have hstart : decrement (dir ++ 46 :: name).length = dir.length + name.length := by
    rw [hlength]
    exact if_neg (Nat.succ_ne_zero _)
  obtain ⟨reads, hloop, hreads⟩ := @extentLoop_append dir name h name.length
    ((dir ++ 46 :: name).length + 1) (Nat.le_refl _) (by omega)
  refine ⟨reads, ?_, hreads⟩
  rw [getExtent, hstart, hloop, ok_bind, ← List.drop_drop, List.drop_left]
  rfl

theorem getExtent_of_not_mem {path : List UInt8} (h : 46 ∉ path) :
    ∃ fault, getExtent path = .error fault := by
  obtain ⟨fault, hloop⟩ := extentLoop_of_not_mem h (path.length + 1) (decrement path.length)
  exact ⟨fault, by rw [getExtent, hloop, error_bind]⟩

/-- The loop passes the front of a string without a dot. -/
theorem extentLoop_outside {path : List UInt8} (h : 46 ∉ path) (hsize : path.length < 2 ^ 64 - 1)
    {i rounds : ℕ} (hi : i < path.length) (hrounds : i + 1 < rounds) :
    extentLoop path rounds i = .error (.outside (2 ^ 64 - 1)) := by
  obtain ⟨rounds, rfl⟩ := Nat.exists_eq_add_of_lt hrounds
  have hchar := charAt_of_getElem? (List.getElem?_eq_getElem hi)
  rw [extentLoop_of_ne hchar (charAt_ne h hchar)]
  induction i generalizing rounds with
  | zero =>
      have hwrapped : charAt path (2 ^ 64 - 1) = .error (.outside (2 ^ 64 - 1)) := by
        rw [charAt, List.getElem?_eq_none (by omega)]
        exact if_neg (by omega)
      have hdec : decrement 0 = 2 ^ 64 - 1 := if_pos rfl
      rw [hdec, Nat.zero_add, Nat.add_comm 1 rounds, extentLoop, hwrapped, error_bind, error_bind]
  | succ i ih =>
      have hlt : i < path.length := by omega
      have hchar' := charAt_of_getElem? (List.getElem?_eq_getElem hlt)
      have hdec : decrement (i + 1) = i := if_neg (Nat.succ_ne_zero i)
      have hswap : i + 1 + 1 + rounds = i + 1 + rounds + 1 := by omega
      rw [hdec, hswap, extentLoop_of_ne hchar' (charAt_ne h hchar'),
        ih hlt _ (by omega) hchar', error_bind]

theorem getExtent_outside {path : List UInt8} (h : 46 ∉ path) (hne : path ≠ [])
    (hsize : path.length < 2 ^ 64 - 1) : getExtent path = .error (.outside (2 ^ 64 - 1)) := by
  have hpos := List.length_pos_iff.mpr hne
  have hdec : decrement path.length = path.length - 1 := if_neg (by omega)
  rw [getExtent, hdec, extentLoop_outside h hsize (by omega) (by omega), error_bind]

theorem getExtent_returns_iff {path : List UInt8} :
    (∃ r, getExtent path = .ok r) ↔ 46 ∈ path := by
  constructor
  · intro hreturns
    by_contra hnot
    obtain ⟨fault, hfault⟩ := getExtent_of_not_mem hnot
    rw [hfault] at hreturns
    exact not_exists_error_eq_ok hreturns
  · intro hmem
    obtain ⟨dir, name, rfl, hname⟩ := exists_eq_append_last hmem
    obtain ⟨reads, hreads, -⟩ := @getExtent_append dir name hname
    exact ⟨_, hreads⟩

/-! ### Names that are made from request paths -/

/-- There is a dot in the directory or in what is put behind it. Of pictures and media only what
follows the last slash is kept, and of pages everything. -/
def Dotted (config : ConfigServer) (path : List UInt8) : Prop :=
  path = ascii "/" ∨
    if contains path (ascii "jpg") || contains path (ascii "ico") ||
        contains path (ascii "png") then
      46 ∈ config.picRoot ∨ 46 ∈ path.rtakeWhile (· ≠ 47)
    else if contains path (ascii "mp4") || contains path (ascii "mp3") then
      46 ∈ config.mediaRoot ∨ 46 ∈ path.rtakeWhile (· ≠ 47)
    else
      46 ∈ config.htmlRoot ∨ contains path (ascii "html") = true ∧ 46 ∈ path

theorem rtakeWhile_append {dir name : List UInt8} (h : 47 ∉ name) :
    (dir ++ 47 :: name).rtakeWhile (· ≠ 47) = name := by
  have hall : ∀ x ∈ name.reverse, decide (x ≠ 47) = true := by
    intro x hx
    refine decide_eq_true ?_
    rintro rfl
    exact h (List.mem_reverse.mp hx)
  rw [List.rtakeWhile, List.reverse_append, List.reverse_cons, List.append_assoc,
    List.takeWhile_append_of_pos hall]
  simp

theorem mem_of_lastSegment {path segment : List UInt8} (h : lastSegment path = .ok segment) :
    46 ∈ segment ↔ 46 ∈ path.rtakeWhile (· ≠ 47) := by
  by_cases hslash : 47 ∈ path
  · obtain ⟨dir, name, rfl, hname⟩ := exists_eq_append_last hslash
    rw [lastSegment_append hname] at h
    rw [← Except.ok.inj h, rtakeWhile_append hname, List.mem_cons]
    exact or_iff_right (by decide)
  · rw [lastSegment, findLastOf_of_not_mem hslash] at h
    cases h

theorem mem_text_of_segment {root : Root} {dir path : List UInt8} {file : FileName}
    (h : (lastSegment path >>= fun temp => pure ⟨.root root, dir ++ temp⟩) = .ok file) :
    46 ∈ file.text ↔ 46 ∈ dir ∨ 46 ∈ path.rtakeWhile (· ≠ 47) := by
  obtain ⟨segment, hsegment, hfile⟩ := of_bind h
  rw [← Except.ok.inj hfile, List.mem_append, mem_of_lastSegment hsegment]

theorem mem_text_iff {config : ConfigServer} {path : List UInt8} {file : FileName}
    (h : constructPath config path = .ok file) : 46 ∈ file.text ↔ Dotted config path := by
  rw [constructPath] at h
  rw [Dotted]
  by_cases hindex : path = ascii "/"
  · rw [if_pos hindex] at h
    rw [← Except.ok.inj h]
    exact iff_of_true (List.mem_append_right _ (by decide)) (.inl hindex)
  rw [if_neg hindex] at h
  rw [or_iff_right hindex]
  split_ifs at h ⊢ with hpic hmedia hhtml
  · exact mem_text_of_segment h
  · exact mem_text_of_segment h
  · rw [← Except.ok.inj h, List.mem_append, and_iff_right hhtml]
  · rw [← Except.ok.inj h, List.mem_append]
    exact or_congr_right (iff_of_false (by decide) fun hmem => hhtml hmem.1)

/-- The extension of a name that was made from a request path is found, without a read outside the
name, exactly if there is a dot in the directory or in what is put behind it. -/
theorem extent_found_iff (config : ConfigServer) (path : List UInt8) (file : FileName)
    (hfile : constructPath config path = .ok file) :
    (∃ extent reads, getExtent file.text = .ok (extent, reads) ∧
      (∀ i ∈ reads, i < file.text.length) ∧
      ∀ dir name, file.text = dir ++ 46 :: name → 46 ∉ name → extent = name) ↔
      Dotted config path := by
  rw [← mem_text_iff hfile]
  constructor
  · rintro ⟨extent, reads, hextent, -⟩
    exact getExtent_returns_iff.mp ⟨_, hextent⟩
  · intro hmem
    obtain ⟨dir, name, htext, hname⟩ := exists_eq_append_last hmem
    obtain ⟨reads, hextent, hreads⟩ := @getExtent_append dir name hname
    rw [← htext] at hextent hreads
    refine ⟨name, reads, hextent, hreads, fun dir' name' htext' hname' => ?_⟩
    obtain ⟨reads', hextent', -⟩ := @getExtent_append dir' name' hname'
    rw [← htext', hextent] at hextent'
    exact congrArg Prod.fst (Except.ok.inj hextent')

theorem extent_found_iff_page :
    constructPath .default (ascii "/a.html") =
        .ok ⟨.root .html, ConfigServer.default.htmlRoot ++ ascii "/a.html"⟩ ∧
      ∃ extent reads, getExtent (ConfigServer.default.htmlRoot ++ ascii "/a.html") =
          .ok (extent, reads) ∧
        (∀ i ∈ reads, i < (ConfigServer.default.htmlRoot ++ ascii "/a.html").length) ∧
        ∀ dir name, ConfigServer.default.htmlRoot ++ ascii "/a.html" = dir ++ 46 :: name →
          46 ∉ name → extent = name :=
  have hfile : constructPath .default (ascii "/a.html") =
      .ok ⟨.root .html, ConfigServer.default.htmlRoot ++ ascii "/a.html"⟩ := by decide +kernel
  ⟨hfile, (extent_found_iff _ _ _ hfile).mpr ((mem_text_iff hfile).mp (by decide +kernel))⟩

/-- The parser accepts the target `/a`. The name that is made from it has no dot, and the loop reads
in front of it. -/
theorem extent_missed :
    ∃ b, (Buffer.init Buffer.kInitialSize).append (ascii "GET /a HTTP/1.1\r\n\r\n") = .ok b ∧
      ∃ t, HttpContext.parseRequest .init b = .ok t ∧ t.1 = true ∧ t.2.1.gotAll = true ∧
        ∃ file, constructPath .default t.2.1.request.path = .ok file ∧
          getExtent file.text = .error (.outside (2 ^ 64 - 1)) := by
  decide +kernel

end Util

end Muduo.Net
