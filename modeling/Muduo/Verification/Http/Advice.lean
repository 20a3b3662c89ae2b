import Muduo.Net.Http.OnRequestAdvice
import Muduo.Verification.Http.Extent

/-! Which requests the callback of `shorturl` answers, and which of its CGI processes come to
`execl`. -/

namespace Muduo.Net

open Library ConfigServer Util

namespace OnRequestAdvice

/-! ### Numbers in headers -/

theorem isspace_of_isDigit {c : UInt8} (h : IsDigit c) : isspace c = false := by
  have hlow : 48 ≤ c.toNat := UInt8.le_iff_toNat_le.mp h.1
  rw [isspace, decide_eq_false_iff_not]
  rintro (rfl | ⟨-, hhigh⟩)
  · exact absurd hlow (by decide)
  · have hle : c.toNat ≤ 13 := UInt8.le_iff_toNat_le.mp hhigh
    omega

theorem takeWhile_numeral (n : ℕ) {rest : List UInt8} (hrest : ∀ c ∈ rest.head?, ¬ IsDigit c) :
    (numeral 10 n ++ rest).takeWhile (fun c => decide (IsDigit c)) = numeral 10 n := by
  rw [List.takeWhile_append_of_pos fun c hc => decide_eq_true (isDigit_of_mem_numeral hc)]
  cases rest with
  | nil => rw [List.takeWhile_nil, List.append_nil]
  | cons c rest =>
      have hc : ¬ IsDigit c := hrest c rfl
      rw [List.takeWhile_cons_of_neg (by simpa using hc), List.append_nil]

theorem exists_numeral_cons (n : ℕ) : ∃ c cs, numeral 10 n = c :: cs ∧ IsDigit c := by
  have hne : numeral 10 n ≠ [] := numeral_ne_nil (by decide) n
  obtain ⟨c, cs, hcs⟩ := List.exists_cons_of_ne_nil hne
  exact ⟨c, cs, hcs, isDigit_of_mem_numeral (hcs ▸ List.mem_cons_self)⟩

/-- The first character of a number is no blank. -/
theorem dropWhile_intNumeral (x : ℤ) (rest : List UInt8) :
    (intNumeral x ++ rest).dropWhile isspace = intNumeral x ++ rest := by
  rw [intNumeral]
  split
  · rfl
  · obtain ⟨c, cs, hcs, hc⟩ := exists_numeral_cons x.natAbs
    rw [hcs, List.cons_append,
      List.dropWhile_cons_of_neg (Bool.eq_false_iff.mp (isspace_of_isDigit hc))]

theorem sign_intNumeral (x : ℤ) (rest : List UInt8) :
    ∃ e : ℤ, sign (intNumeral x ++ rest) = (e, numeral 10 x.natAbs ++ rest) ∧ e * x.natAbs = x := by
  rw [intNumeral]
  split
  · exact ⟨-1, rfl, by omega⟩
  · obtain ⟨c, cs, hcs, hc⟩ := exists_numeral_cons x.natAbs
    have hminus : c ≠ 45 := by
      rintro rfl
      exact absurd hc (by decide)
    have hplus : c ≠ 43 := by
      rintro rfl
      exact absurd hc (by decide)
    refine ⟨1, ?_, by omega⟩
    rw [hcs, List.cons_append, sign, if_neg hminus, if_neg hplus]

/-- A number is read back, with blanks in front and other text behind it. -/
theorem stoi_intNumeral {x : ℤ} (h : FitsInt x) {blanks rest : List UInt8}
    (hblanks : ∀ c ∈ blanks, isspace c = true) (hrest : ∀ c ∈ rest.head?, ¬ IsDigit c) :
    stoi (blanks ++ (intNumeral x ++ rest)) = .ok x := by
  obtain ⟨e, hsign, hvalue⟩ := sign_intNumeral x rest
  rw [stoi, List.dropWhile_append_of_pos hblanks, dropWhile_intNumeral, hsign]
  simp only [takeWhile_numeral _ hrest, parseNat_decimal, hvalue]
  rw [ensure_of _ h]
  rfl

/-! ### The processes -/

theorem splitWord_plus (s : ℕ) : splitWord s 43 = .ok ((s + 1) % 2 ^ 16) := if_pos rfl

theorem splitWord_of_ne {c : UInt8} (h : c ≠ 43) (s : ℕ) :
    splitWord s c = ensure (s < 4) .words >>= fun _ => pure s := if_neg h

/-- The loop ends exactly if the index is below four at every character that is put into a word. -/
theorem foldlM_splitWord_iff {query : List UInt8} {s : ℕ} (hs : s < 2 ^ 16) :
    (∃ t, query.foldlM splitWord s = .ok t) ↔
      ∀ before c behind, query = before ++ c :: behind →
        c ≠ 43 → (s + before.count 43) % 2 ^ 16 < 4 := by
  induction query generalizing s with
  | nil => exact iff_of_true ⟨s, rfl⟩ fun before c behind heq => by simp at heq
  | cons d query ih =>
      rw [List.foldlM_cons, forall_eq_append_cons_iff
        (P := fun before c => c ≠ 43 → (s + before.count 43) % 2 ^ 16 < 4)]
      by_cases hd : d = 43
      · subst hd
        have hcount : ∀ before : List UInt8, (s + (43 :: before).count 43) % 2 ^ 16 =
            ((s + 1) % 2 ^ 16 + before.count 43) % 2 ^ 16 := by
          intro before
          rw [List.count_cons_self]
          omega
        simp only [hcount]
        rw [splitWord_plus, ok_bind, ih (Nat.mod_lt _ (by decide))]
        exact (and_iff_right fun h => absurd rfl h).symm
      · simp only [List.count_cons_of_ne hd]
        rw [splitWord_of_ne hd, ← ih hs, List.count_nil, Nat.add_zero, Nat.mod_eq_of_lt hs]
        by_cases hlt : s < 4
        · rw [ensure_of _ hlt]
          exact (and_iff_right fun _ => hlt).symm
        · rw [ensure_of_not _ hlt]
          exact iff_of_false not_exists_error_eq_ok fun h => hlt (h.1 hd)

theorem behindFirst_eq_ok {s t : List UInt8} {fault : ChildFault} :
    behindFirst s fault = .ok t ↔ s ≠ [] ∧ s.drop 1 = t :=
  ensure_pure_eq_ok

theorem sprintf_eq_ok {text t : List UInt8} :
    sprintf text = .ok t ↔ text.length < 255 ∧ text = t :=
  ensure_pure_eq_ok

theorem sprintf_method (req : HttpRequest) :
    sprintf (ascii "REQUEST_METHOD=" ++ req.methodString) =
      .ok (ascii "REQUEST_METHOD=" ++ req.methodString) :=
  sprintf_eq_ok.mpr ⟨OnRequestCallBack.methEnv_fits req, rfl⟩

theorem sprintf_length {x : ℤ} (h : FitsInt x) :
    sprintf (ascii "CONTENT_LENGTH=" ++ intNumeral x) =
      .ok (ascii "CONTENT_LENGTH=" ++ intNumeral x) := by
  have hname : (ascii "CONTENT_LENGTH=").length = 15 := by decide
  have hdigits : (numeral 10 x.natAbs).length ≤ 10 := by
    refine length_numeral_le (by decide) (by decide) ?_
    have habs : x.natAbs ≤ 2147483648 := by
      obtain ⟨hlow, hhigh⟩ := h
      omega
    exact habs.trans_lt (by decide)
  have hlength : (intNumeral x).length ≤ 11 := by
    rw [intNumeral]
    split
    · exact Nat.succ_le_succ hdigits
    · exact hdigits.trans (Nat.le_succ _)
  refine sprintf_eq_ok.mpr ⟨?_, rfl⟩
  rw [List.length_append]
  omega

/-- The process for a posted request comes to `execl` if there is a path, and runs what follows the
first character of it. -/
theorem postChild_eq {req : HttpRequest} {x : ℤ} (hx : FitsInt x) (hpath : req.path ≠ []) :
    postChild req x = .ok
      ⟨[ascii "REQUEST_METHOD=" ++ req.methodString, ascii "CONTENT_LENGTH=" ++ intNumeral x],
        cstr (req.path.drop 1), cstr (req.path.drop 1)⟩ := by
  rw [postChild, behindFirst_eq_ok.mpr ⟨hpath, rfl⟩, ok_bind, sprintf_method, ok_bind,
    sprintf_length hx]
  rfl

/-- The process for a query comes to `execl` exactly if the query has nine characters to drop, what
remains fits into its array, and fewer than four plus signs (modulo the range of the index) stand in
front of every other character. -/
theorem getChild_returns_iff (req : HttpRequest) :
    (∃ execl, getChild req = .ok execl) ↔
      req.path ≠ [] ∧ 9 ≤ req.query.length ∧ (cstr (req.query.drop 9)).length ≤ 241 ∧
        ∀ before c behind, req.query.drop 9 = before ++ c :: behind →
          c ≠ 43 → before.count 43 % 2 ^ 16 < 4 := by
  have hname : (ascii "QUERY_STRING=").length = 13 := by decide
  have hdrop : (req.query.drop 1).drop 8 = req.query.drop 9 := List.drop_drop
  have hwords := @foldlM_splitWord_iff (req.query.drop 9) 0 (by decide)
  simp only [Nat.zero_add] at hwords
  rw [← hwords]
  constructor
  · rintro ⟨execl, h⟩
    obtain ⟨path, hpath, h⟩ := of_bind h
    obtain ⟨query, hquery, h⟩ := of_bind h
    obtain ⟨hne, rfl⟩ := behindFirst_eq_ok.mp hquery
    obtain ⟨hsize, h⟩ := of_ensure_bind h
    obtain ⟨methEnv, -, h⟩ := of_bind h
    obtain ⟨queryEnv, hqueryEnv, h⟩ := of_bind h
    obtain ⟨s, hs, -⟩ := of_bind h
    have hfits := (sprintf_eq_ok.mp hqueryEnv).1
    have hpos := List.length_pos_iff.mpr hne
    rw [hdrop] at hs hfits
    rw [List.length_append] at hfits
    rw [List.length_drop] at hsize
    exact ⟨(behindFirst_eq_ok.mp hpath).1, by omega, by omega, s, hs⟩
  · rintro ⟨hpath, hsize, hfits, s, hs⟩
    have hne : req.query ≠ [] := List.length_pos_iff.mp (by omega)
    have hsize' : 8 ≤ (req.query.drop 1).length := by
      rw [List.length_drop]
      omega
    have hqueryEnv : (ascii "QUERY_STRING=" ++ cstr (req.query.drop 9)).length < 255 := by
      rw [List.length_append]
      omega
    rw [getChild, behindFirst_eq_ok.mpr ⟨hpath, rfl⟩, ok_bind, behindFirst_eq_ok.mpr ⟨hne, rfl⟩,
      ok_bind, ensure_of _ hsize', ok_bind, hdrop, sprintf_method, ok_bind,
      sprintf_eq_ok.mpr ⟨hqueryEnv, rfl⟩, ok_bind, hs, ok_bind]
    exact ⟨_, rfl⟩

/-! ### The callback -/

section Callback

variable (config : ConfigServer) (answers : Answers) {req : HttpRequest} (resp : HttpResponse)

theorem file_returns_iff :
    (∃ r, file config answers req resp = .ok r) ↔
      (∃ name, constructPath config req.path = .ok name) ∧ Dotted config req.path := by
  rw [file]
  cases hname : constructPath config req.path with
  | error fault =>
      exact iff_of_false not_exists_error_eq_ok fun h => not_exists_error_eq_ok h.1
  | ok name =>
      rw [and_iff_right ⟨name, rfl⟩, ← mem_text_iff hname, ← getExtent_returns_iff]
      simp only [Except.mapError, ok_bind]
      cases getExtent name.text with
      | ok r => exact iff_of_true ⟨_, rfl⟩ ⟨r, rfl⟩
      | error fault =>
          exact iff_of_false not_exists_error_eq_ok not_exists_error_eq_ok

/-- What a request must have for a response: a posted one its length, and one for a file a name
with an extension. -/
def Answerable (req : HttpRequest) : Prop :=
  match req.method with
  | .kGet =>
      req.query ≠ [] ∨ (∃ name, constructPath config req.path = .ok name) ∧ Dotted config req.path
  | .kPost => ∃ x, stoi (req.getHeader (ascii "Content-Length")) = .ok x
  | _ => True

theorem onRequestAdvice_file (hmethod : req.method = .kGet) (hquery : req.query = []) :
    onRequestAdvice config answers req resp = file config answers req resp := by
  have hcgi : (!cgi req) = true := by simp [cgi, hmethod, hquery]
  rw [onRequestAdvice, if_neg (fun h => h.1 hmethod), if_pos hcgi]

theorem onRequestAdvice_get (hmethod : req.method = .kGet) (hquery : req.query ≠ []) :
    onRequestAdvice config answers req resp = .ok (Cgi.runCgi answers (getChild req) resp) := by
  have hcgi : ¬ (!cgi req) = true := by simp [cgi, hmethod, hquery]
  have hpost : ¬ req.method = .kPost := by
    rw [hmethod]
    decide
  rw [onRequestAdvice, if_neg (fun h => h.1 hmethod), if_neg hcgi, if_neg hpost]

theorem onRequestAdvice_post (hmethod : req.method = .kPost) :
    onRequestAdvice config answers req resp =
      (stoi (req.getHeader (ascii "Content-Length"))).mapError .stoi >>= fun x =>
        pure (Cgi.runCgi answers (postChild req x) resp) := by
  have hcgi : ¬ (!cgi req) = true := by simp [cgi, hmethod]
  rw [onRequestAdvice, if_neg (fun h => h.2 hmethod), if_neg hcgi, if_pos hmethod]

theorem onRequestAdvice_returns_iff :
    (∃ r, onRequestAdvice config answers req resp = .ok r) ↔ Answerable config req := by
  rw [Answerable]
  cases hmethod : req.method with
  | kGet =>
      by_cases hquery : req.query = []
      · rw [onRequestAdvice_file config answers resp hmethod hquery,
          file_returns_iff config answers resp]
        exact (or_iff_right fun h => h hquery).symm
      · rw [onRequestAdvice_get config answers resp hmethod hquery]
        exact iff_of_true ⟨_, rfl⟩ (.inl hquery)
  | kPost =>
      rw [onRequestAdvice_post config answers resp hmethod]
      constructor
      · rintro ⟨r, hr⟩
        obtain ⟨x, hx, -⟩ := of_bind hr
        exact ⟨x, of_mapError hx⟩
      · rintro ⟨x, hx⟩
        rw [hx]
        exact ⟨_, rfl⟩
  | _ =>
      refine iff_of_true ⟨_, if_pos ?_⟩ trivial
      rw [hmethod]
      decide

/-- A posted request with its length starts the program that its path names. -/
theorem post_starts_program (hmethod : req.method = .kPost) {x : ℤ} (hx : FitsInt x)
    (hlength : req.headers (ascii "Content-Length") = some (intNumeral x)) (hpath : req.path ≠ []) :
    onRequestAdvice config answers req resp =
      .ok (Cgi.runCgi answers (.ok ⟨[ascii "REQUEST_METHOD=" ++ req.methodString,
        ascii "CONTENT_LENGTH=" ++ intNumeral x], cstr (req.path.drop 1), cstr (req.path.drop 1)⟩)
        resp) := by
  have hread : stoi (req.getHeader (ascii "Content-Length")) = .ok x := by
    rw [HttpRequest.getHeader, hlength, Option.getD_some, ← List.append_nil (intNumeral x)]
    exact @stoi_intNumeral x hx [] [] (by simp) (by simp)
  rw [onRequestAdvice_post config answers resp hmethod, hread, ← postChild_eq hx hpath]
  rfl

/-- A posted request without its length ends the server. -/
theorem post_without_length_throws (hmethod : req.method = .kPost)
    (hlength : req.headers (ascii "Content-Length") = none) :
    onRequestAdvice config answers req resp = .error (.stoi .invalidArgument) := by
  rw [onRequestAdvice_post config answers resp hmethod, HttpRequest.getHeader, hlength]
  rfl

/-- The name for a path of no known type. -/
theorem constructPath_of_cgi (config : ConfigServer) {path : List UInt8} (hne : path ≠ ascii "/")
    (htype : getContentType path = "cgi") :
    constructPath config path = .ok ⟨.root .html, config.htmlRoot ++ ascii "/404"⟩ := by
  unfold getContentType at htype
  split_ifs at htype with hpng hjpg hico hmp4 hmp3 hhtml
  iterate 6 exact absurd htype (by decide)
  simp [constructPath, hne, hpng, hjpg, hico, hmp4, hmp3, hhtml]

/-- Every request for something that is neither a picture, media nor a page lets the server read in
front of a string, unless there is a dot in the directory of pages. -/
theorem onRequestAdvice_outside (hmethod : req.method = .kGet) (hquery : req.query = [])
    (hne : req.path ≠ ascii "/") (htype : getContentType req.path = "cgi")
    (hdot : 46 ∉ config.htmlRoot) (hsize : config.htmlRoot.length + 4 < 2 ^ 64 - 1) :
    onRequestAdvice config answers req resp = .error (.getExtent (.outside (2 ^ 64 - 1))) := by
  have hname := constructPath_of_cgi config hne htype
  have hclean : 46 ∉ config.htmlRoot ++ ascii "/404" := by
    rw [List.mem_append, not_or]
    exact ⟨hdot, by decide⟩
  have hfull : config.htmlRoot ++ ascii "/404" ≠ [] :=
    List.append_ne_nil_of_right_ne_nil _ (by decide)
  have hextent := getExtent_outside hclean hfull (by
    rw [List.length_append]
    exact hsize)
  rw [onRequestAdvice_file config answers resp hmethod hquery, file, hname]
  simp only [Except.mapError, ok_bind, hextent, error_bind]

end Callback

end OnRequestAdvice

end Muduo.Net
