import Muduo.Net.Http.OnRequestCallBack
import Muduo.Verification.Http.RoundTrip

/-! What the web server makes of a request target. -/

namespace Muduo.Net

open Library ConfigServer

namespace Util

/-! ### The last segment of a path -/

theorem findLastOf_of_not_mem {c : UInt8} {xs : List UInt8} (h : c ∉ xs) :
    findLastOf c xs = none := by
  induction xs with
  | nil => rfl
  | cons x xs ih =>
      rw [findLastOf, ih (List.not_mem_of_not_mem_cons h)]
      exact if_neg (Ne.symm (List.ne_of_not_mem_cons h))

theorem findLastOf_append {c : UInt8} {ys : List UInt8} (h : c ∉ ys) (xs : List UInt8) :
    findLastOf c (xs ++ c :: ys) = some xs.length := by
  induction xs with
  | nil =>
      rw [List.nil_append, findLastOf, findLastOf_of_not_mem h]
      exact if_pos rfl
  | cons x xs ih => rw [List.cons_append, findLastOf, ih, List.length_cons]

theorem lastSegment_append {name : List UInt8} (h : 47 ∉ name) (dir : List UInt8) :
    lastSegment (dir ++ 47 :: name) = .ok (47 :: name) := by
  rw [lastSegment, findLastOf_append h]
  exact congrArg Except.ok List.drop_left

/-- Without a slash the search gives `npos`, from which there is no rest. -/
theorem lastSegment_of_not_mem {path : List UInt8} (h : 47 ∉ path) :
    lastSegment path = .error .outOfRange := by
  rw [lastSegment, findLastOf_of_not_mem h]

/-- A path with a slash, cut at the last one. -/
theorem exists_lastSegment {path : List UInt8} (h : 47 ∈ path) :
    ∃ segment, lastSegment path = .ok segment := by
  obtain ⟨dir, name, rfl, hname⟩ := exists_eq_append_last h
  exact ⟨_, lastSegment_append hname dir⟩

/-! ### File names -/

/-- The texts by which `constructPath` recognises pictures and media. -/
def segmentTexts : List (List UInt8) :=
  [ascii "jpg", ascii "ico", ascii "png", ascii "mp4", ascii "mp3"]

theorem constructPath_of_slash (config : ConfigServer) {path : List UInt8} (h : 47 ∈ path) :
    ∃ file, constructPath config path = .ok file := by
  obtain ⟨segment, hsegment⟩ := exists_lastSegment h
  unfold constructPath
  rw [hsegment]
  split_ifs <;> exact ⟨_, rfl⟩

theorem constructPath_of_plain (config : ConfigServer) {path : List UInt8}
    (h : ∀ text ∈ segmentTexts, contains path text = false) :
    ∃ file, constructPath config path = .ok file := by
  have hjpg := h (ascii "jpg") (by decide)
  have hico := h (ascii "ico") (by decide)
  have hpng := h (ascii "png") (by decide)
  have hmp4 := h (ascii "mp4") (by decide)
  have hmp3 := h (ascii "mp3") (by decide)
  unfold constructPath
  simp only [hjpg, hico, hpng, hmp4, hmp3, Bool.or_self, Bool.false_eq_true, if_false]
  split_ifs <;> exact ⟨_, rfl⟩

theorem constructPath_throws (config : ConfigServer) {path : List UInt8} (hslash : 47 ∉ path)
    (htext : ∃ text ∈ segmentTexts, contains path text = true) :
    constructPath config path = .error .outOfRange := by
  have hne : path ≠ ascii "/" := by
    rintro rfl
    exact hslash (by decide)
  unfold constructPath
  rw [if_neg hne, lastSegment_of_not_mem hslash]
  by_cases hpic : (contains path (ascii "jpg") || contains path (ascii "ico") ||
      contains path (ascii "png")) = true
  · rw [if_pos hpic]
    rfl
  · have hmedia : (contains path (ascii "mp4") || contains path (ascii "mp3")) = true := by
      obtain ⟨text, hmem, hcontains⟩ := htext
      simp only [segmentTexts, List.mem_cons, List.not_mem_nil, or_false] at hmem
      rcases hmem with rfl | rfl | rfl | rfl | rfl <;> simp_all
    rw [if_neg hpic, if_pos hmedia]
    rfl

/-- There is a last segment to be cut off, or no need for it. -/
def Nameable (path : List UInt8) : Prop :=
  47 ∈ path ∨ ∀ text ∈ segmentTexts, contains path text = false

instance (path : List UInt8) : Decidable (Nameable path) := inferInstanceAs (Decidable (_ ∨ _))

theorem constructPath_returns_iff (config : ConfigServer) (path : List UInt8) :
    (∃ file, constructPath config path = .ok file) ↔ Nameable path := by
  constructor
  · intro hfile
    by_contra hbad
    obtain ⟨hslash, htexts⟩ := not_or.mp hbad
    have htext : ∃ text ∈ segmentTexts, contains path text = true := by
      simpa using htexts
    rw [constructPath_throws config hslash htext] at hfile
    exact not_exists_error_eq_ok hfile
  · rintro (hslash | hplain)
    · exact constructPath_of_slash config hslash
    · exact constructPath_of_plain config hplain

end Util

namespace OnRequestCallBack

open Util

/-- A request is handled without an exception exactly if it is redirected, or if its path has
a slash or none of the texts for pictures and media; the file name can be constructed exactly in
the last two cases. -/
theorem handler_does_not_throw (config : ConfigServer)
    (redirections : List UInt8 → Option (List UInt8)) (answers : Answers) (req : HttpRequest)
    (resp : HttpResponse) :
    ((∃ file, constructPath config req.path = .ok file) ↔ Nameable req.path) ∧
      ((∃ res, httpServerResponseGet config redirections answers req resp = .ok res) ↔
        redirections req.path ≠ none ∨ Nameable req.path) := by
  have hnamed := constructPath_returns_iff config req.path
  refine ⟨hnamed, ?_⟩
  rw [← hnamed, httpServerResponseGet]
  cases hredirect : redirections req.path with
  | some location => exact iff_of_true ⟨_, rfl⟩ (.inl nofun)
  | none =>
      cases constructPath config req.path with
      | error fault =>
          exact iff_of_false not_exists_error_eq_ok
            (not_or.mpr ⟨not_not.mpr rfl, not_exists_error_eq_ok⟩)
      | ok file => exact iff_of_true ⟨_, rfl⟩ (.inr ⟨file, rfl⟩)

/-- What the system answers when there are no files and nothing can be made. -/
def nothing : Answers where
  stat _ := -1
  fopen _ := false
  ifstream _ := none
  pipe _ := false
  fork := false
  cgiOutput := []

theorem handler_does_not_throw_picture :
    let req := { HttpRequest.init with path := ascii "/jpg" }
    Nameable req.path ∧ (∃ file, constructPath .default req.path = .ok file) ∧
      ∃ res, httpServerResponseGet .default redirections nothing req (.ctor false) = .ok res :=
  have hnameable : Nameable (ascii "/jpg") := .inl (by decide)
  have hboth := handler_does_not_throw .default redirections nothing
    { HttpRequest.init with path := ascii "/jpg" } (.ctor false)
  ⟨hnameable, hboth.1.mpr hnameable, hboth.2.mpr (.inr hnameable)⟩

/-- The parser accepts the target `jpg`, from which no file name can be made. -/
theorem handler_throws_without_slash :
    ∃ b, (Buffer.init Buffer.kInitialSize).append (ascii "GET jpg HTTP/1.1\r\n\r\n") = .ok b ∧
      ∃ t, HttpContext.parseRequest .init b = .ok t ∧ t.1 = true ∧ t.2.1.gotAll = true ∧
        constructPath .default t.2.1.request.path = .error .outOfRange := by
  decide +kernel

end OnRequestCallBack

/-! ### Extensions -/

namespace Util

/-- The extensions that the server knows. -/
inductive Extension where
  | png
  | jpg
  | ico
  | mp4
  | mp3
  | html
  deriving DecidableEq, Repr

namespace Extension

def text : Extension → List UInt8
  | .png => ascii "png"
  | .jpg => ascii "jpg"
  | .ico => ascii "ico"
  | .mp4 => ascii "mp4"
  | .mp3 => ascii "mp3"
  | .html => ascii "html"

/-- The type of the files with this extension. -/
def contentType : Extension → String
  | .png => "image/png"
  | .jpg => "image/jpg"
  | .ico => "image/x-icon"
  | .mp4 => "video/mpeg4"
  | .mp3 => "video/mpeg"
  | .html => "text/html"

/-- The directory of the files with this extension. -/
def root : Extension → Root
  | .png => .pic
  | .jpg => .pic
  | .ico => .pic
  | .mp4 => .media
  | .mp3 => .media
  | .html => .html

/-- The place of the extension among the tests of `getContentType`. -/
def rank : Extension → ℕ
  | .png => 0
  | .jpg => 1
  | .ico => 2
  | .mp4 => 3
  | .mp3 => 4
  | .html => 5

end Extension

/-- No extension that is looked for earlier than `e` occurs in the path. -/
def FirstFound (e : Extension) (path : List UInt8) : Prop :=
  ∀ e' : Extension, e'.rank < e.rank → contains path e'.text = false

theorem contentType_injective : Function.Injective Extension.contentType := by
  intro e e' h
  cases e <;> cases e' <;> first | rfl | exact absurd h (by decide)

/-- Of the extensions that occur in a path, one is looked for first. -/
theorem exists_firstFound {path : List UInt8} {e : Extension} (h : contains path e.text = true) :
    ∃ first : Extension, contains path first.text = true ∧ FirstFound first path ∧
      first.rank ≤ e.rank := by
  induction hn : e.rank using Nat.strongRecOn generalizing e with
  | ind n ih =>
      by_cases hfirst : FirstFound e path
      · exact ⟨e, h, hfirst, hn.le⟩
      · simp only [FirstFound, not_forall, Bool.not_eq_false] at hfirst
        obtain ⟨e', hrank, hfound⟩ := hfirst
        obtain ⟨first, hself, hfirst, hle⟩ := ih e'.rank (hn ▸ hrank) hfound rfl
        exact ⟨first, hself, hfirst, by omega⟩

theorem contains_of_suffix {path sub : List UInt8} (h : sub <:+ path) :
    contains path sub = true :=
  isSome_search_of_infix h.isInfix

section Classified

variable {e : Extension} {path : List UInt8}

/-- The first extension that is found decides on the type. -/
theorem getContentType_of_firstFound (hself : contains path e.text = true)
    (hfirst : FirstFound e path) : getContentType path = e.contentType := by
  have hpng := hfirst .png
  have hjpg := hfirst .jpg
  have hico := hfirst .ico
  have hmp4 := hfirst .mp4
  have hmp3 := hfirst .mp3
  unfold getContentType
  cases e <;> simp_all [Extension.rank, Extension.text, Extension.contentType]

/-- It also decides on the directory, under which comes the path or its last segment. -/
theorem constructPath_of_firstFound (config : ConfigServer) {dir name : List UInt8}
    (hpath : path = dir ++ 47 :: name) (hname : 47 ∉ name) (hne : path ≠ ascii "/")
    (hself : contains path e.text = true) (hfirst : FirstFound e path) :
    constructPath config path =
      .ok ⟨.root e.root, config.root e.root ++ if e = .html then path else 47 :: name⟩ := by
  have hsegment : lastSegment path = .ok (47 :: name) := hpath ▸ lastSegment_append hname dir
  have hpng := hfirst .png
  have hjpg := hfirst .jpg
  have hico := hfirst .ico
  have hmp4 := hfirst .mp4
  have hmp3 := hfirst .mp3
  unfold constructPath
  rw [if_neg hne, hsegment]
  cases e <;> simp_all [Extension.rank, Extension.text, Extension.root, ConfigServer.root]

/-- An extension that is looked for earlier gives another type. -/
theorem firstFound_of_getContentType (h : getContentType path = e.contentType) :
    FirstFound e path := by
  intro e' hrank
  by_contra hfound
  rw [Bool.not_eq_false] at hfound
  -- the first extension of all that are found decides on the type
  obtain ⟨first, hself, hfirst, hle⟩ := exists_firstFound hfound
  rw [getContentType_of_firstFound hself hfirst] at h
  obtain rfl := contentType_injective h
  omega

end Classified

/-- A file is classified by its extension exactly if none that is looked for earlier occurs
anywhere in its path. -/
theorem classified_by_extension (config : ConfigServer) (e : Extension)
    (path dir name : List UInt8) (hstart : path.head? = some 47)
    (hpath : path = dir ++ 47 :: name) (hname : 47 ∉ name) (hext : 46 :: e.text <:+ name) :
    (getContentType path = e.contentType ∧
      ∃ rest, constructPath config path =
        .ok ⟨.root e.root, config.root e.root ++ 47 :: rest⟩) ↔ FirstFound e path := by
  refine ⟨fun h => firstFound_of_getContentType h.1, fun hfirst => ?_⟩
  have hname' : name <:+ path := hpath ▸ (List.suffix_cons _ _).trans (List.suffix_append _ _)
  have hself : contains path e.text = true :=
    contains_of_suffix (((List.suffix_cons _ _).trans hext).trans hname')
  have hne : path ≠ ascii "/" := by
    rintro rfl
    have hlen := hname'.length_le
    have hext := hext.length_le
    have hslash := congrArg List.length hpath
    have hone : (ascii "/").length = 1 := by decide
    rw [List.length_append, List.length_cons] at hslash
    rw [List.length_cons] at hext
    omega
  refine ⟨getContentType_of_firstFound hself hfirst, ?_⟩
  rw [constructPath_of_firstFound config hpath hname hne hself hfirst]
  by_cases hhtml : e = .html
  · obtain ⟨rest, rfl⟩ := List.head?_eq_some_iff.mp hstart
    rw [if_pos hhtml]
    exact ⟨rest, rfl⟩
  · rw [if_neg hhtml]
    exact ⟨name, rfl⟩

theorem classified_by_extension_page :
    FirstFound .html (ascii "/a.b/page.html") ∧
      getContentType (ascii "/a.b/page.html") = "text/html" ∧
      ∃ rest, constructPath .default (ascii "/a.b/page.html") =
        .ok ⟨.root .html, ConfigServer.default.htmlRoot ++ 47 :: rest⟩ :=
  have hfirst : FirstFound .html (ascii "/a.b/page.html") := by
    intro e' _
    cases e' with
    | html => contradiction
    | _ => decide +kernel
  ⟨hfirst, (classified_by_extension .default .html _ (ascii "/a.b") (ascii "page.html") (by decide)
    (by decide) (by decide) (by decide)).mpr hfirst⟩

/-- A directory decides on the type of a page and on where the page is looked for. -/
theorem directory_decides_type :
    getContentType (ascii "/jpg/index.html") = "image/jpg" ∧
      constructPath .default (ascii "/jpg/index.html") =
        .ok ⟨.root .pic, ConfigServer.default.picRoot ++ ascii "/index.html"⟩ := by
  decide +kernel

end Util

/-! ### The environment of a CGI program -/

namespace OnRequestCallBack

open Util

theorem length_methodString_le (req : HttpRequest) : req.methodString.length ≤ 7 := by
  unfold HttpRequest.methodString
  cases req.method <;> decide

theorem methEnv_fits (req : HttpRequest) :
    (ascii "REQUEST_METHOD=" ++ req.methodString).length < 255 := by
  have hname : (ascii "REQUEST_METHOD=").length = 15 := by decide
  have hmethod := length_methodString_le req
  rw [List.length_append]
  omega

theorem queryEnv_fits_iff (query : List UInt8) :
    (ascii "QUERY_STRING=" ++ query).length < 255 ↔ query.length ≤ 241 := by
  have hname : (ascii "QUERY_STRING=").length = 13 := by decide
  rw [List.length_append]
  omega

/-- There is a query, of at most 241 characters behind its question mark. -/
def QueryFits (req : HttpRequest) : Prop :=
  req.query ≠ [] ∧ (cstr (req.query.drop 1)).length ≤ 241

instance (req : HttpRequest) : Decidable (QueryFits req) := inferInstanceAs (Decidable (_ ∧ _))

/-- The forked process comes to `execl` exactly if the query fits. -/
theorem cgiChild_eq_ok_iff {config : ConfigServer} {req : HttpRequest} {execl : Execl} :
    cgiChild config req = .ok execl ↔ QueryFits req ∧
      execl = ⟨ascii "REQUEST_METHOD=" ++ req.methodString,
        ascii "QUERY_STRING=" ++ cstr (req.query.drop 1),
        ⟨.root .src, config.srcRoot ++ req.path⟩, cstr (req.query.drop 1)⟩ := by
  rw [QueryFits, ← queryEnv_fits_iff]
  constructor
  · intro h
    obtain ⟨hquery, h⟩ := of_ensure_bind h
    obtain ⟨-, h⟩ := of_ensure_bind h
    obtain ⟨hfits, h⟩ := of_ensure_bind h
    exact ⟨⟨hquery, hfits⟩, (Except.ok.inj h).symm⟩
  · rintro ⟨⟨hquery, hfits⟩, rfl⟩
    simp only [cgiChild, ensure_of _ hquery, ensure_of _ (methEnv_fits req), ensure_of _ hfits,
      ok_bind]
    rfl

/-- The forked process starts the CGI program, with two texts that fit into their arrays, exactly
if there is a query of at most 241 characters behind its question mark; the text for the method
always fits. -/
theorem cgi_environment_fits (config : ConfigServer) (req : HttpRequest) :
    (∃ execl, cgiChild config req = .ok execl ∧
      execl.methEnv = ascii "REQUEST_METHOD=" ++ req.methodString ∧
      execl.queryEnv = ascii "QUERY_STRING=" ++ cstr (req.query.drop 1) ∧
      execl.methEnv.length + 1 ≤ 255 ∧ execl.queryEnv.length + 1 ≤ 255) ↔
    req.query ≠ [] ∧ (cstr (req.query.drop 1)).length ≤ 241 := by
  constructor
  · rintro ⟨execl, hchild, -⟩
    exact (cgiChild_eq_ok_iff.mp hchild).1
  · intro hfits
    exact ⟨_, cgiChild_eq_ok_iff.mpr ⟨hfits, rfl⟩, rfl, rfl, methEnv_fits req,
      (queryEnv_fits_iff _).mpr hfits.2⟩

/-- The longest query that fits. -/
def longestQuery : HttpRequest :=
  { HttpRequest.init with path := ascii "/run", query := 63 :: List.replicate 241 97 }

theorem cgi_environment_fits_longest :
    longestQuery.query ≠ [] ∧ (cstr (longestQuery.query.drop 1)).length ≤ 241 ∧
      ∃ execl, cgiChild .default longestQuery = .ok execl ∧
        execl.methEnv = ascii "REQUEST_METHOD=" ++ longestQuery.methodString ∧
        execl.queryEnv = ascii "QUERY_STRING=" ++ cstr (longestQuery.query.drop 1) ∧
        execl.methEnv.length + 1 ≤ 255 ∧ execl.queryEnv.length + 1 ≤ 255 :=
  have hquery : longestQuery.query ≠ [] := by decide +kernel
  have hlength : (cstr (longestQuery.query.drop 1)).length ≤ 241 := by decide +kernel
  ⟨hquery, hlength, (cgi_environment_fits .default longestQuery).mpr ⟨hquery, hlength⟩⟩

/-- A query that is one character longer. -/
def overlong : List UInt8 := 63 :: List.replicate 242 97

theorem overlong_noSpace : 32 ∉ overlong := by decide +kernel

theorem overlong_noCRLF : search Buffer.kCRLF overlong = none := by decide +kernel

def overlongQuery : RequestParts where
  method := .kGet
  path := ascii "/run"
  query := overlong
  version := .kHttp11
  headers := []
  method_known := RequestParts.kGet_known
  path_noSpace := by decide
  path_noQuestion := by decide
  path_noCRLF := by decide
  query_start := .inr rfl
  query_noSpace := overlong_noSpace
  query_noCRLF := overlong_noCRLF
  version_known := by decide
  name_noColon := by decide
  header_noCRLF := by decide

/-- The parser accepts a target without a query, and one with a query that is longer than
the array for it; both are for the CGI program. -/
theorem cgi_environment_overruns :
    (∃ b, (Buffer.init Buffer.kInitialSize).append (ascii "GET /run HTTP/1.1\r\n\r\n") = .ok b ∧
      ∃ t, HttpContext.parseRequest .init b = .ok t ∧ t.1 = true ∧ t.2.1.gotAll = true ∧
        getContentType t.2.1.request.path = "cgi" ∧
        cgiChild .default t.2.1.request = .error .queryRange) ∧
    ∃ b, (Buffer.init Buffer.kInitialSize).append overlongQuery.bytes = .ok b ∧
      ∃ t, HttpContext.parseRequest .init b = .ok t ∧ t.1 = true ∧ t.2.1.gotAll = true ∧
        getContentType t.2.1.request.path = "cgi" ∧
        cgiChild .default t.2.1.request = .error .queryOverflow := by
  constructor
  · decide +kernel
  · obtain ⟨b, happend, hb⟩ := (Buffer.init_holds Buffer.kInitialSize).append overlongQuery.bytes
    rw [List.nil_append, ← List.append_nil overlongQuery.bytes] at hb
    obtain ⟨b', hparse, -⟩ := overlongQuery.parseRequest_bytes hb
    have htype : getContentType (ascii "/run") = "cgi" := by decide +kernel
    have hchild : cgiChild .default
        { overlongQuery.parsed with headers := overlongQuery.headerValue } =
          .error .queryOverflow := by
      decide +kernel
    exact ⟨b, happend, _, hparse, rfl, rfl, htype, hchild⟩

end OnRequestCallBack

end Muduo.Net
