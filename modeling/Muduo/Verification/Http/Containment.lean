import Muduo.Library.Path
import Muduo.Net.Http.HttpContext
import Muduo.Verification.Http.Targets

/-! Which files the web server touches for a request. -/

namespace Muduo.Net.OnRequestCallBack

open Library Util ConfigServer

/-- A file name that was built from a root stays inside it, as the system reads the two. -/
def Contained (config : ConfigServer) (file : FileName) : Prop :=
  match file.origin with
  | .root root => Path.Inside 47 46 (cstr (config.root root)) (cstr file.text)
  | _ => True

instance (config : ConfigServer) : ∀ file, Decidable (Contained config file)
  | ⟨.root _, _⟩ => inferInstanceAs (Decidable (Path.Inside _ _ _ _))
  | ⟨.weather, _⟩ => .isTrue trivial
  | ⟨.error404, _⟩ => .isTrue trivial

/-- The file that a call is about. -/
def fileOf : Call → Option FileName
  | .file call => some call.file
  | .fork (some (.ok execl)) => some execl.file
  | _ => none

/-- The files that are touched for a request. -/
def touched (config : ConfigServer) (redirections : List UInt8 → Option (List UInt8))
    (answers : Answers) (req : HttpRequest) (resp : HttpResponse) : List FileName :=
  match httpServerResponseGet config redirections answers req resp with
  | .ok (_, calls) => calls.filterMap fileOf
  | .error _ => []

/-! ### The condition -/

/-- The roots are absolute names of directories. -/
def Rooted (config : ConfigServer) : Prop :=
  ∀ root, 0 ∉ config.root root ∧
    ∃ parent name, Path.Directory 47 46 (config.root root) parent name

/-- The root to which a part of a request path other than `/` is appended, and that part: for
pictures and media what follows the last slash, with the slash, and else the whole path. -/
def appended (path : List UInt8) : Option (Root × List UInt8) :=
  if contains path (ascii "jpg") || contains path (ascii "ico") || contains path (ascii "png") then
    (lastSegment path).toOption.map fun segment => (.pic, segment)
  else if contains path (ascii "mp4") || contains path (ascii "mp3") then
    (lastSegment path).toOption.map fun segment => (.media, segment)
  else if contains path (ascii "html") then some (.html, path)
  else some (.src, path)

/-- Both pipes and a process can be made, and the process comes to `execl`. -/
def Executes (answers : Answers) (req : HttpRequest) : Prop :=
  answers.pipe .cgiOutput = true ∧ answers.pipe .cgiInput = true ∧ answers.fork = true ∧
    QueryFits req

instance (answers : Answers) (req : HttpRequest) : Decidable (Executes answers req) :=
  inferInstanceAs (Decidable (_ ∧ _))

/-- Nothing is made of the path, or, up to its first zero, the appended part comes back as far as
it leads out of the root. -/
def Harmless (config : ConfigServer) (redirections : List UInt8 → Option (List UInt8))
    (answers : Answers) (req : HttpRequest) : Prop :=
  redirections req.path = none → req.path ≠ ascii "/" →
    (getContentType req.path = "cgi" → Executes answers req) →
    ∀ t ∈ appended req.path, Path.Returns 47 46 (config.root t.1) (cstr t.2)

instance (config : ConfigServer) (redirections : List UInt8 → Option (List UInt8))
    (answers : Answers) (req : HttpRequest) :
    Decidable (Harmless config redirections answers req) :=
  inferInstanceAs (Decidable (_ → _ → _ → _))

/-! ### File names -/

theorem cstr_append_of_not_mem {xs : List UInt8} (h : 0 ∉ xs) (ys : List UInt8) :
    cstr (xs ++ ys) = xs ++ cstr ys := by
  refine List.takeWhile_append_of_pos fun x hx => ?_
  exact decide_eq_true fun hzero => h (hzero ▸ hx)

theorem cstr_of_not_mem {xs : List UInt8} (h : 0 ∉ xs) : cstr xs = xs := by
  have happend := cstr_append_of_not_mem h []
  rwa [List.append_nil, show cstr [] = [] from rfl, List.append_nil] at happend

section Calls

variable {config : ConfigServer} {path : List UInt8}

/-- What is appended to a root stays inside exactly if it returns. -/
theorem contained_append_iff (hroots : Rooted config) (root : Root) (rest : List UInt8) :
    Contained config ⟨.root root, config.root root ++ rest⟩ ↔
      Path.Returns 47 46 (config.root root) (cstr rest) := by
  obtain ⟨hzero, parent, name, hdirectory⟩ := hroots root
  rw [← Path.inside_append_iff hdirectory]
  simp only [Contained, cstr_append_of_not_mem hzero, cstr_of_not_mem hzero]

/-- The home page is inside the directory of the pages. -/
theorem index_contained (hroots : Rooted config) :
    Contained config ⟨.root .html, config.htmlRoot ++ ascii "/index.html"⟩ := by
  obtain ⟨hzero, parent, name, hdirectory⟩ := hroots .html
  have hinside : Path.Inside 47 46 (config.root .html)
      (config.root .html ++ 47 :: ascii "index.html") := hdirectory.inside_of_down (by decide)
  have hroot : cstr (config.root .html) = config.root .html := cstr_of_not_mem hzero
  have hindex : cstr (config.root .html ++ ascii "/index.html") =
      config.root .html ++ 47 :: ascii "index.html" := cstr_append_of_not_mem hzero _
  show Path.Inside 47 46 (cstr (config.root .html)) (cstr (config.root .html ++ _))
  rwa [hindex, hroot]

theorem toOption_map_eq {r : Root} {file : FileName}
    (h : (lastSegment path >>= fun temp => pure ⟨.root r, config.root r ++ temp⟩) = .ok file) :
    ∃ t, (lastSegment path).toOption.map (fun segment => (r, segment)) = some t ∧
      file = ⟨.root t.1, config.root t.1 ++ t.2⟩ := by
  obtain ⟨segment, hsegment, h⟩ := of_bind h
  obtain rfl := Except.ok.inj h
  exact ⟨(r, segment), by rw [hsegment]; rfl, rfl⟩

/-- The name of a file of a known type is a root with what is appended to it. -/
theorem constructPath_eq_appended {file : FileName} (hne : path ≠ ascii "/")
    (htype : getContentType path ≠ "cgi") (hfile : constructPath config path = .ok file) :
    ∃ t, appended path = some t ∧ file = ⟨.root t.1, config.root t.1 ++ t.2⟩ := by
  unfold constructPath at hfile
  unfold appended
  rw [if_neg hne] at hfile
  split_ifs at hfile ⊢ with hpic hmedia hhtml
  · exact toOption_map_eq (r := .pic) hfile
  · exact toOption_map_eq (r := .media) hfile
  · exact ⟨_, rfl, (Except.ok.inj hfile).symm⟩
  · refine absurd ?_ htype
    unfold getContentType
    simp_all

/-- Where no name can be made, nothing is appended. -/
theorem appended_of_error {fault : Util.Fault} (hfile : constructPath config path = .error fault) :
    appended path = none := by
  have hsegment : lastSegment path = .error .outOfRange := by
    refine lastSegment_of_not_mem fun hslash => ?_
    obtain ⟨file, hok⟩ := constructPath_of_slash config hslash
    rw [hok] at hfile
    cases hfile
  unfold constructPath at hfile
  unfold appended
  rw [hsegment] at hfile ⊢
  split_ifs at hfile ⊢ <;> rfl

theorem appended_of_cgi (h : getContentType path = "cgi") :
    appended path = some (.src, path) := by
  unfold getContentType at h
  unfold appended
  split_ifs at h with hpng hjpg hico hmp4 hmp3 hhtml
  iterate 6 exact absurd h (by decide)
  simp [hpng, hjpg, hico, hmp4, hmp3, hhtml]

/-! ### The calls of the branches -/

variable {answers : Answers} {req : HttpRequest} {resp : HttpResponse} {target : FileName}

theorem files_map (calls : List FileCall) :
    (calls.map (Cgi.Call.file : FileCall → Call)).filterMap fileOf = calls.map FileCall.file := by
  rw [List.filterMap_map]
  exact congrFun List.filterMap_eq_map calls

theorem getContent_contained (hfile : Contained config target) {call : FileCall}
    (hcall : call ∈ (getContent answers target).2) : Contained config call.file := by
  unfold getContent at hcall
  split at hcall
  · obtain rfl := List.mem_singleton.mp hcall
    trivial
  · rcases List.mem_cons.mp hcall with rfl | hcall
    · exact hfile
    · obtain rfl := List.mem_singleton.mp hcall
      exact hfile

theorem error404_contained {call : FileCall} (hcall : call ∈ (error404 config answers).2) :
    Contained config call.file := by
  have hpage : Contained config ⟨.error404, config.error404Path⟩ := trivial
  exact getContent_contained hpage hcall

theorem fileStatus_contained (hpath : Contained config target) {call : FileCall}
    (hcall : call ∈ (fileStatus answers req target).2) : Contained config call.file := by
  unfold fileStatus at hcall
  split at hcall
  · rcases List.mem_cons.mp hcall with rfl | hcall
    · exact hpath
    · obtain rfl := List.mem_singleton.mp hcall
      trivial
  · obtain rfl := List.mem_singleton.mp hcall
    exact hpath

/-- The file whose status is asked for is touched. -/
theorem stat_mem_fileStatus : FileCall.stat target ∈ (fileStatus answers req target).2 := by
  unfold fileStatus
  split <;> exact List.mem_cons_self

theorem homePage_contained (hpath : Contained config target) :
    ∀ file ∈ (homePage config answers target resp).2.filterMap fileOf, Contained config file := by
  unfold homePage
  dsimp only
  split <;> rw [files_map, List.forall_mem_map]
  · intro call hcall
    rcases List.mem_append.mp hcall with hcall | hcall
    · exact getContent_contained hpath hcall
    · exact error404_contained hcall
  · exact fun call hcall => getContent_contained hpath hcall

/-- The branch for files touches the file itself, and else only fixed ones. -/
theorem regularFile_contained_iff :
    (∀ file ∈ (regularFile config answers req target resp).2.filterMap fileOf,
      Contained config file) ↔ Contained config target := by
  unfold regularFile
  dsimp only
  split <;> rw [files_map, List.forall_mem_map]
  · refine ⟨fun h => h _ (List.mem_append_left _ stat_mem_fileStatus), fun hpath call hcall => ?_⟩
    rcases List.mem_append.mp hcall with hcall | hcall
    · exact fileStatus_contained hpath hcall
    · exact error404_contained hcall
  · refine ⟨fun h => h _ (List.mem_append_left _ stat_mem_fileStatus), fun hpath call hcall => ?_⟩
    rcases List.mem_append.mp hcall with hcall | hcall
    · exact fileStatus_contained hpath hcall
    · exact getContent_contained hpath hcall

/-- The only file of the CGI branch is the one that is executed. -/
theorem cgi_files :
    (cgi config answers req resp).2.filterMap fileOf =
      if Executes answers req then [⟨.root .src, config.srcRoot ++ req.path⟩] else [] := by
  by_cases hexec : Executes answers req
  · obtain ⟨houtput, hinput, hfork, hfits⟩ := id hexec
    rw [if_pos hexec, cgi, Cgi.runCgi, cgiChild_eq_ok_iff.mpr ⟨hfits, rfl⟩]
    simp only [houtput, hinput, hfork, Bool.not_true, Bool.false_eq_true, if_false]
    rfl
  · rw [if_neg hexec, cgi, Cgi.runCgi]
    split_ifs with houtput hinput hfork
    iterate 3 rfl
    cases hchild : cgiChild config req with
    | ok execl =>
        refine absurd ⟨?_, ?_, ?_, (cgiChild_eq_ok_iff.mp hchild).1⟩ hexec <;> simp_all
    | error fault => rfl

end Calls

/-- What the system answers when every file exists. -/
def everything : Answers where
  stat _ := 0
  fopen _ := true
  ifstream _ := some [49]
  pipe _ := true
  fork := true
  cgiOutput := []

theorem rooted_default : Rooted .default := by
  intro root
  refine ⟨by cases root <;> decide, ascii "/home/wushuohan/webRoot", ?_⟩
  cases root with
  | html => exact ⟨ascii "html", rfl, by decide, by decide, by decide⟩
  | pic => exact ⟨ascii "image", rfl, by decide, by decide, by decide⟩
  | media => exact ⟨ascii "media", rfl, by decide, by decide, by decide⟩
  | src => exact ⟨ascii "src", rfl, by decide, by decide, by decide⟩

end Muduo.Net.OnRequestCallBack
