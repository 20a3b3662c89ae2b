import Muduo.System.Handling
import Muduo.Verification.Http.Containment

/-! Which descriptors stay open when requests have been handled. -/

namespace Muduo.System.Handling

open Library Net Util OnRequestCallBack

/-! ### The condition -/

/-- `GetContent` opens a stream by `fopen`, which is never closed. The weather file is read without
one. -/
def opensStream (answers : Answers) (file : FileName) : Bool :=
  !contains file.text (ascii "weather") && answers.fopen file.text

/-- `stat` fails, and the weather file cannot make up for it. -/
def isMissing (answers : Answers) (req : HttpRequest) (path : FileName) : Bool :=
  answers.stat path.text < 0 &&
    !(contains req.path (ascii "weather") && (answers.ifstream weather.text).isSome)

/-- The page that the branch for files sends. -/
def sentFile (config : ConfigServer) (r : Request) (path : FileName) : FileName :=
  if isMissing r.answers r.req path then ⟨.error404, config.error404Path⟩ else path

/-- In the branch for `/` no stream is opened for the home page, nor for the page that is sent when
that one is empty; in the branch for files none for the page that is sent; and in the branch for
CGI programs a first pipe is followed by a second one and a process. -/
def TidyBranch (config : ConfigServer) (r : Request) (path : FileName) : Prop :=
  (r.req.path = ascii "/" → opensStream r.answers path = false ∧
    ((getContent r.answers path).1 = [] →
      opensStream r.answers ⟨.error404, config.error404Path⟩ = false)) ∧
  (r.req.path ≠ ascii "/" → getContentType r.req.path ≠ "cgi" →
    opensStream r.answers (sentFile config r path) = false) ∧
  (r.req.path ≠ ascii "/" → getContentType r.req.path = "cgi" →
    r.answers.pipe .cgiOutput = true →
      r.answers.pipe .cgiInput = true ∧ r.answers.fork = true)

instance (config : ConfigServer) (r : Request) (path : FileName) :
    Decidable (TidyBranch config r path) :=
  inferInstanceAs (Decidable ((_ → _) ∧ (_ → _ → _) ∧ (_ → _ → _ → _)))

/-- The request is redirected, or no name can be made of its path, or its branch is tidy. -/
def Tidy (config : ConfigServer) (redirections : List UInt8 → Option (List UInt8))
    (r : Request) : Prop :=
  redirections r.req.path = none →
    ∀ path ∈ (constructPath config r.req.path).toOption, TidyBranch config r path

instance (config : ConfigServer) (redirections : List UInt8 → Option (List UInt8)) (r : Request) :
    Decidable (Tidy config redirections r) := inferInstanceAs (Decidable (_ → _))

/-! ### Calls about files -/

variable {k : Kernel}

/-- `fopen` has returned a stream. -/
def isOpened : FileCall → Bool
  | .fopen _ opened => opened
  | _ => false

theorem exec_file (s : Process) {call : FileCall} (h : isOpened call = false) :
    exec k s (.file call) = s := by
  cases call with
  | stat file => rfl
  | fopen file opened =>
      have hopened : opened = false := h
      rw [hopened]
      rfl
  | ifstream file opened =>
      cases opened with
      | false => rfl
      | true => rw [exec, Finset.erase_insert (k.fresh _)]

theorem exec_fopen (s : Process) {call : FileCall} (h : isOpened call = true) :
    exec k s (.file call) =
      { s with descriptors := insert (k.alloc s.descriptors) s.descriptors } := by
  cases call with
  | stat file => cases h
  | fopen file opened =>
      have hopened : opened = true := h
      rw [hopened]
      rfl
  | ifstream file opened => cases h

theorem descriptors_subset (s : Process) (calls : List FileCall) :
    s.descriptors ⊆ ((calls.map Cgi.Call.file).foldl (exec k) s).descriptors := by
  induction calls generalizing s with
  | nil => exact Finset.Subset.refl _
  | cons call calls ih =>
      rw [List.map_cons, List.foldl_cons]
      refine Finset.Subset.trans ?_ (ih _)
      cases hopened : isOpened call with
      | false => rw [exec_file s hopened]
      | true =>
          rw [exec_fopen s hopened]
          exact Finset.subset_insert _ _

/-- Calls about files keep the descriptors exactly if none of them opens a stream. -/
theorem file_calls_keep_iff (s : Process) (calls : List FileCall) :
    ((calls.map Cgi.Call.file).foldl (exec k) s).descriptors = s.descriptors ↔
      ∀ call ∈ calls, isOpened call = false := by
  induction calls generalizing s with
  | nil => exact iff_of_true rfl (List.forall_mem_nil _)
  | cons call calls ih =>
      rw [List.map_cons, List.foldl_cons, List.forall_mem_cons]
      cases hopened : isOpened call with
      | false =>
          rw [exec_file s hopened, ih]
          exact (and_iff_right rfl).symm
      | true =>
          -- the new descriptor stays open to the end
          refine iff_of_false (fun hsame => ?_) fun h => Bool.noConfusion h.1
          have hsub := descriptors_subset (k := k) (exec k s (.file call)) calls
          rw [hsame, exec_fopen s hopened] at hsub
          exact k.fresh _ (hsub (Finset.mem_insert_self _ _))

theorem getContent_keeps_iff (answers : Answers) (file : FileName) :
    (∀ call ∈ (getContent answers file).2, isOpened call = false) ↔
      opensStream answers file = false := by
  unfold getContent opensStream
  split <;> simp_all [isOpened]

theorem fileStatus_keeps (answers : Answers) (req : HttpRequest) (path : FileName) :
    ∀ call ∈ (fileStatus answers req path).2, isOpened call = false := by
  unfold fileStatus
  split <;> simp [isOpened]

theorem fileStatus_neg_iff (answers : Answers) (req : HttpRequest) (path : FileName) :
    (fileStatus answers req path).1 < 0 ↔ isMissing answers req path = true := by
  unfold fileStatus isMissing
  split
  · cases (answers.ifstream weather.text).isSome <;> simp_all
  · simp_all

/-! ### The branches of the callback -/

section Branches

variable (config : ConfigServer) (r : Request) (path : FileName) (descriptors : Finset ℕ)

theorem homePage_keeps_iff :
    ((homePage config r.answers path r.resp).2.foldl (exec k) (.start descriptors)).descriptors =
        descriptors ↔
      opensStream r.answers path = false ∧ ((getContent r.answers path).1 = [] →
        opensStream r.answers ⟨.error404, config.error404Path⟩ = false) := by
  unfold homePage
  dsimp only
  split
  next hempty =>
    refine (file_calls_keep_iff (.start descriptors) _).trans ?_
    rw [List.forall_mem_append, getContent_keeps_iff, error404, getContent_keeps_iff]
    simp [hempty]
  next hfull =>
    refine (file_calls_keep_iff (.start descriptors) _).trans ?_
    rw [getContent_keeps_iff]
    simp [hfull]

theorem regularFile_keeps_iff :
    ((regularFile config r.answers r.req path r.resp).2.foldl (exec k)
        (.start descriptors)).descriptors = descriptors ↔
      opensStream r.answers (sentFile config r path) = false := by
  unfold regularFile
  dsimp only
  by_cases hmissing : isMissing r.answers r.req path = true
  · rw [if_pos ((fileStatus_neg_iff _ _ _).mpr hmissing), sentFile, if_pos hmissing]
    refine (file_calls_keep_iff (.start descriptors) _).trans ?_
    rw [List.forall_mem_append, and_iff_right (fileStatus_keeps _ _ _), error404,
      getContent_keeps_iff]
  · rw [if_neg (mt (fileStatus_neg_iff _ _ _).mp hmissing), sentFile, if_neg hmissing]
    refine (file_calls_keep_iff (.start descriptors) _).trans ?_
    rw [List.forall_mem_append, and_iff_right (fileStatus_keeps _ _ _), getContent_keeps_iff]

/-- The calls of the CGI branch when nothing fails. -/
def cgiCalls (child : Except CgiFault Execl) : List Call :=
  [.pipe .cgiOutput true, .pipe .cgiInput true, .fork (some child),
    .close .cgiOutput .write, .close .cgiInput .read,
    .close .cgiOutput .read, .close .cgiInput .write, .waitpid]

/-- Whatever descriptors the system chooses for the two pipes, their four ends are closed
again. -/
theorem foldl_exec_cgiCalls (descriptors : Finset ℕ) (child : Except CgiFault Execl) :
    ((cgiCalls child).foldl (exec k) (.start descriptors)).descriptors = descriptors := by
  generalize hr₁ : k.alloc descriptors = r₁
  generalize hw₁ : k.alloc (insert r₁ descriptors) = w₁
  generalize hr₂ : k.alloc (insert w₁ (insert r₁ descriptors)) = r₂
  generalize hw₂ : k.alloc (insert r₂ (insert w₁ (insert r₁ descriptors))) = w₂
  have hfresh₁ := k.fresh descriptors
  have hfresh₂ := k.fresh (insert r₁ descriptors)
  have hfresh₃ := k.fresh (insert w₁ (insert r₁ descriptors))
  have hfresh₄ := k.fresh (insert r₂ (insert w₁ (insert r₁ descriptors)))
  rw [hr₁] at hfresh₁
  rw [hw₁] at hfresh₂
  rw [hr₂] at hfresh₃
  rw [hw₂] at hfresh₄
  have hclosed : ((cgiCalls child).foldl (exec k) (.start descriptors)).descriptors =
      ((((insert w₂ (insert r₂ (insert w₁ (insert r₁ descriptors)))).erase w₁).erase r₂).erase
        r₁).erase w₂ := by
    simp [cgiCalls, exec, Process.start, Process.pipe, Process.close, hr₁, hw₁, hr₂, hw₂]
  rw [hclosed]
  ext fd
  simp only [Finset.mem_erase, Finset.mem_insert] at hfresh₂ hfresh₃ hfresh₄ ⊢
  grind

theorem alloc_mem_pipe (s : Process) (p : Pipe) :
    k.alloc s.descriptors ∈ (s.pipe k p).descriptors :=
  Finset.mem_insert_of_mem (Finset.mem_insert_self _ _)

/-- A first pipe stays open unless everything that follows it is made. -/
theorem cgi_keeps_iff :
    ((cgi config r.answers r.req r.resp).2.foldl (exec k) (.start descriptors)).descriptors =
        descriptors ↔
      (r.answers.pipe .cgiOutput = true →
        r.answers.pipe .cgiInput = true ∧ r.answers.fork = true) := by
  have hfresh := k.fresh descriptors
  have hpipe := alloc_mem_pipe (k := k) (.start descriptors) .cgiOutput
  unfold cgi Cgi.runCgi
  dsimp only
  split_ifs with houtput hinput hfork
  · refine iff_of_true rfl fun hmade => ?_
    simp [hmade] at houtput
  · refine iff_of_false (fun hsame => hfresh (hsame.subset hpipe)) fun h => ?_
    simp_all
  · refine iff_of_false (fun hsame => hfresh (hsame.subset ?_)) fun h => ?_
    · exact Finset.mem_insert_of_mem (Finset.mem_insert_of_mem hpipe)
    · simp_all
  · refine iff_of_true (foldl_exec_cgiCalls descriptors _) fun _ => ?_
    simp_all

end Branches

theorem handle_keeps_iff (config : ConfigServer) (redirections : List UInt8 → Option (List UInt8))
    (descriptors : Finset ℕ) (r : Request) :
    Outcome (· = descriptors) (· = .outOfRange) (handle k config redirections descriptors r) ↔
      Tidy config redirections r := by
  unfold handle httpServerResponseGet Tidy
  cases hredirect : redirections r.req.path with
  | some location => exact iff_of_true (.ok rfl) nofun
  | none =>
      cases hpath : constructPath config r.req.path with
      | error fault =>
          cases fault
          exact iff_of_true (.error rfl) nofun
      | ok path =>
          simp only [ok_bind, pure, Except.pure, outcome_ok, Except.toOption, Option.mem_def,
            Option.some.injEq, forall_const, forall_eq', TidyBranch]
          split_ifs with hindex htype
          · rw [homePage_keeps_iff config r path descriptors]
            simp [hindex]
          · rw [regularFile_keeps_iff config r path descriptors]
            simp [hindex, htype]
          · rw [cgi_keeps_iff config r descriptors]
            simp [hindex, of_not_not htype]

/-- Handling requests keeps the set of open descriptors, whatever descriptors the system
chooses, up to the last request or the first one that throws, exactly if every request that is
handled is tidy. -/
theorem descriptors_kept (k : Kernel) (config : ConfigServer)
    (redirections : List UInt8 → Option (List UInt8)) (rs : List Request)
    (descriptors : Finset ℕ) :
    (∀ handled, handled <+: rs →
      Outcome (· = descriptors) (· = .outOfRange)
        (run (handle k config redirections) descriptors handled)) ↔
    LegalRun (handle k config redirections) (fun _ r => Tidy config redirections r)
      descriptors rs := by
  refine run_outcome_iff (fun _ => id) (fun s r hs _ => ⟨?_, fun _ _ => id⟩) rfl
    (.of_forall fun _ _ _ => trivial)
  subst hs
  exact handle_keeps_iff config redirections s r

/-- The first number from `n` on that is not taken, or the last that `fuel` allows for. -/
def firstFree (descriptors : Finset ℕ) : ℕ → ℕ → ℕ
  | 0, n => n
  | fuel + 1, n => if n ∈ descriptors then firstFree descriptors fuel (n + 1) else n

theorem range_add_one_subset {descriptors : Finset ℕ} {n : ℕ}
    (hbelow : Finset.range n ⊆ descriptors) (hmem : n ∈ descriptors) :
    Finset.range (n + 1) ⊆ descriptors := by
  rw [Finset.range_add_one]
  exact Finset.insert_subset hmem hbelow

/-- Of one number more than are taken, one is free. -/
theorem firstFree_not_mem (descriptors : Finset ℕ) {fuel n : ℕ}
    (hbelow : Finset.range n ⊆ descriptors) (hfuel : descriptors.card ≤ n + fuel) :
    firstFree descriptors fuel n ∉ descriptors := by
  induction fuel generalizing n with
  | zero =>
      intro hmem
      have hcard := Finset.card_le_card (range_add_one_subset hbelow hmem)
      rw [Finset.card_range] at hcard
      omega
  | succ fuel ih =>
      rw [firstFree]
      by_cases hmem : n ∈ descriptors
      · rw [if_pos hmem]
        exact ih (range_add_one_subset hbelow hmem) (by omega)
      · rwa [if_neg hmem]

theorem firstFree_card_not_mem (descriptors : Finset ℕ) :
    firstFree descriptors descriptors.card 0 ∉ descriptors :=
  firstFree_not_mem descriptors (Finset.empty_subset _) (Nat.le_add_left _ _)

/-- The system takes the smallest number that is free. -/
def lowest : Kernel where
  alloc descriptors := firstFree descriptors descriptors.card 0
  fresh := firstFree_card_not_mem

/-- What the system answers when there are programs but no files. -/
def programs : Answers where
  stat _ := -1
  fopen _ := false
  ifstream _ := none
  pipe _ := true
  fork := true
  cgiOutput := ascii "1"

/-- A redirection, a page that is not there and a program. -/
def tidyRequests : List Request :=
  [⟨{ HttpRequest.init with path := ascii "/1" }, .ctor false, programs⟩,
    ⟨{ HttpRequest.init with path := ascii "/page.html" }, .ctor false, programs⟩,
    ⟨{ HttpRequest.init with path := ascii "/run", query := ascii "?a" }, .ctor false, programs⟩]

theorem descriptors_kept_tidy :
    (∀ r ∈ tidyRequests, Tidy .default redirectInit r) ∧
      Outcome (· = {0, 1, 2}) (· = .outOfRange)
        (run (handle lowest .default redirectInit) {0, 1, 2} tidyRequests) :=
  have htidy : ∀ r ∈ tidyRequests, Tidy .default redirectInit r := by decide +kernel
  ⟨htidy, (descriptors_kept lowest .default redirectInit tidyRequests {0, 1, 2}).mpr
    (.of_forall fun r hr _ => htidy r hr) _ List.prefix_rfl⟩

/-- The descriptor of the page `/` stays open, and so do both pipes when there cannot be
another process. -/
theorem descriptors_leak :
    (∃ after, run (handle lowest .default redirectInit) {0, 1, 2}
        [⟨{ HttpRequest.init with path := ascii "/" }, .ctor false, everything⟩] = .ok after ∧
      after = {0, 1, 2, 3}) ∧
    ∃ after, run (handle lowest .default redirectInit) {0, 1, 2}
        [⟨{ HttpRequest.init with path := ascii "/run" }, .ctor false,
          { programs with fork := false }⟩] = .ok after ∧
      after = {0, 1, 2, 3, 4, 5, 6} := by
  constructor <;> decide +kernel

end Muduo.System.Handling
