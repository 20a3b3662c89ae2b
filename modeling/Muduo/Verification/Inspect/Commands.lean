import Muduo.System.Inspecting
import Muduo.Verification.Inspect.Splitting

/-! Whatever commands are added and removed, an inspector lists those that are there and answers
requests for them, and for nothing else. -/

namespace Muduo.System.Inspecting

open Library Net Inspector

variable {i : Inspector} {r : Registry} {favicon : List UInt8}

/-- Both maps of the inspector agree with the registry. -/
structure Represents (i : Inspector) (r : Registry) : Prop where
  callbacks : ∀ m c, i.modules.find₂ m c = (r m c).map Prod.fst
  helps : ∀ m c, i.helps.find₂ m c = (r m c).map Prod.snd

theorem represents_init : Represents .init .empty :=
  ⟨fun _ _ => OrderedMap.find₂_empty, fun _ _ => OrderedMap.find₂_empty⟩

/-! ### The maps -/

theorem step_add (r : Registry) (module command m c : List UInt8) (cb : Callback)
    (help : List UInt8) :
    r.step (.add module command cb help) m c =
      if m = module ∧ c = command then some (cb, help) else r m c := rfl

theorem step_remove (r : Registry) (module command m c : List UInt8) :
    r.step (.remove module command) m c =
      if m = module ∧ c = command then none else r m c := rfl

theorem Represents.add (h : Represents i r) (module command : List UInt8) (cb : Callback)
    (help : List UInt8) :
    Represents (i.add module command cb help) (r.step (.add module command cb help)) := by
  constructor
  · intro m c
    rw [Inspector.add, OrderedMap.find₂_set_set, h.callbacks, step_add]
    split <;> rfl
  · intro m c
    rw [Inspector.add, OrderedMap.find₂_set_set, h.helps, step_add]
    split <;> rfl

/-- From a module that is not there nothing is removed. -/
theorem Represents.remove (h : Represents i r) (module command : List UInt8) :
    Represents (i.remove module command) (r.step (.remove module command)) := by
  cases hm : i.modules.find module with
  | none =>
      have hnone : r module command = none := by
        have heq := h.callbacks module command
        rw [OrderedMap.find₂, hm, Option.bind_none] at heq
        exact Option.map_eq_none_iff.mp heq.symm
      have hsame : r.step (.remove module command) = r := by
        funext m c
        rw [step_remove]
        split
        next heq => rw [heq.1, heq.2, hnone]
        · rfl
      rw [hsame, Inspector.remove, hm]
      exact h
  | some list =>
      have hlist : (i.modules.find module).getD .empty = list := by rw [hm, Option.getD_some]
      rw [Inspector.remove, hm, ← hlist]
      constructor
      · intro m c
        rw [OrderedMap.find₂_set_erase, h.callbacks, step_remove]
        split <;> rfl
      · intro m c
        rw [OrderedMap.find₂_set_erase, h.helps, step_remove]
        split <;> rfl

/-! ### Requests -/

theorem Represents.callback (h : Represents i r) (module command : List UInt8) :
    i.callback module command = (r module command).bind Prod.fst := by
  have hfind := h.callbacks module command
  rw [OrderedMap.find₂] at hfind
  rw [Inspector.callback]
  cases hm : i.modules.find module with
  | none =>
      rw [hm, Option.bind_none] at hfind
      rw [Option.map_eq_none_iff.mp hfind.symm]
      rfl
  | some list =>
      rw [hm, Option.bind_some] at hfind
      simp only [hfind]
      cases r module command with
      | none => rfl
      | some entry => rfl

theorem Represents.content (h : Represents i r) (method : HttpRequest.Method) (args : ArgList) :
    i.content favicon method args = r.content favicon method args := by
  rcases args with _ | ⟨module, _ | ⟨command, args⟩⟩
  · rfl
  · rfl
  · rw [Inspector.content, h.callback module command, Registry.content]

/-- The response to a path other than `/`, by its segments. -/
theorem Represents.onRequest (h : Represents i r) {req : HttpRequest} (resp : HttpResponse)
    (hpath : req.path ≠ ascii "/") :
    i.onRequest favicon req resp =
      .ok (match r.content favicon req.method (segments 47 req.path) with
        | some (contentType, body) =>
            resp.setStatusCode .k200Ok
              |>.setStatusMessage "OK"
              |>.setContentType contentType
              |>.setBody body
        | none => (resp.setStatusCode .k404NotFound).setStatusMessage "Not Found") := by
  rw [Inspector.onRequest, if_neg hpath, split_eq, ok_bind, h.content]
  rfl

theorem onRequest_returns (i : Inspector) (favicon : List UInt8) (req : HttpRequest)
    (resp : HttpResponse) : ∃ resp', i.onRequest favicon req resp = .ok resp' := by
  unfold Inspector.onRequest
  split
  · exact ⟨_, rfl⟩
  · rw [split_eq, ok_bind]
    exact ⟨_, rfl⟩

/-- The page `/` has a line for each command. -/
theorem Represents.helpLine_infix (h : Represents i r) {module command help : List UInt8}
    {cb : Callback} (hr : r module command = some (cb, help)) :
    helpLine module command help <:+: i.helpPage := by
  have hfind := h.helps module command
  rw [hr, Option.map_some, OrderedMap.find₂] at hfind
  obtain ⟨list, hlist, hhelp⟩ := Option.bind_eq_some_iff.mp hfind
  have hinner : helpLine module command help <:+:
      list.entries.flatMap fun e => helpLine module e.1 e.2 :=
    List.infix_of_mem_flatten
      (List.mem_map.mpr ⟨(command, help), OrderedMap.find_eq_some.mp hhelp, rfl⟩)
  have houter : (list.entries.flatMap fun e => helpLine module e.1 e.2) <:+: i.helpPage :=
    List.infix_of_mem_flatten
      (List.mem_map.mpr ⟨(module, list), OrderedMap.find_eq_some.mp hlist, rfl⟩)
  exact hinner.trans houter

/-! ### Whole runs -/

theorem exec_represents (h : Represents i r) (l : Label) :
    ∃ i', exec favicon i l = .ok i' ∧ Represents i' (r.step l) := by
  cases l with
  | add module command cb help => exact ⟨_, rfl, h.add module command cb help⟩
  | remove module command => exact ⟨_, rfl, h.remove module command⟩
  | request req resp =>
      obtain ⟨resp', hresp⟩ := onRequest_returns i favicon req resp
      exact ⟨i, by rw [exec, hresp, ok_bind]; rfl, h⟩

/-- Every run comes to its end, and the inspector behaves as the registry of its calls. -/
theorem run_represents (favicon : List UInt8) (ls : List Label) :
    ∃ i, run (exec favicon) .init ls = .ok i ∧ Represents i (ls.foldl Registry.step .empty) := by
  have hlegal : LegalRun (exec favicon) (fun _ _ => True) .init ls :=
    LegalRun.of_forall fun _ _ _ => trivial
  have hstep : ∀ (i : Inspector) (r : Registry) (l : Label), Represents i r → True →
      ∃ i', exec favicon i l = .ok i' ∧ Represents i' (r.step l) :=
    fun _ _ l h _ => exec_represents h l
  exact run_simulates hstep represents_init hlegal

/-- A command is listed, and the path by which it is listed calls it, with the arguments that
follow, as long as names and arguments are segments. -/
theorem listed_command_served (ls : List Label) {i : Inspector}
    (hrun : run (exec favicon) .init ls = .ok i) {module command help : List UInt8}
    {cb : HttpRequest.Method → ArgList → List UInt8}
    (hr : ls.foldl Registry.step .empty module command = some (some cb, help)) {args : ArgList}
    (hargs : ∀ s ∈ module :: command :: args, s ≠ [] ∧ 47 ∉ s) :
    helpLine module command help <:+: i.helpPage ∧
      ∀ req resp, req.path = 47 :: [47].intercalate (module :: command :: args) →
        i.onRequest favicon req resp =
          .ok (resp.setStatusCode .k200Ok
            |>.setStatusMessage "OK"
            |>.setContentType "text/plain"
            |>.setBody (cb req.method args)) := by
  obtain ⟨i', hrun', h⟩ := run_represents favicon ls
  obtain rfl := Except.ok.inj (hrun.symm.trans hrun')
  refine ⟨h.helpLine_infix hr, fun req resp hpath => ?_⟩
  have hsegments : segments 47 req.path = module :: command :: args := by
    rw [hpath]
    exact (segments_append_cons [] _).trans (segments_intercalate hargs)
  have hne : req.path ≠ ascii "/" := by
    intro hroot
    rw [hroot] at hsegments
    exact absurd hsegments.symm (List.cons_ne_nil _ _)
  rw [h.onRequest resp hne, hsegments, Registry.content, hr]
  rfl

/-- What is not a command is not found. -/
theorem unknown_command_not_found (ls : List Label) {i : Inspector}
    (hrun : run (exec favicon) .init ls = .ok i) {req : HttpRequest} (resp : HttpResponse)
    {module command : List UInt8} {args : ArgList}
    (hpath : segments 47 req.path = module :: command :: args)
    (hr : ls.foldl Registry.step .empty module command = none) :
    i.onRequest favicon req resp =
      .ok ((resp.setStatusCode .k404NotFound).setStatusMessage "Not Found") := by
  obtain ⟨i', hrun', h⟩ := run_represents favicon ls
  obtain rfl := Except.ok.inj (hrun.symm.trans hrun')
  have hne : req.path ≠ ascii "/" := by
    intro hroot
    rw [hroot] at hpath
    exact absurd hpath.symm (List.cons_ne_nil _ _)
  rw [h.onRequest resp hne, hpath, Registry.content, hr]
  rfl

/-! ### The commands of the library -/

section LibraryCommands

variable (print : String → String → HttpRequest.Method → ArgList → List UInt8)

/-- A call of `add` by `registerCommands`. -/
def registration (c : String × String × String) : Label :=
  .add (ascii c.1) (ascii c.2.1) (some (print c.1 c.2.1)) (ascii c.2.2)

theorem run_registrations (favicon : List UInt8) (cs : List (String × String × String))
    (i : Inspector) :
    run (exec favicon) i (cs.map (registration print)) =
      .ok (cs.foldl (fun i c => i.add (ascii c.1) (ascii c.2.1) (some (print c.1 c.2.1))
        (ascii c.2.2)) i) := by
  induction cs generalizing i with
  | nil => rfl
  | cons c cs ih => exact ih _

/-- A command stays in the registry while others are added. -/
theorem foldl_registrations_of_ne {cs : List (String × String × String)} {m c : List UInt8}
    (h : ∀ d ∈ cs, ¬ (m = ascii d.1 ∧ c = ascii d.2.1)) (r : Registry) :
    (cs.map (registration print)).foldl Registry.step r m c = r m c := by
  induction cs generalizing r with
  | nil => rfl
  | cons d cs ih =>
      rw [List.map_cons, List.foldl_cons, ih fun e he => h e (List.mem_cons_of_mem d he),
        registration, step_add, if_neg (h d List.mem_cons_self)]

theorem foldl_registrations_of_mem {cs : List (String × String × String)}
    (hcs : cs.Pairwise fun c d => ¬ (ascii c.1 = ascii d.1 ∧ ascii c.2.1 = ascii d.2.1))
    {c : String × String × String} (hc : c ∈ cs) (r : Registry) :
    (cs.map (registration print)).foldl Registry.step r (ascii c.1) (ascii c.2.1) =
      some (some (print c.1 c.2.1), ascii c.2.2) := by
  induction cs generalizing r with
  | nil => cases hc
  | cons d cs ih =>
      obtain ⟨hd, hcs⟩ := List.pairwise_cons.mp hcs
      rw [List.map_cons, List.foldl_cons]
      rcases List.mem_cons.mp hc with rfl | hc
      · rw [foldl_registrations_of_ne print hd, registration, step_add, if_pos ⟨rfl, rfl⟩]
      · exact ih hcs hc _

theorem commands_distinct :
    commands.Pairwise fun c d => ¬ (ascii c.1 = ascii d.1 ∧ ascii c.2.1 = ascii d.2.1) := by
  decide +kernel

theorem commands_segments :
    ∀ c ∈ commands, ∀ s ∈ [ascii c.1, ascii c.2.1], s ≠ [] ∧ 47 ∉ s := by
  decide +kernel

/-- A new inspector lists the commands of the library and answers requests for them. -/
theorem library_command_served (favicon : List UInt8) {c : String × String × String}
    (hc : c ∈ commands) :
    helpLine (ascii c.1) (ascii c.2.1) (ascii c.2.2) <:+: (ctor print).helpPage ∧
      ∀ req resp, req.path = 47 :: [47].intercalate [ascii c.1, ascii c.2.1] →
        (ctor print).onRequest favicon req resp =
          .ok (resp.setStatusCode .k200Ok
            |>.setStatusMessage "OK"
            |>.setContentType "text/plain"
            |>.setBody (print c.1 c.2.1 req.method [])) :=
  listed_command_served _ (run_registrations print favicon commands .init)
    (foldl_registrations_of_mem print commands_distinct hc .empty) (commands_segments c hc)

end LibraryCommands

end Muduo.System.Inspecting
