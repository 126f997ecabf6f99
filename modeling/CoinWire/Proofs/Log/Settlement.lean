import CoinWire.Log.Registry

/-!
How requests for loggers come out, one after another. A request meets one of three cases: its logger is
settled, its layout is refused, or it settles its logger. No case touches another logger, and a settled
logger stays as it is, so the first request that is granted decides for good. The files are those that the
handlers write to.

Requests are of files that can be opened. Two names are of one logger where they are the same, or where both
are names of the root.
-/

namespace CoinWire.Log

namespace Request

def Openable (request : Request) : Prop := request.file.all Path.isValid = true

instance : DecidablePred Openable := fun request => by
  unfold Openable
  infer_instance

theorem levelNumber_eq (request : Request) : request.levelNumber =
    ((request.level.or request.fallback).bind Level.ofName?).getD Level.warning := by
  rw [levelNumber, levelName]
  cases request.level with
  | some text => rw [Option.getD_some, Option.some_or, Option.bind_some]
  | none =>
    rw [Option.getD_none, Option.none_or]
    cases request.fallback with
    | some text => rw [Option.getD_some, Option.bind_some]
    | none =>
      rw [Option.getD_none, Option.bind_none, Option.getD_none]
      decide

theorem isSome_layoutText_iff (request : Request) : (Layout.ofText? request.layoutText).isSome ↔
    ∀ text ∈ request.layout, (Layout.ofText? text).isSome := by
  rw [layoutText]
  cases request.layout with
  | none =>
    have hstandard : (Layout.ofText? Layout.standard).isSome := by decide +kernel
    simpa using hstandard
  | some text => simp

theorem handlers_ne_nil (request : Request) (layout : Layout) : request.handlers layout ≠ [] :=
  List.cons_ne_nil _ _

theorem Openable.path?_eq {request : Request} (h : request.Openable) :
    request.path? = request.file.map Path.normal := by
  rw [Openable] at h
  rw [path?]
  cases hf : request.file with
  | none => rfl
  | some file =>
    rw [hf] at h
    have hv : Path.isValid file = true := h
    rw [Option.filter_some, if_pos hv]

theorem Openable.handlers_eq {request : Request} (h : request.Openable) (layout : Layout) :
    request.handlers layout = ⟨.console, layout⟩ ::
      (request.file.map Path.normal).toList.map fun path => ⟨.file path, layout⟩ := by
  rw [handlers, h.path?_eq]
  cases request.file with
  | none => rfl
  | some file => rfl

end Request

namespace Registry

open Lineage (IsRoot Alike)

variable {registry : Registry} {request : Request} {name : String} {layout : Layout}

/-- The registry that a request leaves behind, granted or not. -/
def after (registry : Registry) (request : Request) : Registry :=
  match configure request registry with
  | .ok () next => next
  | .error _ next => next

def afterAll (registry : Registry) (requests : List Request) : Registry :=
  requests.foldl after registry

def Grants (registry : Registry) (request : Request) : Prop :=
  ∃ next, configure request registry = .ok () next

/-- Each request on the logger of that name is refused when its turn comes. -/
def RefusesAll (name : String) : Registry → List Request → Prop
  | _, [] => True
  | registry, request :: rest =>
    (Alike name request.name → ¬ registry.Grants request) ∧
      RefusesAll name (registry.after request) rest

def targets (registry : Registry) (name : String) : List Target :=
  (registry.logger name).handlers.map Handler.target

/-- The registry in which a request has settled its logger. -/
def settle (registry : Registry) (request : Request) (layout : Layout) : Registry :=
  ((registry.setLevel request.name request.levelNumber).set request.name
    ⟨request.levelNumber, request.handlers layout⟩).openFile request.path?

theorem logger_settle (registry : Registry) (request : Request) (layout : Layout) (other : String) :
    (registry.settle request layout).logger other =
      if Alike other request.name then ⟨request.levelNumber, request.handlers layout⟩
      else registry.logger other := by
  rw [settle, logger_openFile, logger_set]
  split
  · rfl
  · next h => rw [logger_setLevel, if_neg h]

theorem handlers_setLevel (registry : Registry) (name other : String) (level : Level) :
    ((registry.setLevel name level).logger other).handlers = (registry.logger other).handlers := by
  rw [logger_setLevel]
  split
  · next h => rw [logger_of_alike registry h]
  · rfl

theorem configure_of_settled (h : (registry.logger request.name).handlers ≠ []) :
    configure request registry = .ok () registry := by
  rw [configure, if_pos]
  simpa using h

theorem configure_of_refused (h : (registry.logger request.name).handlers = [])
    (hl : Layout.ofText? request.layoutText = none) :
    configure request registry =
      .error (.layout request.layoutText) (registry.setLevel request.name request.levelNumber) := by
  rw [configure, if_neg (by simp [h])]
  simp only [hl]

theorem configure_of_accepted (h : (registry.logger request.name).handlers = [])
    (hl : Layout.ofText? request.layoutText = some layout) (ho : request.Openable) :
    configure request registry = .ok () (registry.settle request layout) := by
  rw [configure, if_neg (by simp [h])]
  simp only [hl]
  exact if_pos ho

/-- What a request comes to, by the state of its logger and by its layout. -/
theorem configure_cases (registry : Registry) (ho : request.Openable) :
    ((registry.logger request.name).handlers ≠ [] ∧ configure request registry = .ok () registry) ∨
      ((registry.logger request.name).handlers = [] ∧ Layout.ofText? request.layoutText = none ∧
        configure request registry =
          .error (.layout request.layoutText) (registry.setLevel request.name request.levelNumber)) ∨
      ∃ layout, (registry.logger request.name).handlers = [] ∧
        Layout.ofText? request.layoutText = some layout ∧
        configure request registry = .ok () (registry.settle request layout) := by
  by_cases h : (registry.logger request.name).handlers = []
  · cases hl : Layout.ofText? request.layoutText with
    | none => exact .inr (.inl ⟨h, rfl, configure_of_refused h hl⟩)
    | some layout => exact .inr (.inr ⟨layout, h, rfl, configure_of_accepted h hl ho⟩)
  · exact .inl ⟨h, configure_of_settled h⟩

theorem grants_iff (registry : Registry) (ho : request.Openable) :
    registry.Grants request ↔ (registry.logger request.name).handlers ≠ [] ∨
      ∀ text ∈ request.layout, (Layout.ofText? text).isSome := by
  rw [← request.isSome_layoutText_iff]
  obtain ⟨hn, h⟩ | ⟨hn, hl, h⟩ | ⟨layout, hn, hl, h⟩ := configure_cases registry ho
  · exact ⟨fun _ => .inl hn, fun _ => ⟨_, h⟩⟩
  · simp [Grants, h, hn, hl]
  · exact ⟨fun _ => .inr (by rw [hl]; rfl), fun _ => ⟨_, h⟩⟩

theorem after_of_ok {next : Registry} (h : configure request registry = .ok () next) :
    registry.after request = next := by
  rw [after, h]

theorem after_of_error {e : Refusal} {next : Registry}
    (h : configure request registry = .error e next) : registry.after request = next := by
  rw [after, h]

theorem after_of_settled (h : (registry.logger request.name).handlers ≠ []) :
    registry.after request = registry :=
  after_of_ok (configure_of_settled h)

theorem logger_after_of_not_alike (ho : request.Openable) (hn : ¬ Alike name request.name) :
    (registry.after request).logger name = registry.logger name := by
  obtain ⟨-, h⟩ | ⟨-, -, h⟩ | ⟨layout, -, -, h⟩ := configure_cases registry ho
  · rw [after_of_ok h]
  · rw [after_of_error h, logger_setLevel, if_neg hn]
  · rw [after_of_ok h, logger_settle, if_neg hn]

theorem logger_after (ho : request.Openable) (h : (registry.logger name).handlers ≠ []) :
    (registry.after request).logger name = registry.logger name := by
  by_cases hn : Alike name request.name
  · rw [logger_of_alike registry hn] at h
    rw [after_of_settled h]
  · exact logger_after_of_not_alike ho hn

theorem handlers_after_of_refused (ho : request.Openable)
    (h : (registry.logger name).handlers = [])
    (hr : Alike name request.name → ¬ registry.Grants request) :
    ((registry.after request).logger name).handlers = [] := by
  by_cases hn : Alike name request.name
  · obtain ⟨-, hc⟩ | ⟨-, -, hc⟩ | ⟨layout, -, -, hc⟩ := configure_cases registry ho
    · exact absurd ⟨_, hc⟩ (hr hn)
    · rw [after_of_error hc, handlers_setLevel, h]
    · exact absurd ⟨_, hc⟩ (hr hn)
  · rw [logger_after_of_not_alike ho hn, h]

theorem afterAll_cons (registry : Registry) (request : Request) (rest : List Request) :
    registry.afterAll (request :: rest) = (registry.after request).afterAll rest := rfl

theorem afterAll_append (registry : Registry) (front back : List Request) :
    registry.afterAll (front ++ back) = (registry.afterAll front).afterAll back :=
  List.foldl_append

theorem logger_afterAll {requests : List Request} (ho : ∀ request ∈ requests, request.Openable)
    (h : (registry.logger name).handlers ≠ []) :
    (registry.afterAll requests).logger name = registry.logger name := by
  induction requests generalizing registry with
  | nil => rfl
  | cons request rest ih =>
    obtain ⟨hr, hrest⟩ := List.forall_mem_cons.1 ho
    have hstep := logger_after hr h
    rw [afterAll_cons, ih hrest (by rwa [hstep]), hstep]

/-- A refusal may set a level, but never leaves a handler. -/
theorem handlers_of_refusesAll {requests : List Request}
    (ho : ∀ request ∈ requests, request.Openable) (h : (registry.logger name).handlers = [])
    (hr : RefusesAll name registry requests) :
    ((registry.afterAll requests).logger name).handlers = [] := by
  induction requests generalizing registry with
  | nil => exact h
  | cons request rest ih =>
    obtain ⟨ho, hrest⟩ := List.forall_mem_cons.1 ho
    exact ih hrest (handlers_after_of_refused ho h hr.1) hr.2

section Files

theorem mem_appendTo {path text : String} {files : List (String × String)} {other : String} :
    other ∈ (appendTo path text files).map Prod.fst ↔ other = path ∨ other ∈ files.map Prod.fst := by
  induction files with
  | nil => simp [appendTo]
  | cons file files ih =>
    obtain ⟨first, contents⟩ := file
    rw [appendTo]
    split
    · next h => simp [h]
    · simp only [List.map_cons, List.mem_cons, ih]
      exact or_left_comm

/-- The files there are, are those that handlers write to. -/
def Matched (registry : Registry) : Prop :=
  ∀ path, path ∈ registry.files.map Prod.fst ↔ ∃ name, .file path ∈ registry.targets name

theorem targets_setLevel (registry : Registry) (name other : String) (level : Level) :
    (registry.setLevel name level).targets other = registry.targets other := by
  rw [targets, targets, handlers_setLevel]

theorem targets_settle (ho : request.Openable) (other : String) :
    (registry.settle request layout).targets other =
      if Alike other request.name then .console :: (request.file.map Path.normal).toList.map .file
      else registry.targets other := by
  rw [targets, targets, logger_settle]
  split
  · rw [ho.handlers_eq, List.map_cons, List.map_map]
    rfl
  · rfl

theorem files_set (registry : Registry) (name : String) (logger : Logger) :
    (registry.set name logger).files = registry.files := by
  rw [set]
  split <;> rfl

theorem mem_files_settle (ho : request.Openable) (path : String) :
    path ∈ (registry.settle request layout).files.map Prod.fst ↔
      path ∈ (request.file.map Path.normal).toList ∨ path ∈ registry.files.map Prod.fst := by
  have hfiles : ((registry.setLevel request.name request.levelNumber).set request.name
      ⟨request.levelNumber, request.handlers layout⟩).files = registry.files := by
    rw [files_set]
    exact files_set ..
  rw [settle, ho.path?_eq]
  cases request.file.map Path.normal with
  | none => rw [openFile, hfiles, Option.toList_none, List.mem_nil_iff, false_or]
  | some file =>
    rw [openFile, append, mem_appendTo, hfiles, Option.toList_some, List.mem_singleton]

theorem Matched.settle (hm : registry.Matched) (ho : request.Openable)
    (h : (registry.logger request.name).handlers = []) : (registry.settle request layout).Matched := by
  -- The logger gives up no file for its new handlers, as it had none.
  have hnone : registry.targets request.name = [] := by rw [targets, h, List.map_nil]
  intro path
  rw [mem_files_settle ho, hm path]
  constructor
  · intro hp
    obtain hp | ⟨name, hp⟩ := hp
    · refine ⟨request.name, ?_⟩
      rw [targets_settle ho, if_pos (.refl _)]
      exact List.mem_cons_of_mem _ (List.mem_map_of_mem hp)
    · refine ⟨name, ?_⟩
      rw [targets_settle ho, if_neg]
      · exact hp
      · intro ha
        rw [targets, logger_of_alike registry ha, ← targets, hnone] at hp
        cases hp
  · intro hp
    obtain ⟨name, hp⟩ := hp
    rw [targets_settle ho] at hp
    split at hp
    · obtain hp | hp := List.mem_cons.1 hp
      · cases hp
      · obtain ⟨file, hf, he⟩ := List.mem_map.1 hp
        obtain rfl := Target.file.inj he
        exact .inl hf
    · exact .inr ⟨name, hp⟩

theorem Matched.after (hm : registry.Matched) (ho : request.Openable) :
    (registry.after request).Matched := by
  obtain ⟨-, h⟩ | ⟨-, -, h⟩ | ⟨layout, hn, -, h⟩ := configure_cases registry ho
  · rwa [after_of_ok h]
  · rw [after_of_error h]
    intro path
    have hfiles : (registry.setLevel request.name request.levelNumber).files = registry.files :=
      files_set ..
    simp only [targets_setLevel, hfiles]
    exact hm path
  · rw [after_of_ok h]
    exact hm.settle ho hn

theorem Matched.afterAll {requests : List Request} (hm : registry.Matched)
    (ho : ∀ request ∈ requests, request.Openable) : (registry.afterAll requests).Matched := by
  induction requests generalizing registry with
  | nil => exact hm
  | cons request rest ih =>
    obtain ⟨hr, hrest⟩ := List.forall_mem_cons.1 ho
    exact ih (hm.after hr) hrest

theorem handlers_empty (name : String) : (logger {} name).handlers = [] := by
  rw [Registry.logger]
  split <;> rfl

theorem matched_empty : Matched {} := fun path => by simp [targets, handlers_empty]

end Files

/-- While all requests on a logger are refused it has no handlers. The first one that is granted decides the
level and the handlers, whatever came before and whatever comes after, and no later one does anything. The
files are those of the handlers. -/
theorem settled_by_first (requests : List Request) (ho : ∀ request ∈ requests, request.Openable)
    (name : String) :
    (RefusesAll name {} requests → ((afterAll {} requests).logger name).handlers = []) ∧
    (∀ front first back, requests = front ++ first :: back → Alike name first.name →
      RefusesAll name {} front → (afterAll {} front).Grants first →
      ∃ layout, Layout.ofText? first.layoutText = some layout ∧
        (afterAll {} requests).logger name =
          ⟨((first.level.or first.fallback).bind Level.ofName?).getD Level.warning,
            ⟨.console, layout⟩ ::
              (first.file.map Path.normal).toList.map fun path => ⟨.file path, layout⟩⟩ ∧
        ∀ later : Request, Alike name later.name →
          configure later (afterAll {} requests) = .ok () (afterAll {} requests)) ∧
    (∀ request : Request, request.Openable → ((afterAll {} requests).Grants request ↔
      ((afterAll {} requests).logger request.name).handlers ≠ [] ∨
        ∀ text ∈ request.layout, (Layout.ofText? text).isSome)) ∧
    ∀ path, path ∈ (afterAll {} requests).files.map Prod.fst ↔
      ∃ other, .file path ∈ (afterAll {} requests).targets other := by
  refine ⟨handlers_of_refusesAll ho (handlers_empty name), ?_, fun request => grants_iff _,
    Matched.afterAll matched_empty ho⟩
  rintro front first back rfl hname hr ⟨next, hg⟩
  obtain ⟨hfront, hrest⟩ := List.forall_mem_append.1 ho
  obtain ⟨hfirst, hback⟩ := List.forall_mem_cons.1 hrest
  -- Only the third case is left: a settled logger needs a grant in front, by either of its names, and an
  -- unknown layout is refused.
  have hnone : ((afterAll {} front).logger first.name).handlers = [] := by
    rw [← logger_of_alike _ hname]
    exact handlers_of_refusesAll hfront (handlers_empty name) hr
  obtain ⟨hn, -⟩ | ⟨-, -, h⟩ | ⟨layout, -, hl, h⟩ := configure_cases (afterAll {} front) hfirst
  · exact absurd hnone hn
  · cases hg.symm.trans h
  · have hsettled : ((afterAll {} front).after first).logger first.name =
        ⟨first.levelNumber, first.handlers layout⟩ := by
      rw [after_of_ok h, logger_settle, if_pos (.refl _)]
    have hne : (((afterAll {} front).after first).logger first.name).handlers ≠ [] := by
      rw [hsettled]
      exact first.handlers_ne_nil layout
    have hkept : (afterAll {} (front ++ first :: back)).logger first.name =
        ((afterAll {} front).after first).logger first.name := by
      rw [afterAll_append, afterAll_cons, logger_afterAll hback hne]
    refine ⟨layout, hl, ?_, fun later hlater => configure_of_settled ?_⟩
    · rw [logger_of_alike _ hname, hkept, hsettled, first.levelNumber_eq, hfirst.handlers_eq]
    · rw [← logger_of_alike _ hlater, logger_of_alike _ hname, hkept]
      exact hne

/-- On the root a request is refused, then one is granted and one by its other name comes too late. -/
def attempts : List Request :=
  [{ name := "root", level := "DEBUG", layout := "plain" },
    { name := "wire", level := "error", file := "wire.log" },
    { name := "", fallback := "loud", layout := "%(message)s", file := "./logs//all.log" },
    { name := "root", level := "INFO", layout := "", file := "late.log" }]

theorem settled_by_first_attempts :
    (∀ request ∈ attempts, request.Openable) ∧
      (afterAll {} attempts).logger "root" =
        ⟨30, [⟨.console, .message⟩, ⟨.file "logs/all.log", .message⟩]⟩ ∧
      configure { name := "", layout := "plain" } (afterAll {} attempts) =
        .ok () (afterAll {} attempts) := by
  have ho : ∀ request ∈ attempts, request.Openable := by decide
  have hrefused : RefusesAll "root" {} (attempts.take 2) := by
    refine ⟨fun _ => ?_, fun h => absurd h (by decide), trivial⟩
    rw [grants_iff _ (by decide)]
    decide
  have hgranted : (afterAll {} (attempts.take 2)).Grants attempts[2] :=
    (grants_iff _ (by decide)).2 (.inr (by decide +kernel))
  obtain ⟨layout, hl, hlogger, hlater⟩ :=
    (settled_by_first attempts ho "root").2.1 _ _ _ rfl (by decide) hrefused hgranted
  have hmessage : Layout.ofText? "%(message)s" = some .message := by decide +kernel
  obtain rfl := Option.some.inj (hl.symm.trans hmessage)
  exact ⟨ho, hlogger, hlater _ (by decide)⟩

end Registry

end CoinWire.Log
