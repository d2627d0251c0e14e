import LibraryContract.Session

/-!
# Analyses in one session do not meet

All analyses of a session write to one list of diagnostics. Nothing in an analysis looks at that
list, so whatever was found before only stands in front of what is found now.

* `Run.after`: a run with earlier diagnostics in front of its own. Every way of doing work has a
  lemma that the earlier diagnostics stay in front, `Run.settle_after` for one piece and the others
  from it, up to `Run.analyzeAfter_eq` for an analysis.
* `Session.Call`, `Session.after`: what a session is asked to do, and the session after that.
* `Session.after_eq`: the diagnostics of a session are those of its calls, one list behind the
  other, each as in a session of its own.
* `Session.calls_do_not_interfere`: the next call of any session.
-/

namespace LibraryContract

namespace Run

variable {α β : Type} (earlier : Diagnostics)

/-- The run with earlier diagnostics in front of its own. -/
def after (earlier : Diagnostics) (r : Run) : Run :=
  { r with diagnostics := earlier ++ r.diagnostics }

@[simp] theorem diagnostics_after (r : Run) :
    (r.after earlier).diagnostics = earlier ++ r.diagnostics := rfl

@[simp] theorem malformed_after (r : Run) : (r.after earlier).malformed = r.malformed := rfl

@[simp] theorem table_after (r : Run) : (r.after earlier).table = r.table := rfl

theorem settle_after (step : Build α) (r : Run) :
    (r.after earlier).settle step = ((r.settle step).1, (r.settle step).2.after earlier) := by
  simp only [settle, table_after]
  rcases hr : step.run r.table with ⟨⟨(_ | m) | a, ds⟩, u⟩ <;> simp [hr, after]

theorem performAll_after (step : α → Build β) (items : List α) (r : Run) :
    (r.after earlier).performAll step items = (r.performAll step items).after earlier := by
  induction items generalizing r with
  | nil => rfl
  | cons a rest ih =>
    have ha : (r.after earlier).perform (step a) = (r.perform (step a)).after earlier := by
      simp only [perform, settle_after]
    calc (r.after earlier).performAll step (a :: rest)
        = ((r.after earlier).perform (step a)).performAll step rest := rfl
      _ = ((r.perform (step a)).after earlier).performAll step rest := by rw [ha]
      _ = (r.performAll step (a :: rest)).after earlier := ih _

theorem collect_after (step : α → Build β) (items : List α) (r : Run) :
    (r.after earlier).collect step items =
      ((r.collect step items).1, (r.collect step items).2.after earlier) := by
  induction items generalizing r with
  | nil => rfl
  | cons a rest ih => simp only [collect, settle_after, ih]

theorem registerSignature_after (options : Options) (operations : List PendingOperation) (r : Run)
    (item : SyntaxTree.FunctionDecl × Option AutomatonId) :
    registerSignature options (operations, r.after earlier) item =
      ((registerSignature options (operations, r) item).1,
        (registerSignature options (operations, r) item).2.after earlier) := by
  simp only [registerSignature, settle_after]
  split <;> rfl

theorem registerSignatures_after (options : Options) (automata : List PendingAutomaton)
    (topLevel : List SyntaxTree.FunctionDecl) (r : Run) :
    (r.after earlier).registerSignatures options automata topLevel =
      ((r.registerSignatures options automata topLevel).1,
        (r.registerSignatures options automata topLevel).2.after earlier) := by
  have hrun : ∀ (items : List (SyntaxTree.FunctionDecl × Option AutomatonId)) operations r,
      items.foldl (registerSignature options) (operations, after earlier r) =
        ((items.foldl (registerSignature options) (operations, r)).1,
          (items.foldl (registerSignature options) (operations, r)).2.after earlier) := by
    intro items
    induction items with
    | nil => exact fun _ _ => rfl
    | cons item rest ih =>
      intro operations r
      rw [List.foldl_cons, registerSignature_after, ih, List.foldl_cons]
  exact hrun _ _ _

theorem elaborateAutomaton_after (r : Run) (a : PendingAutomaton) :
    (r.after earlier).elaborateAutomaton a = (r.elaborateAutomaton a).after earlier := by
  simp only [elaborateAutomaton, performAll_after]

theorem elaborateAutomata_after (automata : List PendingAutomaton) (r : Run) :
    automata.foldl elaborateAutomaton (r.after earlier) =
      (automata.foldl elaborateAutomaton r).after earlier := by
  induction automata generalizing r with
  | nil => rfl
  | cons a rest ih => rw [List.foldl_cons, elaborateAutomaton_after, ih, List.foldl_cons]

theorem complete_after (options : Options) (library : SyntaxTree.Library) (r : Run) :
    (r.after earlier).complete options library = (r.complete options library).after earlier := by
  simp only [complete, registerTypes, registerAnnotations, registerGlobals, registerAutomata,
    collect_after, performAll_after, registerSignatures_after, elaborateAutomata_after]

/-- An analysis after others is the analysis of the library on its own, with the earlier
diagnostics in front. -/
theorem analyzeAfter_eq (options : Options) (library : SyntaxTree.Library) :
    analyzeAfter earlier options library = (analyze options library).after earlier := by
  have hstart : ({ start with diagnostics := earlier } : Run) = start.after earlier := by
    simp [start, after]
  rw [analyzeAfter, hstart, complete_after, analyze]

end Run

namespace Session

/-- What a session can be asked to do. -/
inductive Call
  | analyze (library : SyntaxTree.Library)
  | compile (library : SyntaxTree.Library)

/-- The library of a call. -/
def Call.library : Call → SyntaxTree.Library
  | .analyze library => library
  | .compile library => library

/-- The session after a call. -/
def call (s : Session) : Call → Session
  | .analyze library => (s.analyze library).2
  | .compile library => (s.compile library).2

/-- The session after calls in a row. -/
def after (s : Session) (calls : List Call) : Session := calls.foldl call s

/-- The first malformed place of the tree, or the library. -/
theorem analyze_fst (s : Session) (library : SyntaxTree.Library) :
    (s.analyze library).1 =
      match (Run.analyze s.options library).malformed with
      | some m => .error m
      | none => .ok (.ofTree library (Run.analyze s.options library).table) := by
  simp only [analyze, Run.analyzeAfter_eq, Run.malformed_after, Run.table_after]
  cases (Run.analyze s.options library).malformed <;> rfl

/-- Diagnostics are only added. -/
theorem analyze_snd (s : Session) (library : SyntaxTree.Library) :
    (s.analyze library).2 =
      { s with diagnostics := s.diagnostics ++ (Run.analyze s.options library).diagnostics } := by
  simp only [analyze, Run.analyzeAfter_eq, Run.malformed_after, Run.diagnostics_after]
  cases (Run.analyze s.options library).malformed <;> rfl

theorem diagnostics_analyze_start (options : Options) (library : SyntaxTree.Library) :
    ((start options).analyze library).2.diagnostics =
      (Run.analyze options library).diagnostics := by
  rw [analyze_snd]
  rfl

/-- A compilation leaves what the analysis leaves. -/
theorem compile_snd (s : Session) (library : SyntaxTree.Library) :
    (s.compile library).2 = (s.analyze library).2 := by
  unfold compile
  rcases s.analyze library with ⟨m | l, u⟩
  · rfl
  · dsimp only
    split <;> rfl

theorem compile_eq_ok_iff {s : Session} {library : SyntaxTree.Library} {l : Library} :
    (s.compile library).1 = .ok l ↔
      (s.analyze library).1 = .ok l ∧ (s.analyze library).2.diagnostics.hasErrors = false := by
  unfold compile
  rcases s.analyze library with ⟨m | l', u⟩
  · simp
  · dsimp only
    cases u.diagnostics.hasErrors <;> simp

theorem call_eq (s : Session) (c : Call) :
    s.call c =
      { s with diagnostics := s.diagnostics ++ (Run.analyze s.options c.library).diagnostics } := by
  cases c with
  | analyze library => simp only [call, analyze_snd, Call.library]
  | compile library => simp only [call, compile_snd, analyze_snd, Call.library]

/-- The diagnostics of a session are those of its calls, each as on its own. -/
theorem after_eq (options : Options) (calls : List Call) :
    (start options).after calls =
      ⟨options, calls.flatMap fun c => (Run.analyze options c.library).diagnostics⟩ := by
  have hrun : ∀ (calls : List Call) (ds : Diagnostics), (Session.mk options ds).after calls =
      ⟨options, ds ++ calls.flatMap fun c => (Run.analyze options c.library).diagnostics⟩ := by
    intro calls
    induction calls with
    | nil => simp [after]
    | cons c rest ih =>
      intro ds
      have hrest := ih (ds ++ (Run.analyze options c.library).diagnostics)
      have hcall : (Session.mk options ds).after (c :: rest) =
          ((Session.mk options ds).call c).after rest := rfl
      rw [hcall, call_eq, hrest]
      simp
  simpa [start] using hrun calls []

/-- Whatever a session was asked before, an analysis comes out as in a new session, and adds to the
diagnostics what it would find there. A compilation leaves the same session, and gives the library
of the analysis unless there is an error in the session by then. -/
theorem calls_do_not_interfere (options : Options) (calls : List Call)
    (library : SyntaxTree.Library) :
    (((start options).after calls).analyze library).1 = ((start options).analyze library).1 ∧
      (((start options).after calls).analyze library).2 =
        ⟨options, ((start options).after calls).diagnostics ++
          ((start options).analyze library).2.diagnostics⟩ ∧
      (((start options).after calls).compile library).2 =
        (((start options).after calls).analyze library).2 ∧
      ∀ l, (((start options).after calls).compile library).1 = .ok l ↔
        (((start options).after calls).analyze library).1 = .ok l ∧
          ∀ d ∈ (((start options).after calls).analyze library).2.diagnostics,
            d.level ≠ .error := by
  have hoptions : ((start options).after calls).options = options := by rw [after_eq]
  refine ⟨?_, ?_, compile_snd _ _, fun l => ?_⟩
  · rw [analyze_fst, analyze_fst, hoptions]
    rfl
  · rw [analyze_snd, hoptions, diagnostics_analyze_start]
  · rw [compile_eq_ok_iff]
    simp [Diagnostics.hasErrors, Diagnostic.isError]

end Session

end LibraryContract
