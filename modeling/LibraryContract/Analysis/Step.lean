import LibraryContract.Diagnostic
import LibraryContract.SymbolTable.Lookup
import LibraryContract.SymbolTable.Registration

/-!
# Steps of an analysis

An analysis is put together from two kinds of steps. A `Check` looks things up in the symbol table
and cannot change it; a `Build` may change it. Both end with a value or give up, and both add to
the diagnostics: a step has no way to see or to remove what was found before it, so whatever
follows from the diagnostics alone holds for every step by its type.

A step gives up for one of two reasons (`Abort`): it has reported an error, and only the
declaration at hand is lost, or the tree has a shape that no parser should hand over, and the
whole analysis fails once everything else has been looked at.

`Check.run_bind_of_ok` and `Build.run_bind_of_ok` say what two steps in a row do: the second sees
the table that the first one left, and their diagnostics follow each other.
-/

namespace LibraryContract

/-- A place where the tree has a shape that the grammar rules out. -/
structure Malformed where
  message : String
  span : Span
deriving DecidableEq, Repr

def Malformed.text (m : Malformed) : String :=
  s!"malformed syntax tree at {m.span.line}:{m.span.column}: {m.message}"

/-- Why a step gave up. -/
inductive Abort
  /-- An error has been reported. -/
  | reported
  | malformed (error : Malformed)
deriving DecidableEq, Repr

/-- How a step ended, and what it found. -/
structure Outcome (α : Type) where
  result : Except Abort α
  diagnostics : Diagnostics

/-- The kind of diagnostic that reports a refused registration. -/
def RegistrationError.kind : RegistrationError → DiagnosticKind
  | .duplicate .. | .invalidScope .. => .duplicateDeclaration
  | .unknownAutomaton _ => .unresolvedAutomaton
  | .signatureMismatch .. => .signatureMismatch

/-! ## Steps that only look -/

/-- A step that reads the symbol table. -/
structure Check (α : Type) where
  run : SymbolTable → Outcome α

namespace Check

def pure (a : α) : Check α := ⟨fun _ => ⟨.ok a, []⟩⟩

/-- A step and, unless it gives up, the next one. -/
def bind (c : Check α) (f : α → Check β) : Check β :=
  ⟨fun t =>
    match c.run t with
    | ⟨.ok a, ds⟩ =>
      let next := (f a).run t
      ⟨next.result, ds ++ next.diagnostics⟩
    | ⟨.error e, ds⟩ => ⟨.error e, ds⟩⟩

instance : Monad Check where
  pure := pure
  bind := bind

/-- Looks something up in the table. -/
def look (f : SymbolTable → α) : Check α := ⟨fun t => ⟨.ok (f t), []⟩⟩

/-- Reports an error and gives up. -/
def fail (kind : DiagnosticKind) (message : String) (span : Span) : Check α :=
  ⟨fun _ => ⟨.error .reported, [.error kind message span]⟩⟩

/-- Gives up on a malformed tree. The error is reported when it has stopped its declaration. -/
def reject (message : String) (span : Span) : Check α :=
  ⟨fun _ => ⟨.error (.malformed ⟨message, span⟩), []⟩⟩

/-- Adds a warning. -/
def warn (kind : DiagnosticKind) (message : String) (span : Span) : Check Unit :=
  ⟨fun _ => ⟨.ok (), [.warning kind message span]⟩⟩

/-- The result of two results: a malformed part, the left one first, wins over a reported one. -/
def pair : Except Abort α → Except Abort β → Except Abort (α × β)
  | .ok a, .ok b => .ok (a, b)
  | .error (.malformed m), _ => .error (.malformed m)
  | _, .error (.malformed m) => .error (.malformed m)
  | _, _ => .error .reported

/-- Two steps that both run, so that neither hides what the other finds. -/
def both (c : Check α) (d : Check β) : Check (α × β) :=
  ⟨fun t =>
    let left := c.run t
    let right := d.run t
    ⟨pair left.result right.result, left.diagnostics ++ right.diagnostics⟩⟩

theorem run_bind_of_ok {c : Check α} {f : α → Check β} {t : SymbolTable} {a : α}
    (h : (c.run t).result = .ok a) :
    (bind c f).run t =
      ⟨((f a).run t).result, (c.run t).diagnostics ++ ((f a).run t).diagnostics⟩ := by
  simp only [bind]
  rcases hc : c.run t with ⟨r, ds⟩
  rw [hc] at h
  cases h
  rfl

theorem run_bind_of_error {c : Check α} {f : α → Check β} {t : SymbolTable} {e : Abort}
    (h : (c.run t).result = .error e) :
    (bind c f).run t = ⟨.error e, (c.run t).diagnostics⟩ := by
  simp only [bind]
  rcases hc : c.run t with ⟨r, ds⟩
  rw [hc] at h
  cases h
  rfl

theorem ext {c d : Check α} (h : ∀ t, c.run t = d.run t) : c = d := by
  cases c; cases d; simp only [mk.injEq]; exact funext h

instance : LawfulMonad Check := LawfulMonad.mk' Check
  (by
    intro α c
    refine ext fun t => ?_
    cases h : (c.run t).result with
    | ok a =>
      refine (run_bind_of_ok h).trans ?_
      rcases hc : c.run t with ⟨r, ds⟩
      rw [hc] at h
      cases h
      simp [Function.comp, pure]
    | error e =>
      refine (run_bind_of_error h).trans ?_
      rcases hc : c.run t with ⟨r, ds⟩
      rw [hc] at h
      cases h
      rfl)
  (by
    intro α β a f
    refine ext fun t => ?_
    exact (run_bind_of_ok (c := pure a) rfl).trans (by simp [pure]))
  (by
    intro α β γ c f g
    refine ext fun t => ?_
    show (bind (bind c f) g).run t = (bind c fun a => bind (f a) g).run t
    cases h : (c.run t).result with
    | error e =>
      have hb := run_bind_of_error (f := f) h
      rw [run_bind_of_error h, run_bind_of_error (e := e) (by rw [hb]), hb]
    | ok a =>
      have hb := run_bind_of_ok (f := f) h
      rw [run_bind_of_ok h]
      cases hf : ((f a).run t).result with
      | error e =>
        rw [run_bind_of_error (e := e) (by rw [hb]; exact hf), run_bind_of_error hf, hb]
      | ok b =>
        rw [run_bind_of_ok (a := b) (by rw [hb]; exact hf), run_bind_of_ok hf, hb]
        simp)

end Check

/-! ## Steps that register -/

/-- A step that may change the symbol table. What it changed before it gave up stays changed. -/
structure Build (α : Type) where
  run : SymbolTable → Outcome α × SymbolTable

namespace Build

def pure (a : α) : Build α := ⟨fun t => (⟨.ok a, []⟩, t)⟩

/-- A step and, unless it gives up, the next one. -/
def bind (b : Build α) (f : α → Build β) : Build β :=
  ⟨fun t =>
    match b.run t with
    | (⟨.ok a, ds⟩, t) =>
      let (next, t) := (f a).run t
      (⟨next.result, ds ++ next.diagnostics⟩, t)
    | (⟨.error e, ds⟩, t) => (⟨.error e, ds⟩, t)⟩

instance : Monad Build where
  pure := pure
  bind := bind

/-- A step that only looks, among steps that may register. -/
def ofCheck (c : Check α) : Build α := ⟨fun t => (c.run t, t)⟩

instance : MonadLift Check Build := ⟨ofCheck⟩

def modify (f : SymbolTable → SymbolTable) : Build Unit := ⟨fun t => (⟨.ok (), []⟩, f t)⟩

/-- Adds an error and goes on. -/
def note (kind : DiagnosticKind) (message : String) (span : Span) : Build Unit :=
  ⟨fun t => (⟨.ok (), [.error kind message span]⟩, t)⟩

/-- Registers something; a refusal is reported at `span`. -/
def register (f : SymbolTable → Except RegistrationError (α × SymbolTable)) (span : Span) :
    Build α :=
  ⟨fun t =>
    match f t with
    | .ok (a, t) => (⟨.ok a, []⟩, t)
    | .error e => (⟨.error .reported, [.error e.kind e.message span]⟩, t)⟩

/-- Registers something that gives no value. -/
def registerUnit (f : SymbolTable → Except RegistrationError SymbolTable) (span : Span) :
    Build Unit :=
  register (fun t => (f t).map fun t => ((), t)) span

/-- A step whose reported errors are no reason to give up. -/
def attempt (b : Build α) : Build (Option α) :=
  ⟨fun t =>
    match b.run t with
    | (⟨.ok a, ds⟩, t) => (⟨.ok (some a), ds⟩, t)
    | (⟨.error .reported, ds⟩, t) => (⟨.ok none, ds⟩, t)
    | (⟨.error (.malformed m), ds⟩, t) => (⟨.error (.malformed m), ds⟩, t)⟩

theorem run_bind_of_ok {b : Build α} {f : α → Build β} {t : SymbolTable} {a : α}
    (h : (b.run t).1.result = .ok a) :
    (bind b f).run t =
      (⟨((f a).run (b.run t).2).1.result,
        (b.run t).1.diagnostics ++ ((f a).run (b.run t).2).1.diagnostics⟩,
        ((f a).run (b.run t).2).2) := by
  simp only [bind]
  rcases hb : b.run t with ⟨⟨r, ds⟩, u⟩
  rw [hb] at h
  cases h
  rfl

theorem run_bind_of_error {b : Build α} {f : α → Build β} {t : SymbolTable} {e : Abort}
    (h : (b.run t).1.result = .error e) :
    (bind b f).run t = (⟨.error e, (b.run t).1.diagnostics⟩, (b.run t).2) := by
  simp only [bind]
  rcases hb : b.run t with ⟨⟨r, ds⟩, u⟩
  rw [hb] at h
  cases h
  rfl

theorem ext {b c : Build α} (h : ∀ t, b.run t = c.run t) : b = c := by
  cases b; cases c; simp only [mk.injEq]; exact funext h

instance : LawfulMonad Build := LawfulMonad.mk' Build
  (by
    intro α b
    refine ext fun t => ?_
    cases h : (b.run t).1.result with
    | ok a =>
      refine (run_bind_of_ok h).trans ?_
      rcases hb : b.run t with ⟨⟨r, ds⟩, u⟩
      rw [hb] at h
      cases h
      simp [Function.comp, pure]
    | error e =>
      refine (run_bind_of_error h).trans ?_
      rcases hb : b.run t with ⟨⟨r, ds⟩, u⟩
      rw [hb] at h
      cases h
      rfl)
  (by
    intro α β a f
    refine ext fun t => ?_
    exact (run_bind_of_ok (b := pure a) rfl).trans (by simp [pure]))
  (by
    intro α β γ b f g
    refine ext fun t => ?_
    show (bind (bind b f) g).run t = (bind b fun a => bind (f a) g).run t
    cases h : (b.run t).1.result with
    | error e =>
      have hb := run_bind_of_error (f := f) h
      rw [run_bind_of_error h, run_bind_of_error (e := e) (by rw [hb]), hb]
    | ok a =>
      have hb := run_bind_of_ok (f := f) h
      rw [run_bind_of_ok h]
      cases hf : ((f a).run (b.run t).2).1.result with
      | error e =>
        rw [run_bind_of_error (e := e) (by rw [hb]; exact hf), run_bind_of_error hf, hb]
      | ok c =>
        rw [run_bind_of_ok (a := c) (by rw [hb]; exact hf), run_bind_of_ok hf, hb]
        simp)

end Build

end LibraryContract
