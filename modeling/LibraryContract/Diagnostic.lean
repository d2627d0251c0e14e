import LibraryContract.Span

/-!
# Diagnostics

What the checker has to say about a contract: a kind, a message, a level and usually a place.
Diagnostics are kept in the order in which they were found and are never taken back.
-/

namespace LibraryContract

/-- What a diagnostic is about. -/
inductive DiagnosticKind
  | duplicateDeclaration
  | unresolvedType
  | unresolvedAutomaton
  | unresolvedFunction
  | unresolvedVariable
  | unresolvedAnnotationUse
  | ambiguousOverload
  | unknownState
  | unknownField
  | invalidShift
  | missingOwner
  | conflictingOwner
  | invalidType
  | invalidAccess
  | invalidAnnotationUse
  | invalidOldValue
  | invalidConstructorCall
  | signatureMismatch
  | malformedTree
deriving DecidableEq, Repr

def DiagnosticKind.describe : DiagnosticKind → String
  | .duplicateDeclaration => "duplicate declaration"
  | .unresolvedType => "unresolved type"
  | .unresolvedAutomaton => "unresolved automaton"
  | .unresolvedFunction => "unresolved function"
  | .unresolvedVariable => "unresolved variable"
  | .unresolvedAnnotationUse => "unresolved annotation"
  | .ambiguousOverload => "ambiguous overload"
  | .unknownState => "unknown state"
  | .unknownField => "unknown field"
  | .invalidShift => "invalid shift"
  | .missingOwner => "missing automaton"
  | .conflictingOwner => "conflicting automaton"
  | .invalidType => "invalid type"
  | .invalidAccess => "invalid access"
  | .invalidAnnotationUse => "invalid annotation"
  | .invalidOldValue => "invalid old value"
  | .invalidConstructorCall => "invalid constructor call"
  | .signatureMismatch => "signature mismatch"
  | .malformedTree => "malformed syntax tree"

/-- How bad a diagnostic is. Only errors make a contract fail. -/
inductive DiagnosticLevel
  | error
  | warning
deriving DecidableEq, Repr

def DiagnosticLevel.describe : DiagnosticLevel → String
  | .error => "error"
  | .warning => "warning"

/-- A finding about a contract. -/
structure Diagnostic where
  level : DiagnosticLevel
  kind : DiagnosticKind
  message : String
  span : Option Span
deriving DecidableEq, Repr

namespace Diagnostic

def error (kind : DiagnosticKind) (message : String) (span : Span) : Diagnostic :=
  ⟨.error, kind, message, some span⟩

def warning (kind : DiagnosticKind) (message : String) (span : Span) : Diagnostic :=
  ⟨.warning, kind, message, some span⟩

def isError (d : Diagnostic) : Bool := decide (d.level = .error)

/-- A diagnostic on one line; the place follows the kind when there is one. -/
def text (d : Diagnostic) : String :=
  let place :=
    match d.span with
    | some s => s!" {s.line}:{s.column}"
    | none => ""
  s!"{d.level.describe}[{d.kind.describe}]{place}: {d.message}"

end Diagnostic

/-- Diagnostics in the order in which they were found. -/
abbrev Diagnostics := List Diagnostic

namespace Diagnostics

def hasErrors (ds : Diagnostics) : Bool := ds.any Diagnostic.isError

def errorCount (ds : Diagnostics) : Nat := ds.countP Diagnostic.isError

def ofKind (ds : Diagnostics) (kind : DiagnosticKind) : Diagnostics :=
  ds.filter fun d => decide (d.kind = kind)

theorem hasErrors_iff_errorCount_pos (ds : Diagnostics) :
    hasErrors ds = true ↔ 0 < errorCount ds := by
  simp [hasErrors, errorCount, List.countP_pos_iff]

theorem hasErrors_append (ds es : Diagnostics) :
    hasErrors (ds ++ es) = (hasErrors ds || hasErrors es) := List.any_append

end Diagnostics

end LibraryContract
