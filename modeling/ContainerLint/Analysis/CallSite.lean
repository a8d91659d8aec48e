import ContainerLint.Ty.Basic

/-!
# Call sites and reports about them

A call site is what a type checker knows of a method call. What is found there is reported with the
stretch of the source text where the call stands.

## Main definitions

* `Span` — a stretch of a source text.
* `CallSite` — a method call, as a type checker sees it.
* `Severity` — how serious a report is.
* `Diagnostic` — a report about a place in a source text.
-/

set_option autoImplicit false

namespace ContainerLint

/-! ## Call sites -/

/-- A stretch of a source text, in bytes. -/
structure Span where
  start : Nat
  stop : Nat
deriving DecidableEq, Inhabited

namespace Span

/-- The number of bytes. A span that ends before it starts has none. -/
def length (s : Span) : Nat :=
  s.stop - s.start

/-- Whether the span has no bytes. -/
def isEmpty (s : Span) : Bool :=
  s.stop ≤ s.start

/-- The span as it is shown to developers. -/
def debug (s : Span) : String :=
  "Span(" ++ toString s.start ++ ".." ++ toString s.stop ++ ")"

end Span

/-- A method call. -/
structure CallSite where
  /-- Static type of the receiver. -/
  receiver : Ty
  /-- Name of the method. -/
  method : String
  /-- Declared types of the parameters, erased or not. -/
  params : List Ty := []
  /-- Static types of the arguments. -/
  args : List Ty := []
  /-- Where the call stands. -/
  span : Option Span := none
deriving DecidableEq, Inhabited

/-! ## Reports -/

/-- How serious a report is. -/
inductive Severity where
  | error
  | warning
  | info
deriving DecidableEq, Inhabited

/-- All severities. -/
def Severity.all : List Severity :=
  [.error, .warning, .info]

/-- The name of a severity. -/
def Severity.name : Severity → String
  | .error => "error"
  | .warning => "warning"
  | .info => "info"

/-- A report about a place in a source text. -/
structure Diagnostic where
  severity : Severity
  code : String
  message : String
  span : Option Span := none
deriving DecidableEq, Inhabited

/-- A report of an error. -/
def Diagnostic.error (code message : String) (span : Option Span) : Diagnostic :=
  { severity := .error, code, message, span }

/-- A report of something doubtful. -/
def Diagnostic.warning (code message : String) (span : Option Span) : Diagnostic :=
  { severity := .warning, code, message, span }

end ContainerLint
