import ContainerLint.Log.Event
import ContainerLint.Text.CharClass

/-!
# Log filters

A filter is a list of directives: a target with the most verbose level that is let through, or such
a level for all targets. It is written with commas between the directives, for instance
`warn,storage=debug`.

## Main definitions

* `LogThreshold` — the most verbose level that is let through, or none.
* `LogFilter` — directives, the more specific ones first.
* `LogFilter.parse?`, `LogFilter.render` — reading and writing filters.
* `LogFilter.allows` — whether an event passes a filter.
-/

set_option autoImplicit false

namespace ContainerLint

open Text

/-- The most verbose level that is let through. -/
inductive LogThreshold where
  | off
  | upTo (level : LogLevel)
deriving DecidableEq, Inhabited

namespace LogThreshold

/-- All thresholds, by verbosity. -/
def all : List LogThreshold :=
  [.off, .upTo .error, .upTo .warn, .upTo .info, .upTo .debug, .upTo .trace]

/-- The name of a threshold in a filter. -/
def name : LogThreshold → String
  | .off => "off"
  | .upTo .error => "error"
  | .upTo .warn => "warn"
  | .upTo .info => "info"
  | .upTo .debug => "debug"
  | .upTo .trace => "trace"

/-- The verbosity that is let through. -/
def verbosity : LogThreshold → Nat
  | .off => 0
  | .upTo level => level.verbosity

/-- The number that decimal digits spell, with or without a plus sign. -/
def number? (text : List Char) : Option Nat :=
  let digits :=
    match text with
    | '+' :: rest => rest
    | _ => text
  if digits.isEmpty || !digits.all Char.isDigit then none
  else some (digits.foldl (fun n c => 10 * n + (c.toNat - '0'.toNat)) 0)

/-- The threshold that a text names, by number or by name in upper or lower case. -/
def parse? (text : String) : Option LogThreshold :=
  match number? text.toList with
  | some n => all[n]?
  | none => all.find? fun t => t.name.toList == text.toList.map Char.toLower

end LogThreshold

/-- A rule for the targets that start with `target`, or for all targets. -/
structure LogDirective where
  target : Option String
  threshold : LogThreshold
deriving DecidableEq, Inhabited

namespace LogDirective

/-- Whether the first directive is listed before the second: longer targets first, of equally long
ones the greater first, the rule for all targets last. -/
def precedes (a b : LogDirective) : Bool :=
  match a.target, b.target with
  | _, none => true
  | none, some _ => false
  | some s, some t =>
    t.utf8ByteSize < s.utf8ByteSize || (s.utf8ByteSize == t.utf8ByteSize && decide (t ≤ s))

/-- The directive as it is written. -/
def render (d : LogDirective) : String :=
  match d.target with
  | none => d.threshold.name
  | some target => target ++ "=" ++ d.threshold.name

/-- Whether a directive can start with this character. -/
def isStart (c : Char) : Bool :=
  c == '-' || c == ':' || c == '_' || isLetterOrNumber c

/-- Read a directive. A level alone is a rule for all targets, a target alone lets everything
through. What a directive starts with is asked of its text without the blanks at its ends, but these
blanks belong to it: a level between blanks is taken for a target, and a target with a level has no
blanks in front of it. -/
def parse? (text : String) : Option LogDirective :=
  if !(trimChars text.toList).head?.any isStart then none
  else
    match cutAt ['='] text.toList with
    | none =>
      match LogThreshold.parse? text with
      | some threshold => some { target := none, threshold }
      | none => some { target := some text, threshold := .upTo .trace }
    | some (target, level) =>
      if target.head?.any isBlank then none
      else
        let target := some (String.ofList target)
        if level.isEmpty then some { target, threshold := .upTo .trace }
        else (LogThreshold.parse? (String.ofList level)).map fun threshold => { target, threshold }

/-- Whether the directive is about a target. -/
def concerns (d : LogDirective) (target : String) : Bool :=
  match d.target with
  | none => true
  | some start => start.toList.isPrefixOf target.toList

end LogDirective

/-- Directives, in the order in which they are asked. -/
structure LogFilter where
  directives : List LogDirective := []
deriving DecidableEq, Inhabited

namespace LogFilter

/-- Put a directive in front of the first one that it precedes. -/
def insert (d : LogDirective) : List LogDirective → List LogDirective
  | [] => [d]
  | e :: rest => if d.precedes e then d :: e :: rest else e :: insert d rest

/-- Add a directive in place of the one for the same target. -/
def add (f : LogFilter) (d : LogDirective) : LogFilter where
  directives := insert d (f.directives.filter fun e => e.target ≠ d.target)

/-- The filter with a threshold for all targets. -/
def ofLevel (level : LogLevel) : LogFilter :=
  LogFilter.add {} { target := none, threshold := .upTo level }

/-- Read a filter. Empty directives do not count. -/
def parse? (text : String) : Option LogFilter := do
  let directives ← ((splitAt ',' text).filter (!·.isEmpty)).mapM LogDirective.parse?
  return directives.foldl add {}

/-- The filter as it is written. -/
def render (f : LogFilter) : String :=
  ",".intercalate (f.directives.map LogDirective.render)

/-- Whether an event passes: the first directive that concerns its target decides. -/
def allows (f : LogFilter) (r : LogRecord) : Bool :=
  match f.directives.find? fun d => d.concerns r.target with
  | some d => r.level.verbosity ≤ d.threshold.verbosity
  | none => false

end LogFilter

end ContainerLint
