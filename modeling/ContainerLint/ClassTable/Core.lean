import ContainerLint.ClassTable.Basic

/-!
# The core class table

The smallest table in which the typing rules make sense: `Object`, `String`, `Number`, the wrapper
classes, `Cloneable` and `Serializable`.

## Main definitions

* `ClassTable.core` — that table; its thirteen classes are numbered from zero.
-/

set_option autoImplicit false

namespace ContainerLint

namespace ClassTable.Core

/-- The number of `java.lang.Object`. -/
def object : ClassId := ⟨0⟩

/-- The number of `java.lang.String`. -/
def string : ClassId := ⟨1⟩

/-- The number of `java.lang.Cloneable`. -/
def cloneable : ClassId := ⟨2⟩

/-- The number of `java.io.Serializable`. -/
def serializable : ClassId := ⟨3⟩

/-- The number of `java.lang.Number`. -/
def number : ClassId := ⟨4⟩

/-- The number of a wrapper class: they follow `Number` in the order of `Primitive.all`. -/
def box : Primitive → ClassId
  | .boolean => ⟨5⟩
  | .byte => ⟨6⟩
  | .short => ⟨7⟩
  | .char => ⟨8⟩
  | .int => ⟨9⟩
  | .long => ⟨10⟩
  | .float => ⟨11⟩
  | .double => ⟨12⟩

/-- The numbers that the typing rules refer to. -/
def known : WellKnown where
  object := object
  string := string
  integer := box .int
  cloneable := cloneable
  serializable := serializable
  box := box

/-- A defined row of the table. -/
def slot (d : ClassDef) : ClassSlot :=
  { name := d.name, defn := some d }

/-- A final class that implements `Serializable`. -/
def finalClass (name : String) (superClass : ClassId) : ClassSlot :=
  slot { name, isFinal := true, superClass := some (.cls superClass []),
         interfaces := [.cls serializable []] }

/-- The superclass of a wrapper: `Number` for the numeric types. -/
def boxSuper : Primitive → ClassId
  | .boolean => object
  | .char => object
  | _ => number

end ClassTable.Core

open ClassTable.Core in
/-- The core class table. -/
def ClassTable.core : ClassTable where
  slots :=
    [slot { name := "java.lang.Object" },
      finalClass "java.lang.String" object,
      slot { name := "java.lang.Cloneable", kind := .interface },
      slot { name := "java.io.Serializable", kind := .interface },
      slot { name := "java.lang.Number", superClass := some (.cls object []),
             interfaces := [.cls serializable []] }]
    ++ Primitive.all.map fun p => finalClass p.boxName (boxSuper p)
  params := []
  known := ClassTable.Core.known

end ContainerLint
