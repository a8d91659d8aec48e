import ContainerLint.ClassTable.Core
import ContainerLint.Declaration.Declare

/-!
# The library class table

The part of `java.lang` and `java.util` that the catalogs of container methods refer to, declared
on top of the core table.

## Main definitions

* `libraryDecls` — the declarations.
* `ClassTable.library` — the core table with these declarations entered.
-/

set_option autoImplicit false

namespace ContainerLint

namespace ClassDecl

/-- A declared interface. -/
def interface (name : String) (typeParams extended : List String) : ClassDecl :=
  { name, kind := .interface, typeParams, extended }

/-- A declared class. -/
def cls (name : String) (typeParams extended implemented : List String) : ClassDecl :=
  { name, typeParams, extended, implemented }

end ClassDecl

open ClassDecl in
/-- The declared part of the class library. -/
def libraryDecls : List ClassDecl := [
  interface "java.lang.Comparable" ["T"] [],
  interface "java.lang.CharSequence" [] [],
  interface "java.lang.Iterable" ["T"] [],
  interface "java.lang.Runnable" [] [],
  { cls "java.lang.String" [] []
      ["java.io.Serializable", "java.lang.Comparable<java.lang.String>",
        "java.lang.CharSequence"] with isFinal := true },
  { cls "java.lang.StringBuilder" [] []
      ["java.io.Serializable", "java.lang.CharSequence"] with isFinal := true },
  cls "java.lang.Enum" ["E extends java.lang.Enum<E>"] []
    ["java.lang.Comparable<E>", "java.io.Serializable"],
  cls "java.lang.Record" [] [] [],
  interface "java.lang.annotation.Annotation" [] [],
  interface "java.util.Collection" ["E"] ["java.lang.Iterable<E>"],
  interface "java.util.List" ["E"] ["java.util.Collection<E>"],
  interface "java.util.Set" ["E"] ["java.util.Collection<E>"],
  interface "java.util.Queue" ["E"] ["java.util.Collection<E>"],
  interface "java.util.Deque" ["E"] ["java.util.Queue<E>"],
  interface "java.util.Map" ["K", "V"] [],
  interface "java.util.RandomAccess" [] [],
  cls "java.util.AbstractCollection" ["E"] [] ["java.util.Collection<E>"],
  cls "java.util.AbstractList" ["E"] ["java.util.AbstractCollection<E>"] ["java.util.List<E>"],
  cls "java.util.AbstractSet" ["E"] ["java.util.AbstractCollection<E>"] ["java.util.Set<E>"],
  cls "java.util.ArrayList" ["E"] ["java.util.AbstractList<E>"]
    ["java.util.List<E>", "java.util.RandomAccess", "java.lang.Cloneable",
      "java.io.Serializable"],
  cls "java.util.LinkedList" ["E"] ["java.util.AbstractList<E>"]
    ["java.util.List<E>", "java.util.Deque<E>", "java.lang.Cloneable", "java.io.Serializable"],
  cls "java.util.ArrayDeque" ["E"] ["java.util.AbstractCollection<E>"]
    ["java.util.Deque<E>", "java.lang.Cloneable", "java.io.Serializable"],
  cls "java.util.HashSet" ["E"] ["java.util.AbstractSet<E>"]
    ["java.util.Set<E>", "java.lang.Cloneable", "java.io.Serializable"],
  cls "java.util.Vector" ["E"] ["java.util.AbstractList<E>"]
    ["java.util.List<E>", "java.util.RandomAccess", "java.lang.Cloneable",
      "java.io.Serializable"],
  cls "java.util.Stack" ["E"] ["java.util.Vector<E>"] [],
  cls "java.util.AbstractMap" ["K", "V"] [] ["java.util.Map<K, V>"],
  cls "java.util.HashMap" ["K", "V"] ["java.util.AbstractMap<K, V>"]
    ["java.util.Map<K, V>", "java.lang.Cloneable", "java.io.Serializable"],
  cls "java.util.Dictionary" ["K", "V"] [] [],
  cls "java.util.Hashtable" ["K", "V"] ["java.util.Dictionary<K, V>"]
    ["java.util.Map<K, V>", "java.lang.Cloneable", "java.io.Serializable"],
  cls "java.util.Properties" [] ["java.util.Hashtable<java.lang.Object, java.lang.Object>"] [],
  interface "java.util.function.Function" ["T", "R"] []]

/-- The core table with the class library declared. -/
def ClassTable.library : ClassTable :=
  (ClassTable.core.declare libraryDecls).1

end ContainerLint
