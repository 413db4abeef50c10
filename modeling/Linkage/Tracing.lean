/-!
# Linkage.Tracing — which functions of a module are traced

A module binds names to functions, to classes with members of their own, and to other things.  Instrumenting it traces
its own functions and the methods of its own classes, except for names that are to be skipped; a method may be skipped by
its bare name, by its name qualified with that of its class, or with its whole class by a name the class is bound to.
-/

namespace Linkage.Tracing

/-- A function: the module it was defined in, its own name, whether it is marked as traced, and the operations that its
calls are reported as, the outermost first. -/
structure Function where
  origin : String
  name : String := ""
  traced : Bool := false
  operations : List String := []
deriving DecidableEq

/-- What a class holds under a name. -/
inductive Member where
  | function (f : Function)
  | other
deriving DecidableEq

/-- A class: its own name, the module it was defined in, and its members. -/
structure Class where
  name : String
  origin : String
  members : List (String × Member)
deriving DecidableEq

/-- What a module binds to a name; several names may be bound to one class. -/
inductive Binding where
  | function (f : Function)
  | classNumber (number : Nat)
  | other
deriving DecidableEq

/-- A module: its name, the names it binds, and the classes they refer to by number. -/
structure Namespace where
  name : String
  bindings : List (String × Binding)
  classes : List Class
deriving DecidableEq

/-- What is left untraced. -/
structure Selection where
  skip : List String
  methods : Bool

/-- The name under which a call is traced: the one given, or else the function's own. -/
def operationName (given : Option String) (own : String) : String :=
  match given with
  | some name => if name.isEmpty then own else name
  | none => own

/-- The function with its calls reported under a name.  One that is marked already is not traced twice. -/
def Function.trace (f : Function) (given : String) : Function :=
  if f.traced then f
  else { f with traced := true, operations := operationName (some given) f.name :: f.operations }

/-- Whether a name is reserved: it starts and ends with two underscores. -/
def isReserved (name : String) : Bool := name.startsWith "__" && name.endsWith "__"

namespace Class

/-- The name of a member together with that of its class. -/
def qualified (c : Class) (name : String) : String := c.name ++ "." ++ name

end Class

/-- Whether the methods of a class under this name are traced. -/
def Selection.takesMethod (s : Selection) (c : Class) (name : String) : Bool :=
  !isReserved name && !s.skip.contains name && !s.skip.contains (c.qualified name)

namespace Class

/-- Traces a member if the selection takes it and it is a function defined where its class is. -/
def traceMember (c : Class) (s : Selection) : String × Member → String × Member
  | (name, .function f) =>
    (name, .function (if s.takesMethod c name && f.origin = c.origin then f.trace (c.qualified name) else f))
  | m => m

/-- Traces the methods of a class. -/
def trace (s : Selection) (c : Class) : Class := { c with members := c.members.map (c.traceMember s) }

end Class

namespace Namespace

/-- Traces a binding if it is a function of this module under a name that is not skipped. -/
def traceBinding (n : Namespace) (s : Selection) : String × Binding → String × Binding
  | (name, .function f) =>
    (name, .function (if !s.skip.contains name && f.origin = n.name then f.trace name else f))
  | b => b

/-- Traces the methods of the class that a name is bound to, if methods are traced, the name is not skipped and the class
is one of this module. -/
def visit (n : Namespace) (s : Selection) (classes : List Class) : String × Binding → List Class
  | (name, .classNumber number) =>
    if s.methods && !s.skip.contains name then
      classes.modify number fun c => if c.origin = n.name then c.trace s else c
    else classes
  | _ => classes

/-- Traces what a selection leaves of a module, name by name.  A class that is bound to several names is visited under
each of them. -/
def instrument (n : Namespace) (s : Selection) : Namespace :=
  { n with
    bindings := n.bindings.map (n.traceBinding s)
    classes := n.bindings.foldl (n.visit s) n.classes }

end Namespace

end Linkage.Tracing
