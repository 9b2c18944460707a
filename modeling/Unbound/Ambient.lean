import Unbound.Name.Interner

/-!
# Ambient names

A program may use names that its host provides. They count as declared at the top level, wherever
in the chain of ancestors they stand.
-/

set_option autoImplicit false

namespace Unbound

/-- The names of a namespace and those of its ancestors, nearest first. -/
structure Ambient where
  names : List Name
  ancestors : List (List Name)
deriving DecidableEq, Repr

namespace Ambient

def empty : Ambient := ⟨[], []⟩

instance : EmptyCollection Ambient := ⟨empty⟩

instance : Inhabited Ambient := ⟨empty⟩

def ofNames (names : List Name) : Ambient := ⟨names, []⟩

def ofTexts (texts : List String) : InternM Ambient := do return ofNames (← texts.mapM intern)

/-- Lets a namespace inherit from another one, in place of what it inherited from before. -/
def withParent (ambient parent : Ambient) : Ambient :=
  { ambient with ancestors := parent.names :: parent.ancestors }

def hasParent (ambient : Ambient) : Bool := !ambient.ancestors.isEmpty

def chain (ambient : Ambient) : List Name := ambient.names ++ ambient.ancestors.flatten

instance : Membership Name Ambient where
  mem ambient name := name ∈ ambient.chain

instance (name : Name) (ambient : Ambient) : Decidable (name ∈ ambient) :=
  inferInstanceAs (Decidable (name ∈ ambient.chain))

theorem mem_iff {ambient : Ambient} {name : Name} :
    name ∈ ambient ↔ ∃ names ∈ ambient.names :: ambient.ancestors, name ∈ names := by
  change name ∈ ambient.names ++ ambient.ancestors.flatten ↔ _
  rw [← List.flatten_cons, List.mem_flatten]

def globalValues : List String :=
  ["globalThis", "undefined", "NaN", "Infinity", "eval", "isFinite", "isNaN", "parseFloat",
    "parseInt", "decodeURI", "decodeURIComponent", "encodeURI", "encodeURIComponent"]

def globalConstructors : List String :=
  ["Object", "Function", "Array", "String", "Number", "Boolean", "Symbol", "Date", "RegExp",
    "Error", "EvalError", "RangeError", "ReferenceError", "SyntaxError", "TypeError", "URIError",
    "Map", "Set", "WeakMap", "WeakSet", "Promise", "Proxy", "ArrayBuffer", "DataView",
    "Int8Array", "Uint8Array", "Uint8ClampedArray", "Int16Array", "Uint16Array", "Int32Array",
    "Uint32Array", "Float32Array", "Float64Array", "Math", "JSON", "Reflect", "Intl"]

def inheritedProperties : List String :=
  ["constructor", "hasOwnProperty", "isPrototypeOf", "propertyIsEnumerable", "toLocaleString",
    "toString", "valueOf"]

/-- A standard host: the global object, which inherits what every object does. -/
def ecmascript : InternM Ambient := do
  let globals ← ofTexts (globalValues ++ globalConstructors)
  return globals.withParent (← ofTexts inheritedProperties)

end Ambient

end Unbound
