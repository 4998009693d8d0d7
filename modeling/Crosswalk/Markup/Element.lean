/-
  Crosswalk.Markup.Element
  ──────────────────────────────────────
  **ELEMENT TREES.**

  An element has a local name, at most one namespace, further namespace
  declarations, attributes, child elements and at most one text.  Children
  are addressed by name:

    • `matchesExact`: a name with a colon is compared with the qualified
      name, any other with the name of an element without a prefix,
    • `matchesLocal`: only the part after the last colon counts,
    • `childIndex?`: the first exact match, failing that the first local one.

  A missing child is made at the end and inherits the namespace (`offspring`,
  `childOrInsert`); only a name that `isName` accepts can be made.
-/
import Crosswalk.Markup.Name

namespace Crosswalk.Markup

/-! ## §1. Namespaces. -/

/-- A prefix, empty for the default namespace, bound to a URI. -/
structure Namespace where
  pre : Text
  uri : Text
  deriving DecidableEq, Repr

namespace Namespace

/-- The binding without a prefix. -/
def isDefault (ns : Namespace) : Bool :=
  ns.pre.isEmpty

/-- The attribute that declares the binding. -/
def declarationName (ns : Namespace) : Text :=
  if ns.isDefault then "xmlns".toList else "xmlns:".toList ++ ns.pre

/-- The binding as an attribute with its URI as it is. -/
def display (ns : Namespace) : Text :=
  ns.declarationName ++ "=\"".toList ++ ns.uri ++ ['"']

end Namespace

/-! ## §2. Elements. -/

/-- An attribute with its unescaped value; the name keeps its prefix. -/
structure Attribute where
  name : Text
  value : Text
  deriving DecidableEq, Repr

/-- An element with all that it contains. -/
structure Element where
  /-- The local name. -/
  name : Text
  /-- The namespace the element is in. -/
  ns : Option Namespace
  /-- Declarations besides the one of its own namespace. -/
  decls : List Namespace
  attrs : List Attribute
  children : List Element
  text : Option Text
  deriving Repr, BEq

mutual

/-- Trees can be compared. -/
def Element.decEq : (a b : Element) → Decidable (a = b)
  | ⟨n, s, d, as, cs, t⟩, ⟨n', s', d', as', cs', t'⟩ =>
    have := Element.decEqAll cs cs'
    decidable_of_iff (n = n' ∧ s = s' ∧ d = d' ∧ as = as' ∧ cs = cs' ∧ t = t') (by simp)

def Element.decEqAll : (as bs : List Element) → Decidable (as = bs)
  | [], [] => isTrue rfl
  | [], _ :: _ => isFalse nofun
  | _ :: _, [] => isFalse nofun
  | a :: as, b :: bs =>
    have := Element.decEq a b
    have := Element.decEqAll as bs
    decidable_of_iff (a = b ∧ as = bs) (by simp)

end

instance : DecidableEq Element := Element.decEq

namespace Element

/-- An element with nothing in it. -/
def bare (name : Text) (ns : Option Namespace) : Element :=
  ⟨name, ns, [], [], [], none⟩

/-- The prefix of the namespace, empty without one. -/
def pre (e : Element) : Text :=
  (e.ns.map Namespace.pre).getD []

/-- The name as markup writes it. -/
def qualifiedName (e : Element) : Text :=
  qualify e.pre e.name

/-- The text with its white space collapsed, empty when there is none. -/
def trimmedText (e : Element) : Text :=
  (e.text.map Text.collapse).getD []

/-- The value of the first attribute with the name. -/
def attribute? (e : Element) (name : Text) : Option Text :=
  (e.attrs.find? (·.name = name)).map Attribute.value

/-! ## §3. Children by name. -/

/-- The name addresses exactly this element. -/
def matchesExact (name : Text) (e : Element) : Bool :=
  if ':' ∈ name then e.qualifiedName == name else e.pre.isEmpty && e.name == name

/-- The local part of the name is that of the element. -/
def matchesLocal (name : Text) (e : Element) : Bool :=
  e.name == localPart name

/-- The first child that the name addresses exactly. -/
def childExact? (e : Element) (name : Text) : Option Element :=
  e.children.find? (matchesExact name)

/-- The first child with that local name. -/
def childLocal? (e : Element) (name : Text) : Option Element :=
  e.children.find? (matchesLocal name)

/-- The first exact match among the children, failing that the first local one. -/
def child? (e : Element) (name : Text) : Option Element :=
  (e.childExact? name).or (e.childLocal? name)

/-- The place of the child that `child?` finds. -/
def childIndex? (e : Element) (name : Text) : Option (Fin e.children.length) :=
  (e.children.findFinIdx? (matchesExact name)).or (e.children.findFinIdx? (matchesLocal name))

/-! ## §4. Changes. -/

/-- Adds a declaration unless the element has it. -/
def declare (e : Element) (ns : Namespace) : Element :=
  if ns ∈ e.decls then e else { e with decls := e.decls ++ [ns] }

/-- Gives an attribute its value, in place when it exists and at the end otherwise. -/
def setAttribute (e : Element) (name value : Text) : Element :=
  { e with attrs := go e.attrs }
where
  go : List Attribute → List Attribute
    | [] => [⟨name, value⟩]
    | a :: as => if a.name = name then ⟨name, value⟩ :: as else a :: go as

/-- Replaces the text. -/
def setText (e : Element) (text : Text) : Element :=
  { e with text := some text }

/-- Adds to the text. -/
def appendText (e : Element) (text : Text) : Element :=
  { e with text := some (e.text.getD [] ++ text) }

/-- Adds a child after the others. -/
def addChild (e c : Element) : Element :=
  { e with children := e.children ++ [c] }

/-- The child that a missing name becomes: it inherits the namespace. -/
def offspring (e : Element) (name : Text) : Element :=
  bare name e.ns

/-! ## §5. Elements by position. -/

/-- The element reached by child positions. -/
def get? (e : Element) : List Nat → Option Element
  | [] => some e
  | i :: is => (e.children[i]?).bind (·.get? is)

/-- Changes the element reached by child positions. -/
def modifyAt (f : Element → Element) (e : Element) : List Nat → Element
  | [] => f e
  | i :: is => { e with children := e.children.modify i (modifyAt f · is) }

end Element

/-! ## §6. Errors of document operations. -/

/-- What can go wrong when a tree is walked or extended. -/
inductive DocumentError
  /-- No element at the path. -/
  | notFound (path : Text)
  /-- The name cannot be given to a new element. -/
  | invalidName (name : Text)
  deriving DecidableEq, Repr

namespace DocumentError

/-- The wording of a document error. -/
def message : DocumentError → Text
  | notFound path => "Element not found at path: ".toList ++ path
  | invalidName name => "Invalid element name '".toList ++ name ++ ['\'']

end DocumentError

/-- The child of that name, made at the end when there is none, with its position. -/
def Element.childOrInsert (e : Element) (name : Text) : Except DocumentError (Element × Nat) :=
  match e.childIndex? name with
  | some i => .ok (e, i)
  | none =>
    if isName name then .ok (e.addChild (e.offspring name), e.children.length)
    else .error (.invalidName name)

end Crosswalk.Markup
