/-
  Crosswalk.Markup.Writer
  ──────────────────────────────────────
  **FROM A TREE TO MARKUP.**

  Elements are written without indentation.  A namespace is declared where
  its binding is not in scope yet; an element in no namespace takes back a
  default namespace around it.  The bindings in scope are a list like the
  reader's, so both sides resolve a prefix in the same way.
-/
import Crosswalk.Markup.Reader

namespace Crosswalk.Markup

/-- An attribute with its value escaped, after a space. -/
def writeAttribute (name value : Text) : Text :=
  ' ' :: name ++ "=\"".toList ++ escapeValue value ++ ['"']

/-- Declares a binding unless it is in scope; gives the declaration and the new scope. -/
def declareIfNeeded (scope : Scope) (ns : Namespace) : Text × Scope :=
  if scope.uri ns.pre = ns.uri then ([], scope)
  else (writeAttribute ns.declarationName ns.uri, ns :: scope)

/-- The declarations that bring the bindings into scope, in order, and the new scope. -/
def declareAll : Scope → List Namespace → Text × Scope
  | scope, [] => ([], scope)
  | scope, ns :: rest =>
    let (first, scope) := declareIfNeeded scope ns
    let (others, scope) := declareAll scope rest
    (first ++ others, scope)

/-- The bindings that an element needs: its own namespace, or none by default, and its further
declarations. -/
def neededBindings (ns : Option Namespace) (decls : List Namespace) : List Namespace :=
  ns.getD ⟨[], []⟩ :: decls

mutual

/-- The markup of an element in a scope. -/
def writeElement (scope : Scope) : Element → Text
  | ⟨name, ns, decls, attrs, children, text⟩ =>
    let tag := qualify ((ns.map Namespace.pre).getD []) name
    let (declared, inner) := declareAll scope (neededBindings ns decls)
    let head := '<' :: tag ++ declared ++ attrs.flatMap (fun a => writeAttribute a.name a.value)
    if text.isNone && children.isEmpty then head ++ "/>".toList
    else
      head ++ ['>'] ++ escapeText (text.getD []) ++ writeElements inner children
        ++ "</".toList ++ tag ++ ['>']

/-- The markup of elements side by side. -/
def writeElements (scope : Scope) : List Element → Text
  | [] => []
  | e :: es => writeElement scope e ++ writeElements scope es

end

/-- The line that stands before every document. -/
def declarationLine : Text :=
  "<?xml version=\"1.0\" encoding=\"UTF-8\"?>\n".toList

/-- The document of a root element. -/
def write (root : Element) : Text :=
  declarationLine ++ writeElement [] root

end Crosswalk.Markup
