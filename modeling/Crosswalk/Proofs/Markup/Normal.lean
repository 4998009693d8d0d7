/-
  Crosswalk.Proofs.Markup.Normal
  ──────────────────────────────────────
  **WELL-FORMED TREES AND THEIR NORMAL FORM.**

  A tree is well formed (`WellFormed`) when its names can be written and every
  element declares each prefix at most once.  The written form of such a tree
  does not tell everything: text that is empty, or blank beside children, and
  declarations of what is bound already leave no trace.  `normalize` is the
  tree without them; it follows the bindings (`Bindings`) from the root down
  and knows nothing of the writer.

  The writer keeps the bindings in a list (`Scope`).  `declareAll_eq_declaredIn`
  and `declareAll_eq` say what a list of needed bindings adds to the tag and to
  that list, `uri_declareAll` that the prefixes then stand for what the tree
  says.
-/
import Mathlib.Data.List.TakeWhile
import Crosswalk.Proofs.Markup.Tag
import Crosswalk.Markup.Reader

namespace Crosswalk.Markup

/-! ## §1. Well-formed trees. -/

/-- The prefix is empty or a name, and the URI is not empty. -/
def Namespace.Declarable (ns : Namespace) : Prop :=
  (ns.pre = [] ∨ isName ns.pre = true) ∧ ns.uri ≠ []

instance (ns : Namespace) : Decidable ns.Declarable :=
  inferInstanceAs (Decidable (_ ∧ _))

/-- A name, or two names with a colon between them. -/
def IsAttributeName (s : Text) : Prop :=
  isName s = true ∨ ∃ p n, isName p = true ∧ isName n = true ∧ s = p ++ ':' :: n

/-- What an element must satisfy apart from its children.  An element in no namespace has the
empty prefix, so it declares no default namespace. -/
structure Element.ProperTag (e : Element) : Prop where
  name : isName e.name = true
  space : ∀ ns, e.ns = some ns → ns.Declarable
  decls : ∀ d ∈ e.decls, d.Declarable
  prefixes : (e.decls.map Namespace.pre).Nodup
  ownPrefix : ∀ d ∈ e.decls, d.pre ≠ e.pre
  attrs : ∀ a ∈ e.attrs,
    IsAttributeName a.name ∧ a.name ≠ "xmlns".toList ∧ ¬ "xmlns:".toList <+: a.name
  attrNames : (e.attrs.map Attribute.name).Nodup

/-- A tree that can be written: every element in it has a proper tag. -/
inductive WellFormed : Element → Prop
  | intro {e : Element} (tag : e.ProperTag) (children : ∀ c ∈ e.children, WellFormed c) :
      WellFormed e

/-! ## §2. The normal form. -/

/-- The URI that each prefix stands for, empty for a prefix that is not bound. -/
abbrev Bindings := Text → Text

namespace Bindings

/-- No prefix is bound. -/
def unbound : Bindings := fun _ => []

/-- The bindings with one prefix bound anew. -/
def bind (b : Bindings) (ns : Namespace) : Bindings :=
  fun pre => if pre = ns.pre then ns.uri else b pre

/-- The bindings inside an element: its own namespace counts, or that it is in none, and its
declarations. -/
def inside (b : Bindings) (ns : Option Namespace) (decls : List Namespace) : Bindings :=
  decls.foldl bind (b.bind (ns.getD ⟨[], []⟩))

end Bindings

/-- The text of an element as far as it counts: not when it is empty, and not when it is blank and
stands beside children. -/
def countedText (children : List Element) (text : Option Text) : Option Text :=
  text.filter (fun t => !t.isEmpty && (children.isEmpty || !Text.blank t))

mutual

/-- An element without the text that does not count and without the declarations of what is bound
already, here and in all elements below. -/
def normalize (b : Bindings) : Element → Element
  | ⟨name, ns, decls, attrs, children, text⟩ =>
    { name := name
      ns := ns
      decls := decls.filter (fun d => b d.pre ≠ d.uri)
      attrs := attrs
      children := normalizeAll (b.inside ns decls) children
      text := countedText children text }

/-- The normal forms of elements side by side. -/
def normalizeAll (b : Bindings) : List Element → List Element
  | [] => []
  | e :: es => normalize b e :: normalizeAll b es

end

theorem normalizeAll_eq_map (b : Bindings) (es : List Element) :
    normalizeAll b es = es.map (normalize b) := by
  induction es with
  | nil => rfl
  | cons e es ih => rw [normalizeAll, ih, List.map_cons]

theorem normalize_eq (b : Bindings) (e : Element) :
    normalize b e
      = { e with
          decls := e.decls.filter (fun d => b d.pre ≠ d.uri)
          children := e.children.map (normalize (b.inside e.ns e.decls))
          text := countedText e.children e.text } := by
  obtain ⟨name, ns, decls, attrs, children, text⟩ := e
  rw [normalize, normalizeAll_eq_map]

/-! ## §3. The list of the writer and what the prefixes stand for. -/

/-- The URI of a prefix after one more binding is brought into scope. -/
theorem uri_declareIfNeeded (scope : Scope) (ns : Namespace) :
    (declareIfNeeded scope ns).2.uri = Bindings.bind scope.uri ns := by
  funext pre
  unfold declareIfNeeded Bindings.bind
  by_cases h : scope.uri ns.pre = ns.uri
  · rw [if_pos h]
    by_cases hp : pre = ns.pre
    · rw [if_pos hp, hp, h]
    · rw [if_neg hp]
  · rw [if_neg h]
    by_cases hp : pre = ns.pre
    · rw [if_pos hp, hp]
      simp [Scope.uri, Scope.binding?]
    · rw [if_neg hp]
      have hp' : ns.pre ≠ pre := fun h => hp h.symm
      simp [Scope.uri, Scope.binding?, List.find?_cons_of_neg, hp']

theorem uri_declareAll : ∀ (nss : List Namespace) (scope : Scope),
    (declareAll scope nss).2.uri = nss.foldl Bindings.bind scope.uri
  | [], scope => rfl
  | ns :: nss, scope => by
      show (declareAll (declareIfNeeded scope ns).2 nss).2.uri = _
      rw [uri_declareAll nss, uri_declareIfNeeded]
      rfl

/-- Bindings of other prefixes leave a prefix as it is. -/
theorem foldl_bind_of_forall_ne {pre : Text} {nss : List Namespace} {b : Bindings}
    (h : ∀ d ∈ nss, d.pre ≠ pre) : nss.foldl Bindings.bind b pre = b pre := by
  induction nss generalizing b with
  | nil => rfl
  | cons d nss ih =>
      have hd : pre ≠ d.pre := fun he => h d List.mem_cons_self he.symm
      rw [List.foldl_cons, ih (fun m hm => h m (List.mem_cons_of_mem d hm)), Bindings.bind,
        if_neg hd]

/-- Of bindings with different prefixes each one counts. -/
theorem foldl_bind_of_mem {d : Namespace} {nss : List Namespace} {b : Bindings}
    (hd : (nss.map Namespace.pre).Nodup) (hmem : d ∈ nss) :
    nss.foldl Bindings.bind b d.pre = d.uri := by
  induction nss generalizing b with
  | nil => exact absurd hmem (by simp)
  | cons m nss ih =>
      obtain ⟨hfresh, hd'⟩ := List.nodup_cons.mp hd
      rw [List.foldl_cons]
      rcases List.mem_cons.mp hmem with rfl | hmem
      · have hne : ∀ n ∈ nss, n.pre ≠ d.pre := fun n hn he =>
          hfresh (he ▸ List.mem_map_of_mem hn)
        rw [foldl_bind_of_forall_ne hne, Bindings.bind, if_pos rfl]
      · exact ih hd' hmem

/-- A binding as the attribute that declares it. -/
def Namespace.attribute (ns : Namespace) : Attribute :=
  ⟨ns.declarationName, ns.uri⟩

/-- The bindings that are declared to bring needed ones into scope, in order. -/
def declaredIn : Scope → List Namespace → List Namespace
  | _, [] => []
  | scope, ns :: nss =>
    if scope.uri ns.pre = ns.uri then declaredIn scope nss else ns :: declaredIn (ns :: scope) nss

/-- **What needed bindings add**: those that are not in scope yet are declared in order, and the
innermost is the last. -/
theorem declareAll_eq_declaredIn : ∀ (nss : List Namespace) (scope : Scope),
    declareAll scope nss
      = (((declaredIn scope nss).map Namespace.attribute).flatMap Attribute.write,
          (declaredIn scope nss).reverse ++ scope)
  | [], scope => rfl
  | ns :: nss, scope => by
      by_cases h : scope.uri ns.pre = ns.uri
      · rw [declareAll, declareIfNeeded, if_pos h, declaredIn, if_pos h]
        simp only
        rw [declareAll_eq_declaredIn nss scope]
        rfl
      · rw [declareAll, declareIfNeeded, if_neg h, declaredIn, if_neg h]
        simp only
        rw [declareAll_eq_declaredIn nss (ns :: scope)]
        simp [Attribute.write, Namespace.attribute]

theorem declaredIn_sublist : ∀ (nss : List Namespace) (scope : Scope),
    (declaredIn scope nss).Sublist nss
  | [], scope => List.Sublist.refl []
  | ns :: nss, scope => by
      rw [declaredIn]
      split
      next => exact (declaredIn_sublist nss scope).cons ns
      next => exact (declaredIn_sublist nss (ns :: scope)).cons_cons ns

/-- The bindings of a list that a scope does not have. -/
def missing (scope : Scope) (nss : List Namespace) : List Namespace :=
  nss.filter (fun ns => scope.uri ns.pre ≠ ns.uri)

/-- A binding does not change what other prefixes stand for. -/
theorem missing_cons_scope {scope : Scope} {ns : Namespace} {nss : List Namespace}
    (h : ns.pre ∉ nss.map Namespace.pre) : missing (ns :: scope) nss = missing scope nss := by
  apply List.filter_congr
  intro m hm
  have hne : ns.pre ≠ m.pre := fun he => h (he ▸ List.mem_map_of_mem hm)
  have huri : Scope.uri (ns :: scope) m.pre = scope.uri m.pre := by
    simp [Scope.uri, Scope.binding?, List.find?_cons_of_neg, hne]
  rw [huri]

/-- Of bindings with different prefixes the missing ones are declared. -/
theorem declaredIn_eq_missing : ∀ (nss : List Namespace) (scope : Scope),
    (nss.map Namespace.pre).Nodup → declaredIn scope nss = missing scope nss
  | [], scope, _ => rfl
  | ns :: nss, scope, hd => by
      obtain ⟨hfresh, hd'⟩ := List.nodup_cons.mp hd
      rw [declaredIn, declaredIn_eq_missing nss scope hd', declaredIn_eq_missing nss (ns :: scope) hd',
        missing_cons_scope hfresh]
      by_cases h : scope.uri ns.pre = ns.uri <;> simp [missing, h]

/-- **What needed bindings with different prefixes add**: the missing ones are declared in order,
and the innermost is the last. -/
theorem declareAll_eq (nss : List Namespace) (scope : Scope) (h : (nss.map Namespace.pre).Nodup) :
    declareAll scope nss
      = (((missing scope nss).map Namespace.attribute).flatMap Attribute.write,
          (missing scope nss).reverse ++ scope) := by
  rw [declareAll_eq_declaredIn, declaredIn_eq_missing nss scope h]

end Crosswalk.Markup
