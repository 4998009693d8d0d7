/-
  Crosswalk.Proofs.Engine.Grown
  ──────────────────────────────────────
  **DOCUMENTS THAT ARE ONLY WRITTEN AT PATHS.**

  A document begins as a root without children and grows by values that are
  put at paths.  Whatever the paths are, and also when a value is refused
  halfway, the document keeps its shape (`Grown`): its root is what it was at
  the start, siblings have different names, and all that was made below the
  root is uniform.

    • `siblingsDiffer_assign`: a value at names keeps siblings apart,
    • `Grown.set`: one value at one path,
    • `grown_setAll`: any number of them.
-/
import Crosswalk.Proofs.Engine.Shape
import Crosswalk.Proofs.Markup.Accepted
import Crosswalk.Proofs.Path.Frame

namespace Crosswalk.Engine

open Markup

/-! ## §1. Siblings. -/

/-- No two children have the same local name. -/
def SiblingsDiffer (e : Element) : Prop :=
  (e.children.map Element.name).Nodup

theorem siblingsDiffer_bare (name : Text) (ns : Option Namespace) : Everywhere SiblingsDiffer (.bare name ns) :=
  .intro List.nodup_nil fun _ hc => absurd hc List.not_mem_nil

/-- **A value at names keeps siblings apart**, in the whole tree and also when it is refused. -/
theorem siblingsDiffer_assign (value : Text) : ∀ (names : List Text) {e : Element},
    Everywhere SiblingsDiffer e → Everywhere SiblingsDiffer (Path.assign value e names).1
  | [], _, h => .intro h.here h.children
  | name :: names, e, h => by
      have hkept := Path.name_assign value
      rw [Path.assign]
      cases hi : e.childIndex? name with
      | some i =>
          -- the child that is put back has the name that it had
          have hback : ((e.children.set i (Path.assign value e.children[i] names).1).map
              Element.name) = e.children.map Element.name := by
            have hplace : i < (e.children.map Element.name).length := by simp
            have hsame : (Path.assign value e.children[i] names).1.name
                = (e.children.map Element.name)[i.val] :=
              (hkept _ _).trans (List.getElem_map Element.name).symm
            rw [List.map_set, hsame]
            exact List.set_getElem_self hplace
          refine .intro (by rw [SiblingsDiffer, hback]; exact h.here) ?_
          intro c hc
          rcases List.mem_or_eq_of_mem_set hc with hc | rfl
          · exact h.children c hc
          · exact siblingsDiffer_assign value names (h.children _ (List.getElem_mem i.isLt))
      | none =>
          by_cases hname : isName name = true
          · -- a valid name has no colon, so a child of that name would have been found
            have hnew : name ∉ e.children.map Element.name :=
              Path.childIndex?_eq_none (colon_not_mem_of_isName hname) hi
            simp only [if_pos hname]
            refine .intro ?_ ?_
            · show ((e.children ++ [(Path.assign value (e.offspring name) names).1]).map _).Nodup
              rw [List.map_append, List.map_singleton, hkept]
              refine List.nodup_append.mpr ⟨h.here, List.nodup_singleton _, ?_⟩
              intro n hn m hm hnm
              have hm' : m = name := List.mem_singleton.mp hm
              exact hnew (hm' ▸ hnm ▸ hn)
            · intro c hc
              rcases List.mem_append.mp hc with hc | hc
              · exact h.children c hc
              · rw [List.mem_singleton.mp hc]
                exact siblingsDiffer_assign value names (siblingsDiffer_bare name e.ns)
          · simp only [if_neg hname]
            exact h

/-! ## §2. The shape of a document. -/

/-- What becomes of a document by values at paths. -/
structure Grown (start doc : Element) : Prop where
  /-- Name, namespace, declarations, attributes and text of the root are what they were. -/
  root : doc = { start with children := doc.children }
  apart : Everywhere SiblingsDiffer doc
  /-- Every element below has a valid name, the namespace of the root, no attribute and no
  declaration. -/
  below : ∀ c ∈ doc.children, Uniform start.ns c

/-- **A value at a path keeps the shape of a document**, whether it is refused or not. -/
theorem Grown.set {start doc : Element} (h : Grown start doc) (path value : Option Text) :
    Grown start (Path.set doc path value).1 := by
  have hns : doc.ns = start.ns := by
    rw [h.root]
  obtain ⟨cs, hcs, heq⟩ := setField_eq hns h.below path (.ok value)
  have hset : (Path.set doc path value).1 = { doc with children := cs } := heq
  refine ⟨?_, ?_, ?_⟩
  · rw [hset, h.root]
  · rcases Path.set_cases doc path value with ⟨hsame, -⟩ | ⟨v, names, -, hassign, -⟩
    · rw [hsame]
      exact h.apart
    · rw [hassign]
      exact siblingsDiffer_assign v names h.apart
  · rw [hset]
    exact hcs

/-! ## §3. Any number of values. -/

/-- A document into which nothing was written yet. -/
inductive Fresh : Element → Prop
  | named (name : Text) : Fresh (.bare name none)
  | qualified (name : Text) (ns : Namespace) : Fresh (.bare name (some ns))
  | target (r : Route) : Fresh (emptyTarget r)

/-- A root without children has the shape of a document. -/
theorem grown_of_childless {start : Element} (h : start.children = []) : Grown start start := by
  have hnone : ∀ c, c ∉ start.children := by simp [h]
  refine ⟨(Path.eta start).symm, .intro ?_ fun c hc => absurd hc (hnone c),
    fun c hc => absurd hc (hnone c)⟩
  rw [SiblingsDiffer, h]
  exact List.nodup_nil

theorem Fresh.grown {start : Element} (h : Fresh start) : Grown start start := by
  refine grown_of_childless ?_
  cases h with
  | named name => rfl
  | qualified name ns => rfl
  | target r => rw [emptyTarget_eq]

/-- The document after values were put at paths one after the other, whether they were refused or
not. -/
def setAll (doc : Element) (calls : List (Option Text × Option Text)) : Element :=
  calls.foldl (fun doc call => (Path.set doc call.1 call.2).1) doc

/-- **DOCUMENTS KEEP THEIR SHAPE.**  A document that was fresh has its root as it was, different names
among siblings, and uniform elements below, after any number of values at any paths. -/
theorem grown_setAll {start : Element} (h : Fresh start)
    (calls : List (Option Text × Option Text)) : Grown start (setAll start calls) := by
  suffices hrun : ∀ doc, Grown start doc → Grown start (setAll doc calls) from hrun start h.grown
  induction calls with
  | nil => exact fun doc hdoc => hdoc
  | cons call calls ih => exact fun doc hdoc => ih _ (hdoc.set call.1 call.2)

/-- Values at a path that goes through a value, at the path of the root, at a path that is refused
halfway, and at a child that only its local name leads to. -/
def growing : List (Option Text × Option Text) :=
  [(some "A".toList, some "1".toList), (some "R/A/B".toList, some "2".toList),
    (some "C/1bad".toList, some "3".toList), (some "x:C".toList, some "4".toList)]

/-- The root has two children in its namespace, and the refused value left one of them behind. -/
theorem grown_setAll_growing :
    Fresh (.bare "R".toList (some ⟨"p".toList, "urn:p".toList⟩))
      ∧ Grown (.bare "R".toList (some ⟨"p".toList, "urn:p".toList⟩))
        (setAll (.bare "R".toList (some ⟨"p".toList, "urn:p".toList⟩)) growing)
      ∧ (setAll (.bare "R".toList (some ⟨"p".toList, "urn:p".toList⟩)) growing).children.map
          Element.name = ["A".toList, "C".toList] := by
  have hfresh : Fresh (.bare "R".toList (some ⟨"p".toList, "urn:p".toList⟩)) := .qualified _ _
  exact ⟨hfresh, grown_setAll hfresh growing, by decide⟩

end Crosswalk.Engine
