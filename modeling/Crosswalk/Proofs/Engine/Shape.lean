/-
  Crosswalk.Proofs.Engine.Shape
  ──────────────────────────────────────
  **THE SHAPE OF A CANONICAL DOCUMENT.**

  Whatever the fields of a route are and whether they succeed or fail, its
  document keeps the root it began with; what is made below the root
  inherits the namespace and gets a valid name.

    • `assign_eq`, `setField_eq`: one value at one path, one field,
    • `target_eq`: the document of a route,
    • `wellFormed_target`: for a route that was validated, a well-formed tree.
-/
import Crosswalk.Proofs.Engine.Target
import Crosswalk.Proofs.Markup.Uniform

namespace Crosswalk.Engine

open Markup

/-! ## §1. One field. -/

/-- The trees of the list are uniform. -/
def AllUniform (ns : Option Namespace) (es : List Element) : Prop :=
  ∀ e ∈ es, Uniform ns e

/-- **A value at a path changes texts and adds uniform elements**; the element where the path
begins gets a text only from the path without names. -/
theorem assign_eq {ns : Option Namespace} (value : Text) : ∀ (names : List Text) (e : Element),
    e.ns = ns → AllUniform ns e.children → ∃ cs, AllUniform ns cs
      ∧ (Path.assign value e names).1
        = { e with children := cs, text := if names = [] then some value else e.text }
  | [], e, _, hcs => ⟨e.children, hcs, rfl⟩
  | name :: names, e, hns, hcs => by
      -- the child at the front of the path stays uniform, whatever is assigned below it
      have hchild : ∀ c, Uniform ns c → Uniform ns (Path.assign value c names).1 := by
        intro c hc
        cases hc with
        | @intro n kids text hname hkids =>
            obtain ⟨cs, huniform, heq⟩ := assign_eq value names ⟨n, ns, [], [], kids, text⟩ rfl hkids
            rw [heq]
            exact .intro hname huniform
      rw [Path.assign]
      cases hi : e.childIndex? name with
      | some i =>
          -- a child is replaced by what became of it, so it is uniform like the others
          refine ⟨e.children.set i (Path.assign value e.children[i] names).1, ?_, rfl⟩
          intro c hc
          rcases List.mem_or_eq_of_mem_set hc with hc | rfl
          · exact hcs c hc
          · exact hchild _ (hcs _ (List.getElem_mem i.isLt))
      | none =>
          by_cases hname : isName name = true
          · simp only [hname, if_true]
            refine ⟨e.children ++ [(Path.assign value (e.offspring name) names).1], ?_, rfl⟩
            intro c hc
            rcases List.mem_append.mp hc with hc | hc
            · exact hcs c hc
            · rw [List.mem_singleton.mp hc]
              refine hchild _ ?_
              rw [Element.offspring, hns]
              exact .intro hname fun _ hnone => absurd hnone List.not_mem_nil
          · -- the walk stops here, and nothing is added for the rest of the path
            simp only [if_neg hname]
            refine ⟨e.children, hcs, ?_⟩
            cases e
            rfl

/-- **A field changes nothing of a root but the uniform elements below it.** -/
theorem setField_eq {ns : Option Namespace} {root : Element} (hns : root.ns = ns)
    (h : AllUniform ns root.children) (target : Option Text)
    (value : Except Transform.Fault (Option Text)) :
    ∃ cs, AllUniform ns cs ∧ (setField target value root).1 = { root with children := cs } := by
  have hsame : ∃ cs, AllUniform ns cs ∧ root = { root with children := cs } :=
    ⟨root.children, h, by cases root; rfl⟩
  unfold setField
  cases value with
  | error fault => exact hsame
  | ok value =>
      unfold Path.set
      cases target with
      | none => exact hsame
      | some path =>
          cases value with
          | none => exact hsame
          | some value =>
              cases hn : Path.namesBelow root.name path with
              | nil =>
                  simp only [hn]
                  exact hsame
              | cons name names =>
                  simp only [hn]
                  exact assign_eq value (name :: names) root hns h

/-! ## §2. All fields. -/

/-- The document of a route with the given elements below its root. -/
def rootWith (r : Route) (cs : List Element) : Element :=
  ⟨r.root, rootNamespace? r, rootDeclarations r, [], cs, none⟩

/-- **The document of a route is its root with uniform elements below.** -/
theorem target_eq (now : Calendar.Instant) (message : Message) (r : Route) :
    ∃ cs, AllUniform (rootNamespace? r) cs ∧ (target now message r).1 = rootWith r cs := by
  refine runFields_invariant (P := fun root =>
    ∃ cs, AllUniform (rootNamespace? r) cs ∧ root = rootWith r cs) ?_ 0 ?_
  · rintro root f - ⟨cs, hcs, rfl⟩
    exact @setField_eq _ (rootWith r cs) rfl hcs f.target (requestValue now message f)
  · exact ⟨[], nofun, emptyTarget_eq r⟩

/-! ## §3. Validated routes. -/

/-- What a validated route says about its root and its namespace. -/
theorem validate_eq_ok {r : Route} (hr : r.validate = .ok ()) : isName r.root = true
    ∧ ∀ s, r.space = some s → Route.isPrefix? s.pre = true ∧ Route.isPrefix? s.rootPre = true
      ∧ s.uri.any Text.blank = false := by
  unfold Route.validate at hr
  split at hr
  next => exact absurd hr (by simp)
  split at hr
  next => exact absurd hr (by simp)
  next hroot =>
    refine ⟨by simpa using hroot, fun s hs => ?_⟩
    rw [hs] at hr
    simp only [Route.checkSpace] at hr
    split at hr
    next => exact absurd hr (by simp)
    split at hr
    next => exact absurd hr (by simp)
    split at hr
    next => exact absurd hr (by simp)
    next hpre hrootPre huri =>
      exact ⟨by simpa using hpre, by simpa using hrootPre, by simpa using huri⟩

theorem isName_of_isPrefix? {pre : Option Text} (h : Route.isPrefix? pre = true) :
    pre.getD [] = [] ∨ isName (pre.getD []) = true := by
  cases pre with
  | none => exact .inl rfl
  | some p => simpa [Route.isPrefix?] using h

/-- The namespace of the root of a validated route can be declared. -/
theorem declarable_rootNamespace {r : Route} (hr : r.validate = .ok ()) {ns : Namespace}
    (hns : rootNamespace? r = some ns) : ns.Declarable := by
  obtain ⟨s, hs, hmap⟩ := Option.bind_eq_some_iff.mp hns
  obtain ⟨uri, huri, rfl⟩ := Option.map_eq_some_iff.mp hmap
  obtain ⟨hpre, -, hblank⟩ := (validate_eq_ok hr).2 s hs
  refine ⟨isName_of_isPrefix? hpre, ?_⟩
  rintro (rfl : uri = [])
  rw [huri] at hblank
  exact absurd hblank (by decide)

/-- **The prefix that the root gets in the end** is a name; the root has its URI from the start, and
declares the prefix unless it is its own. -/
theorem rootSpace?_eq_some {r : Route} (hr : r.validate = .ok ()) {final : Namespace}
    (hfinal : rootSpace? r = some final) : isName final.pre = true ∧ ∃ pre,
      rootNamespace? r = some ⟨pre, final.uri⟩
        ∧ rootDeclarations r = if final.pre = pre then [] else [final] := by
  have hspace := hfinal
  unfold rootSpace? at hspace
  split at hspace
  next uri pre rootPre hs =>
    split at hspace
    next => exact absurd hspace (by simp)
    next hne =>
      have hns : rootNamespace? r = some ⟨pre.getD [], uri⟩ := by
        unfold rootNamespace?
        rw [hs]
        rfl
      obtain ⟨-, hrootPre, -⟩ := (validate_eq_ok hr).2 _ hs
      have hname := isName_of_isPrefix? hrootPre
      obtain rfl := Option.some.inj hspace
      refine ⟨hname.resolve_left (by simpa using hne), pre.getD [], hns, ?_⟩
      unfold rootDeclarations
      rw [hns, hfinal]
  next => exact absurd hspace (by simp)

/-- **A validated route has a root that can be written.** -/
theorem properTag_rootWith {r : Route} (hr : r.validate = .ok ()) (cs : List Element) :
    (rootWith r cs).ProperTag := by
  have hname : isName r.root = true := (validate_eq_ok hr).1
  have hspace : ∀ ns, rootNamespace? r = some ns → ns.Declarable :=
    fun ns hns => declarable_rootNamespace hr hns
  have hdecls : ∀ d ∈ rootDeclarations r, rootDeclarations r = [d] ∧ d.Declarable
      ∧ d.pre ≠ (rootWith r cs).pre := by
    intro d hd
    cases hfinal : rootSpace? r with
    | none =>
        unfold rootDeclarations at hd
        rw [hfinal] at hd
        cases hns : rootNamespace? r <;> rw [hns] at hd <;> exact absurd hd (by simp)
    | some final =>
        obtain ⟨hpre, pre, hns, hdecl⟩ := rootSpace?_eq_some hr hfinal
        rw [hdecl] at hd ⊢
        split at hd
        next => exact absurd hd (by simp)
        next hne =>
          obtain rfl := List.mem_singleton.mp hd
          rw [if_neg hne]
          have hown : (rootWith r cs).pre = pre := by
            unfold Element.pre rootWith
            rw [hns]
            rfl
          exact ⟨rfl, ⟨.inr hpre, (hspace _ hns).2⟩, by rw [hown]; exact hne⟩
  refine ⟨hname, hspace, fun d hd => (hdecls d hd).2.1, ?_, fun d hd => (hdecls d hd).2.2, nofun,
    List.nodup_nil⟩
  show ((rootDeclarations r).map Namespace.pre).Nodup
  cases hd : rootDeclarations r with
  | nil => exact List.nodup_nil
  | cons d ds =>
      have hone := (hdecls d (by rw [hd]; simp)).1
      rw [hd] at hone
      rw [hone]
      exact List.nodup_singleton _

theorem wellFormed_target {r : Route} (hr : r.validate = .ok ()) (now : Calendar.Instant)
    (message : Message) : WellFormed (target now message r).1 := by
  obtain ⟨cs, hcs, heq⟩ := target_eq now message r
  have htag := properTag_rootWith hr cs
  rw [heq]
  exact .intro htag fun c hc => (hcs c hc).wellFormed htag.space

end Crosswalk.Engine
