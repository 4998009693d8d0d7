/-
  Crosswalk.Proofs.Engine.Target
  ──────────────────────────────────────
  **THE CANONICAL DOCUMENT IS A LAST-WRITE-WINS MAP.**

  A field mapping that has a value writes it at the names of its target
  (`written`).  Carrying over all fields of a route makes these writes one
  after the other, and `Reflects` is kept by each of them, so the document
  that results is known from the list of writes alone:

    • `setField_reflects`, `foldl_setField_reflects`: one field, and fields one
      after the other,
    • `target_reflects`: all fields of a route,
    • `target_lastWrite`: which elements there are, their texts and their
      order.
-/
import Crosswalk.Engine.Request
import Crosswalk.Proofs.Path.LastWrite

namespace Crosswalk.Engine

open Markup
open Crosswalk.Path (Writes Reflects)
open Route (FieldMapping)

/-! ## §1. The run over the fields. -/

/-- Errors do not stop a run: the fields are applied one after the other. -/
theorem runFields_fst {α : Type} (route : Text) (apply : α → FieldMapping → α × Option FieldError) :
    ∀ (fs : List FieldMapping) (index : Nat) (a : α),
      (runFields route apply index a fs).1 = fs.foldl (fun a f => (apply a f).1) a
  | [], _, _ => rfl
  | f :: fs, index, a => by
      show (runFields route apply (index + 1) (apply a f).1 fs).1 = _
      rw [runFields_fst route apply fs (index + 1) (apply a f).1]
      rfl

/-- What one step keeps, the whole run keeps. -/
theorem runFields_invariant {α : Type} {route : Text}
    {apply : α → FieldMapping → α × Option FieldError} {P : α → Prop}
    {fs : List FieldMapping} (hstep : ∀ a, ∀ f ∈ fs, P a → P (apply a f).1) (index : Nat) {a : α}
    (ha : P a) : P (runFields route apply index a fs).1 := by
  rw [runFields_fst]
  induction fs generalizing a with
  | nil => exact ha
  | cons f fs ih =>
      exact ih (fun a g hg => hstep a g (List.mem_cons_of_mem f hg))
        (hstep a f List.mem_cons_self ha)

/-! ## §2. What the fields of a route write. -/

/-- What a field with the given target and value writes: the value at the names of the target below
a root of the given name.  Without a value, without a target and at a target without names it writes
nothing. -/
def fieldWrite (root : Text) (target : Option Text)
    (value : Except Transform.Fault (Option Text)) : Option (List Text × Text) :=
  match value, target with
  | .ok (some value), some path =>
    match Path.namesBelow root path with
    | [] => none
    | names => some (names, value)
  | _, _ => none

/-- What a field mapping of a request writes. -/
def writtenBy (now : Calendar.Instant) (message : Message) (root : Text) (f : FieldMapping) :
    Option (List Text × Text) :=
  fieldWrite root f.target (requestValue now message f)

/-- What the field mappings of a route write, in order. -/
def written (now : Calendar.Instant) (message : Message) (r : Route) : Writes :=
  r.request.filterMap (writtenBy now message r.root)

/-! ## §3. The document before the first field. -/

/-- The namespace of the document. -/
def rootNamespace? (r : Route) : Option Namespace :=
  r.space.bind (fun s => s.uri.map (⟨s.pre.getD [], ·⟩))

/-- What the root declares besides its namespace: the prefix it gets in the end, unless it has it
already. -/
def rootDeclarations (r : Route) : List Namespace :=
  match rootNamespace? r, rootSpace? r with
  | some ns, some final => if final.pre = ns.pre then [] else [final]
  | _, _ => []

theorem emptyTarget_eq (r : Route) :
    emptyTarget r = ⟨r.root, rootNamespace? r, rootDeclarations r, [], [], none⟩ := by
  unfold emptyTarget rootDeclarations rootNamespace? rootSpace?
  cases hs : r.space with
  | none => rfl
  | some s =>
      obtain ⟨uri, pre, rootPre⟩ := s
      cases uri with
      | none => rfl
      | some uri =>
          cases rootPre with
          | none => rfl
          | some p =>
              by_cases hp : p.isEmpty = true
              · simp [hp, Element.bare]
              · have hne : p ≠ [] := by simpa using hp
                by_cases heq : p = pre.getD []
                · subst heq
                  simp [hne, Element.bare]
                · simp [hne, heq, Element.bare, Element.declare]

theorem name_set (root : Element) (path value : Option Text) :
    (Path.set root path value).1.name = root.name := by
  unfold Path.set
  split
  · split
    · rfl
    · exact Path.name_assign _ _ _
  · rfl

theorem name_setField (target : Option Text) (value : Except Transform.Fault (Option Text))
    (root : Element) : (setField target value root).1.name = root.name := by
  unfold setField
  split
  · rfl
  · exact name_set _ _ _

/-! ## §4. One field, and all fields. -/

/-- **One field keeps document and writes together.** -/
theorem setField_reflects {root : Element} {ws : Writes} {target : Option Text}
    {value : Except Transform.Fault (Option Text)} (h : Reflects root ws)
    (hvalid : ∀ w, fieldWrite root.name target value = some w → ∀ n ∈ w.1, isName n = true) :
    Reflects (setField target value root).1
      (ws ++ (fieldWrite root.name target value).toList) := by
  unfold setField
  unfold fieldWrite at hvalid ⊢
  cases value with
  | error fault => simpa using h
  | ok value =>
      cases value with
      -- without a value nothing is written, whatever the target
      | none => cases target <;> simpa [Path.set] using h
      | some value =>
          cases target with
          | none => simpa [Path.set] using h
          | some path =>
              unfold Path.set
              cases hn : Path.namesBelow root.name path with
              | nil =>
                  simp only [hn, Option.toList_none, List.append_nil]
                  exact h
              | cons n names =>
                  simp only [hn] at hvalid ⊢
                  exact (Reflects.assign (hvalid _ rfl) h).1

/-- A run over fields keeps a root of the given name and its writes together. -/
theorem foldl_setField_reflects {name : Text}
    {value : FieldMapping → Except Transform.Fault (Option Text)} {fs : List FieldMapping}
    {root : Element} {ws : Writes} (hroot : root.name = name)
    (hfs : ∀ w ∈ fs.filterMap (fun f => fieldWrite name f.target (value f)),
      ∀ n ∈ w.1, isName n = true)
    (h : Reflects root ws) :
    Reflects (fs.foldl (fun a f => (setField f.target (value f) a).1) root)
      (ws ++ fs.filterMap (fun f => fieldWrite name f.target (value f))) := by
  -- the name is part of the invariant: which names a path leads along depends on it
  induction fs generalizing root ws with
  | nil =>
      rw [List.filterMap_nil, List.append_nil]
      exact h
  | cons f fs ih =>
      have hcons : (f :: fs).filterMap (fun f => fieldWrite name f.target (value f))
          = (fieldWrite name f.target (value f)).toList
            ++ fs.filterMap (fun f => fieldWrite name f.target (value f)) := by
        cases hw : fieldWrite name f.target (value f) <;> simp [hw]
      rw [hcons] at hfs
      rw [hcons, ← List.append_assoc]
      refine ih ((name_setField _ _ root).trans hroot)
        (fun w hw => hfs w (List.mem_append_right _ hw)) ?_
      rw [← hroot]
      refine setField_reflects h fun w hw => hfs w (List.mem_append_left _ ?_)
      rw [← hroot, hw]
      exact List.mem_singleton_self w

/-- **The document of a route reflects the writes of its fields.** -/
theorem target_reflects {now : Calendar.Instant} {message : Message} {r : Route}
    (hvalid : ∀ w ∈ written now message r, ∀ n ∈ w.1, isName n = true) :
    Reflects (target now message r).1 (written now message r) := by
  have hempty : Reflects ⟨r.root, rootNamespace? r, rootDeclarations r, [], [], none⟩ [] :=
    Path.reflects_nil rfl rfl
  unfold target
  rw [runFields_fst, emptyTarget_eq]
  exact @foldl_setField_reflects r.root (requestValue now message) r.request _ [] rfl hvalid hempty

/-- **THE DOCUMENT IS A LAST-WRITE-WINS MAP.**  Let the names of all paths that were written to be
valid.  Walking from the root along names without a colon, as all valid ones are, then reaches an
element exactly when something was written there or below; its text is that of the last write at
exactly these names, and none when there was none; its children, and those of the root, stand in
the order in which their paths were first written.  No element is out of reach of such a walk. -/
theorem target_lastWrite (now : Calendar.Instant) (message : Message) (r : Route)
    (hvalid : ∀ w ∈ written now message r, ∀ n ∈ w.1, isName n = true) :
    (∀ p : List Text, p ≠ [] → (∀ n ∈ p, ':' ∉ n) →
      ((∃ e, p.foldlM Element.child? (target now message r).1 = some e)
          ↔ ∃ w ∈ written now message r, p <+: w.1)
        ∧ ∀ e, p.foldlM Element.child? (target now message r).1 = some e →
            e.text = (written now message r).last? p)
      ∧ (∀ (p : List Text) (e : Element), (∀ n ∈ p, ':' ∉ n) →
          p.foldlM Element.child? (target now message r).1 = some e →
          e.children.map Element.name = ((written now message r).under p).heads)
      ∧ ∀ (is : List Nat) (e : Element), (target now message r).1.get? is = some e →
          ∃ p : List Text, p.length = is.length ∧ (∀ n ∈ p, isName n = true)
            ∧ p.foldlM Element.child? (target now message r).1 = some e := by
  have h : Reflects (target now message r).1 (written now message r) := target_reflects hvalid
  refine ⟨fun p hne hp => ⟨?_, fun e hwalk => ?_⟩, fun p e hp hwalk => ?_, fun is e hget => ?_⟩
  · rw [h.exists_walk hp, Writes.under_ne_nil_iff]
    exact or_iff_right hne
  · rw [(h.walk hp hwalk).text_eq, Writes.last?_under]
  · exact (h.walk hp hwalk).names_eq
  · exact h.walk_of_get? hvalid hget

/-- An instant for routes that do not ask for the time. -/
def newYear : Calendar.Instant :=
  ⟨⟨2024, 1, 1⟩, 0, 0, 0, 0⟩

/-- A route that writes one element twice, another between them that is its parent, and uses all
notations of a path. -/
def overwriting : Route :=
  { Route.empty with
    request :=
      [.between "constant:1".toList "A/B".toList,
        .between "constant:2".toList "Document/A".toList,
        .between "constant:3".toList "target:source.A.C".toList,
        .between "constant:4".toList " A / B ".toList] }

/-- In its document the last text of `A/B` stands, before the sibling written later. -/
theorem target_lastWrite_overwriting :
    (∀ w ∈ written newYear (.json .null) overwriting, ∀ n ∈ w.1, isName n = true)
      ∧ (∀ e, ["A".toList, "B".toList].foldlM Element.child?
            (target newYear (.json .null) overwriting).1 = some e →
          e.text = some "4".toList)
      ∧ ∀ e, ["A".toList].foldlM Element.child?
            (target newYear (.json .null) overwriting).1 = some e →
          e.children.map Element.name = ["B".toList, "C".toList] := by
  have hvalid : ∀ w ∈ written newYear (.json .null) overwriting, ∀ n ∈ w.1,
      isName n = true := by decide
  obtain ⟨htext, horder, -⟩ := target_lastWrite newYear (.json .null) overwriting hvalid
  refine ⟨hvalid, fun e he => ?_, fun e he => ?_⟩
  · exact ((htext _ (by decide) (by decide)).2 e he).trans rfl
  · exact (horder _ e (by decide) he).trans rfl

end Crosswalk.Engine
