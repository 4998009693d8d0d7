/-
  Crosswalk.Proofs.Engine.Skipped
  ──────────────────────────────────────
  **FIELDS THAT WERE SKIPPED.**

  A field that fails is reported and skipped, but its walk may have made
  elements before it came to a name that no element can have, and these stay.
  So a run without the skipped fields gives the same document exactly when no
  field that fails leaves anything behind (`NothingLeft`): where its
  transform succeeds and a name on its path is bad, the first name that is
  missing there must be bad already.

    • `assign_error`, `assign_traceless_iff`: where a walk along a path fails,
      and when it has changed nothing by then,
    • `run_survivors_iff`: runs without the fields that fail, for any step,
    • `build_kept_iff`: documents without the fields that were reported,
    • `text_kept`: the texts of both directions.
-/
import Crosswalk.Engine.Reply
import Crosswalk.Proofs.Engine.Target

namespace Crosswalk.Path

open Markup

/-! ## §1. A walk that fails. -/

/-- The names of a path from the first one on that is missing below an element. -/
def missing : Element → List Text → List Text
  | _, [] => []
  | e, name :: rest =>
    match e.childIndex? name with
    | some i => missing (e.children.get i) rest
    | none => name :: rest

/-- Below an element that was just made every name is missing. -/
theorem missing_offspring (e : Element) (name : Text) (rest : List Text) :
    missing (e.offspring name) rest = rest := by
  cases rest with
  | nil => rfl
  | cons n ns => rfl

/-- **A walk fails at the first name that is missing and cannot be made.** -/
theorem assign_error (value : Text) : ∀ (names : List Text) (e : Element),
    (assign value e names).2
      = ((missing e names).find? (fun n => !isName n)).map .invalidName := by
  intro names
  induction names with
  | nil => intro e; rfl
  | cons name rest ih =>
      intro e
      rw [assign, missing]
      cases hi : e.childIndex? name with
      | some i => exact ih (e.children.get i)
      | none =>
          by_cases hname : isName name = true
          · simp only [hname, if_true]
            show (assign value (e.offspring name) rest).2 = _
            rw [ih, missing_offspring, List.find?_cons_of_neg (by simp [hname])]
          · simp only [if_neg hname]
            rw [List.find?_cons_of_pos (by simpa using hname)]
            rfl

/-- **A walk that failed has changed nothing exactly when the first missing name is bad**: otherwise
it has made that element. -/
theorem assign_eq_self_iff (value : Text) : ∀ (names : List Text) (e : Element),
    (assign value e names).2 ≠ none →
      ((assign value e names).1 = e ↔ ∃ n ∈ (missing e names).head?, isName n = false) := by
  intro names
  induction names with
  | nil => intro e h; exact absurd rfl h
  | cons name rest ih =>
      intro e h
      rw [assign] at h ⊢
      rw [missing]
      cases hi : e.childIndex? name with
      | some i =>
          simp only [hi] at h ⊢
          rw [← ih (e.children.get i) h]
          -- a child is put back in its place, so the tree is the same when the child is
          constructor
          · intro heq
            have hset : e.children.set i (assign value e.children[i] rest).1 = e.children :=
              congrArg Element.children heq
            have hget := congrArg (fun l : List Element => l[(i : Nat)]?) hset
            simpa using hget
          · intro heq
            show { e with children := e.children.set i (assign value (e.children.get i) rest).1 } = e
            rw [heq, List.get_eq_getElem, List.set_getElem_self]
            cases e
            rfl
      | none =>
          by_cases hname : isName name = true
          · simp only [hname, if_true]
            constructor
            · intro heq
              have hlen := congrArg (fun x : Element => x.children.length) heq
              simp [Element.addChild] at hlen
            · rintro ⟨n, hn, hbad⟩
              obtain rfl := Option.some.inj hn
              rw [hname] at hbad
              exact absurd hbad (by decide)
          · simp only [if_neg hname]
            exact ⟨fun _ => ⟨name, rfl, by simpa using hname⟩, fun _ => trivial⟩

/-- A walk along the names makes an element and then comes to a name that no element can have. -/
def Strands (e : Element) (names : List Text) : Prop :=
  ∃ first rest, missing e names = first :: rest ∧ isName first = true
    ∧ ∃ n ∈ rest, isName n = false

/-- **A walk that fails leaves no trace unless it strands.** -/
theorem assign_traceless_iff (value : Text) (e : Element) (names : List Text) :
    ((assign value e names).2 ≠ none → (assign value e names).1 = e) ↔ ¬ Strands e names := by
  have herror := assign_error value names e
  have hself := assign_eq_self_iff value names e
  constructor
  · rintro h ⟨first, rest, hmissing, hfirst, n, hn, hbad⟩
    rw [hmissing] at herror hself
    have hfails : (assign value e names).2 ≠ none := by
      rw [herror, List.find?_cons_of_neg (by simp [hfirst]), Ne, Option.map_eq_none_iff,
        List.find?_eq_none]
      exact fun hall => hall n hn (by simp [hbad])
    obtain ⟨m, hm, hbad'⟩ := (hself hfails).mp (h hfails)
    rw [← Option.some.inj hm, hfirst] at hbad'
    exact absurd hbad' (by decide)
  · intro h hfails
    refine (hself hfails).mpr ?_
    rw [herror, Ne, Option.map_eq_none_iff, List.find?_eq_none] at hfails
    cases hmissing : missing e names with
    | nil =>
        rw [hmissing] at hfails
        exact absurd (fun n hn => absurd hn List.not_mem_nil) hfails
    | cons first rest =>
        refine ⟨first, rfl, ?_⟩
        by_contra hfirst
        rw [Bool.not_eq_false] at hfirst
        -- the bad name stands behind the first missing one
        refine hfails fun n hn => ?_
        rw [hmissing] at hn
        rcases List.mem_cons.mp hn with rfl | hn
        · simp [hfirst]
        · intro hbad
          exact h ⟨first, rest, hmissing, hfirst, n, hn, by simpa using hbad⟩

end Crosswalk.Path

namespace Crosswalk.Engine

open Markup
open Route (FieldMapping)

/-! ## §2. Runs without the steps that fail. -/

/-- The fields that were not reported as skipped. -/
def kept (skipped : List Skipped) (fs : List FieldMapping) : List FieldMapping :=
  (fs.zipIdx.filter (fun p => p.2 ∉ skipped.map Skipped.index)).map Prod.fst

section Run

variable {α : Type} (route : Text) (apply : α → FieldMapping → α × Option FieldError)

/-- The fields of a run that do not fail. -/
def survivors : α → List FieldMapping → List FieldMapping
  | _, [] => []
  | a, f :: fs =>
    if (apply a f).2 = none then f :: survivors (apply a f).1 fs else survivors (apply a f).1 fs

/-- No field of a run that fails changes what it meets. -/
def Traceless : α → List FieldMapping → Prop
  | _, [] => True
  | a, f :: fs => ((apply a f).2 ≠ none → (apply a f).1 = a) ∧ Traceless (apply a f).1 fs

theorem runFields_cons (index : Nat) (a : α) (f : FieldMapping) (fs : List FieldMapping) :
    runFields route apply index a (f :: fs)
      = ((runFields route apply (index + 1) (apply a f).1 fs).1,
          ((apply a f).2.map (⟨route, index, f, ·⟩)).toList
            ++ (runFields route apply (index + 1) (apply a f).1 fs).2) :=
  rfl

theorem index_le_of_mem_runFields : ∀ (fs : List FieldMapping) (index : Nat) (a : α),
    ∀ s ∈ (runFields route apply index a fs).2, index ≤ s.index := by
  intro fs
  induction fs with
  | nil => intro index a s hs; exact absurd hs (by simp [runFields])
  | cons f fs ih =>
      intro index a s hs
      rw [runFields_cons] at hs
      rcases List.mem_append.mp hs with hs | hs
      · obtain ⟨error, -, rfl⟩ := Option.map_eq_some_iff.mp (Option.mem_toList.mp hs)
        exact Nat.le_refl index
      · exact Nat.le_of_succ_le (ih (index + 1) (apply a f).1 s hs)

/-- A report about an earlier field is none about the fields from here on. -/
theorem filter_report (fs : List FieldMapping) (index : Nat) (early late : List Skipped)
    (hearly : ∀ s ∈ early, s.index < index) :
    (fs.zipIdx index).filter (fun p => p.2 ∉ (early ++ late).map Skipped.index)
      = (fs.zipIdx index).filter (fun p => p.2 ∉ late.map Skipped.index) := by
  apply List.filter_congr
  intro p hp
  have hge : index ≤ p.2 := (List.mem_zipIdx hp).1
  have hnone : p.2 ∉ early.map Skipped.index := by
    intro hmem
    obtain ⟨s, hs, heq⟩ := List.mem_map.mp hmem
    have hlt := hearly s hs
    omega
  rw [List.map_append]
  simp [hnone]

/-- **The fields that were not reported are those that do not fail**, among any number of fields from
the first on. -/
theorem kept_eq_survivors : ∀ (fs : List FieldMapping) (index : Nat) (a : α) (n : Nat),
    (((fs.take n).zipIdx index).filter
        (fun p => p.2 ∉ (runFields route apply index a fs).2.map Skipped.index)).map Prod.fst
      = survivors apply a (fs.take n) := by
  intro fs
  induction fs with
  | nil => intro index a n; simp [survivors]
  | cons f fs ih =>
      intro index a n
      cases n with
      | zero => rfl
      | succ n =>
          rw [List.take_succ_cons, List.zipIdx_cons, runFields_cons, survivors,
            ← ih (index + 1) (apply a f).1 n]
          cases he : (apply a f).2 with
          | none =>
              -- later fields have later places, so no report is about this one
              have hlater : index ∉ (runFields route apply (index + 1) (apply a f).1 fs).2.map
                  Skipped.index := by
                intro hmem
                obtain ⟨s, hs, heq⟩ := List.mem_map.mp hmem
                have hle := index_le_of_mem_runFields route apply fs (index + 1) (apply a f).1 s hs
                omega
              rw [List.filter_cons_of_pos (by simpa using hlater)]
              simp
          | some error =>
              have hrest := filter_report (fs.take n) (index + 1) [⟨route, index, f, error⟩]
                (runFields route apply (index + 1) (apply a f).1 fs).2
                (fun s hs => by rw [List.mem_singleton.mp hs]; exact Nat.lt_succ_self index)
              rw [List.filter_cons_of_neg (by simp), if_neg (by simp)]
              exact congrArg (List.map Prod.fst) hrest

/-- The state after some fields. -/
def after (a : α) (fs : List FieldMapping) : α :=
  fs.foldl (fun a f => (apply a f).1) a

/-- After any number of fields the state is the same without those of them that fail. -/
def SameStates (a : α) (fs : List FieldMapping) : Prop :=
  ∀ n, after apply a (survivors apply a (fs.take n)) = after apply a (fs.take n)

/-- A field that does not fail is made in both runs. -/
theorem sameStates_cons_of_made {a : α} {f : FieldMapping} (he : (apply a f).2 = none)
    (fs : List FieldMapping) :
    SameStates apply a (f :: fs) ↔ SameStates apply (apply a f).1 fs := by
  have hstep : ∀ n, after apply a (survivors apply a ((f :: fs).take (n + 1)))
      = after apply (apply a f).1 (survivors apply (apply a f).1 (fs.take n)) := by
    intro n
    rw [List.take_succ_cons, survivors, if_pos he]
    rfl
  constructor
  · intro h n
    rw [← hstep]
    exact h (n + 1)
  · intro h n
    cases n with
    | zero => rfl
    | succ n =>
        rw [hstep]
        exact h n

/-- A field that fails is missing in one of them, so it must not have changed the state. -/
theorem sameStates_cons_of_failed {a : α} {f : FieldMapping} (he : (apply a f).2 ≠ none)
    (fs : List FieldMapping) :
    SameStates apply a (f :: fs) ↔ (apply a f).1 = a ∧ SameStates apply (apply a f).1 fs := by
  have hstep : ∀ n, survivors apply a ((f :: fs).take (n + 1))
      = survivors apply (apply a f).1 (fs.take n) := by
    intro n
    rw [List.take_succ_cons, survivors, if_neg he]
  have hafter : ∀ n, after apply a ((f :: fs).take (n + 1))
      = after apply (apply a f).1 (fs.take n) := fun _ => rfl
  constructor
  · intro h
    have hsame : (apply a f).1 = a := by
      have hone := h 1
      rw [hstep] at hone
      exact hone.symm
    refine ⟨hsame, fun n => ?_⟩
    have hn := h (n + 1)
    rw [hstep, hafter] at hn
    rwa [hsame] at hn ⊢
  · rintro ⟨hsame, h⟩ n
    cases n with
    | zero => rfl
    | succ n =>
        have hn := h n
        rw [hstep, hafter]
        rwa [hsame] at hn ⊢

/-- **Without the fields that fail a run passes through the same states exactly when none of them
leaves a trace.** -/
theorem run_survivors_iff : ∀ (fs : List FieldMapping) (a : α),
    SameStates apply a fs ↔ Traceless apply a fs := by
  intro fs
  induction fs with
  | nil => intro a; simp [SameStates, survivors, Traceless]
  | cons f fs ih =>
      intro a
      rw [Traceless, ← ih]
      by_cases he : (apply a f).2 = none
      · rw [sameStates_cons_of_made apply he]
        exact (and_iff_right fun hne => absurd he hne).symm
      · rw [sameStates_cons_of_failed apply he, forall_prop_of_true he]

/-- A run of the fields that do not fail ends the same and reports nothing. -/
theorem runFields_survivors : ∀ (fs : List FieldMapping) (index : Nat) (a : α),
    Traceless apply a fs →
      runFields route apply index a (survivors apply a fs) = (after apply a fs, []) := by
  intro fs
  induction fs with
  | nil => intro index a _; rfl
  | cons f fs ih =>
      rintro index a ⟨hsame, h⟩
      rw [survivors]
      by_cases he : (apply a f).2 = none
      · rw [if_pos he, runFields_cons, ih (index + 1) (apply a f).1 h, he]
        rfl
      · rw [if_neg he]
        have hrest := ih index (apply a f).1 h
        rw [hsame he] at hrest ⊢
        rw [hrest]
        show _ = (after apply (apply a f).1 fs, [])
        rw [hsame he]

end Run

/-! ## §3. Documents without the fields that were skipped. -/

/-- The document that fields with these values build from a root, and the fields that were
skipped. -/
def build (route : Text) (value : FieldMapping → Except Transform.Fault (Option Text))
    (root : Element) (fs : List FieldMapping) : Element × List Skipped :=
  runFields route (fun root f => setField f.target (value f) root) 0 root fs

/-- There is a value for the target, and putting it there strands behind an element that is made. -/
def LeavesBehind (root : Element) (target : Option Text)
    (value : Except Transform.Fault (Option Text)) : Prop :=
  match value, target with
  | .ok (some _), some path => Path.Strands root (Path.namesBelow root.name path)
  | _, _ => False

/-- No field leaves anything behind in the document that it meets. -/
def NothingLeft (value : FieldMapping → Except Transform.Fault (Option Text)) :
    Element → List FieldMapping → Prop
  | _, [] => True
  | root, f :: fs =>
    ¬ LeavesBehind root f.target (value f)
      ∧ NothingLeft value (setField f.target (value f) root).1 fs

/-- **A field that fails leaves the document as it is unless it leaves something behind.** -/
theorem setField_traceless_iff (root : Element) (target : Option Text)
    (value : Except Transform.Fault (Option Text)) :
    ((setField target value root).2 ≠ none → (setField target value root).1 = root)
      ↔ ¬ LeavesBehind root target value := by
  unfold setField LeavesBehind
  cases value with
  | error fault => simp
  | ok v =>
      cases v with
      | none => cases target <;> simp [Path.set]
      | some v =>
          cases target with
          | none => simp [Path.set]
          | some path =>
              unfold Path.set
              cases hnames : Path.namesBelow root.name path with
              | nil => simp [Path.Strands, Path.missing, hnames]
              | cons name names =>
                  simp only [hnames]
                  rw [← Path.assign_traceless_iff v root (name :: names)]
                  simp

theorem traceless_iff (value : FieldMapping → Except Transform.Fault (Option Text)) :
    ∀ (fs : List FieldMapping) (root : Element),
      Traceless (fun root f => setField f.target (value f) root) root fs
        ↔ NothingLeft value root fs := by
  intro fs
  induction fs with
  | nil => intro root; exact Iff.rfl
  | cons f fs ih =>
      intro root
      exact and_congr (setField_traceless_iff root f.target (value f)) (ih _)

variable (route : Text) (value : FieldMapping → Except Transform.Fault (Option Text))
  (root : Element) (fs : List FieldMapping)

theorem build_fst : (build route value root fs).1
    = after (fun root f => setField f.target (value f) root) root fs :=
  runFields_fst route _ fs 0 root

theorem kept_build (n : Nat) : kept (build route value root fs).2 (fs.take n)
    = survivors (fun root f => setField f.target (value f) root) root (fs.take n) :=
  kept_eq_survivors route _ fs 0 root n

/-- **Without the skipped fields every document on the way is the same exactly when nothing is left
behind.** -/
theorem build_kept_iff :
    (∀ n, (build route value root (kept (build route value root fs).2 (fs.take n))).1
        = (build route value root (fs.take n)).1)
      ↔ NothingLeft value root fs := by
  rw [← traceless_iff, ← run_survivors_iff]
  unfold SameStates
  simp only [kept_build, build_fst]

/-- Without the skipped fields the document at the end is then the same, and no field is skipped. -/
theorem build_kept (h : NothingLeft value root fs) :
    build route value root (kept (build route value root fs).2 fs)
      = ((build route value root fs).1, []) := by
  have hall := kept_build route value root fs fs.length
  rw [List.take_length] at hall
  rw [hall, build_fst]
  exact runFields_survivors route _ fs 0 root ((traceless_iff value fs root).mpr h)

/-! ## §4. THE TEXTS OF BOTH DIRECTIONS. -/

/-- **WITHOUT THE SKIPPED FIELDS THE TEXT IS THE SAME**, for a message and for a reply in markup, when
no field leaves anything behind; and that is exactly when the document is the same after any number
of fields.  The root of the reply keeps the name that it has with all fields. -/
theorem text_kept (now : Calendar.Instant) (content : Text) (r : Route) :
    (∀ message t, readInbound content r = .ok message → request now content r = .ok t →
        ((∀ n, (target now message { r with request := kept t.skipped (r.request.take n) }).1
              = (target now message { r with request := r.request.take n }).1)
            ↔ NothingLeft (requestValue now message) (emptyTarget r) r.request)
          ∧ (NothingLeft (requestValue now message) (emptyTarget r) r.request →
              request now content { r with request := kept t.skipped r.request } = .ok ⟨t.text, []⟩))
      ∧ ∀ document format t, readReply content r = .ok document → format ≠ .json →
          reply now content r format = .ok t →
          ((∀ n, (build r.id (replyValue now document) (.bare (replyRoot r) none)
                  (kept t.skipped (r.response.take n))).1
                = (build r.id (replyValue now document) (.bare (replyRoot r) none)
                    (r.response.take n)).1)
              ↔ NothingLeft (replyValue now document) (.bare (replyRoot r) none) r.response)
            ∧ (NothingLeft (replyValue now document) (.bare (replyRoot r) none) r.response →
                Markup.write (build r.id (replyValue now document) (.bare (replyRoot r) none)
                  (kept t.skipped r.response)).1 = t.text) := by
  refine ⟨fun message t hread ht => ?_, fun document format t hread hformat ht => ?_⟩
  · have htarget : ∀ fs, target now message { r with request := fs }
        = build r.id (requestValue now message) (emptyTarget r) fs := fun _ => rfl
    have hkeep : ∀ fs, readInbound content { r with request := fs } = .ok message := fun _ => hread
    have htext : t = ⟨writeTarget r (target now message r).1, (target now message r).2⟩ := by
      unfold request at ht
      rw [hread] at ht
      exact (Except.ok.inj ht).symm
    subst htext
    simp only [htarget]
    refine ⟨build_kept_iff r.id _ _ r.request, fun h => ?_⟩
    unfold request
    rw [hkeep]
    have hsame := build_kept r.id (requestValue now message) (emptyTarget r) r.request h
    show Except.ok (⟨writeTarget r (build r.id _ (emptyTarget r) (kept _ r.request)).1,
      (build r.id _ (emptyTarget r) (kept _ r.request)).2⟩ : Translated) = _
    rw [hsame]
  · have htext : t = markupReply now document r := by
      unfold reply at ht
      rw [hread] at ht
      have hmarkup := (Except.ok.inj ht).symm
      cases format with
      | json => exact absurd rfl hformat
      | _ => exact hmarkup
    subst htext
    refine ⟨build_kept_iff r.id _ _ r.response, fun h => ?_⟩
    have hsame := build_kept r.id (replyValue now document) (.bare (replyRoot r) none) r.response h
    show Markup.write (build r.id _ _ (kept (build r.id _ _ r.response).2 r.response)).1 = _
    rw [hsame]
    rfl

/-- A route that comes to the bad name after another in its requests, and at once in its replies. -/
def leaving : Route :=
  { Route.empty with
    id := "r".toList
    inbound := some .json
    request := [.between "constant:1".toList "A/1bad".toList]
    response :=
      [.between "constant:1".toList "1bad/B".toList, .between "constant:2".toList "B".toList] }

/-- Its requests keep the element that was made before the bad name, its replies lose nothing. -/
theorem text_kept_leaving :
    (∃ t, request newYear "\x7b\x7d".toList leaving = .ok t
        ∧ ∃ n, (target newYear (.json (.object [])) { leaving with
              request := kept t.skipped (leaving.request.take n) }).1
            ≠ (target newYear (.json (.object [])) { leaving with
              request := leaving.request.take n }).1)
      ∧ ∃ document t, readReply "<r/>".toList leaving = .ok document
        ∧ reply newYear "<r/>".toList leaving .xml = .ok t
        ∧ t.skipped.map Skipped.index = [0]
        ∧ Markup.write (build leaving.id (replyValue newYear document)
            (.bare (replyRoot leaving) none) (kept t.skipped leaving.response)).1 = t.text := by
  have hinbound : readInbound "\x7b\x7d".toList leaving = .ok (.json (.object [])) := rfl
  have hread : readReply "<r/>".toList leaving = .ok (.bare "r".toList none) := by decide +kernel
  have hreply : reply newYear "<r/>".toList leaving .xml
      = .ok (markupReply newYear (.bare "r".toList none) leaving) := by
    unfold reply
    rw [hread]
    rfl
  obtain ⟨hrequest, -⟩ := text_kept newYear "\x7b\x7d".toList leaving
  obtain ⟨-, hmarkup⟩ := text_kept newYear "<r/>".toList leaving
  refine ⟨⟨_, rfl, ?_⟩, _, _, hread, hreply, by decide +kernel, ?_⟩
  · have hleft : ¬ NothingLeft (requestValue newYear (.json (.object []))) (emptyTarget leaving)
        leaving.request :=
      fun h => h.1 ⟨"A".toList, ["1bad".toList], rfl, rfl, _, List.mem_singleton_self _, rfl⟩
    by_contra hall
    simp only [not_exists, ne_eq, not_not] at hall
    exact hleft ((hrequest _ _ hinbound rfl).1.mp hall)
  · refine ((hmarkup _ _ _ hread (by decide) hreply).2 ⟨?_, ?_, trivial⟩)
    · rintro ⟨first, rest, hmissing, hname, -⟩
      obtain ⟨rfl, -⟩ := List.cons.inj hmissing
      exact absurd hname (by decide)
    · rintro ⟨first, rest, hmissing, -, n, hn, -⟩
      obtain ⟨-, rfl⟩ := List.cons.inj hmissing
      exact absurd hn List.not_mem_nil

end Crosswalk.Engine
