/-
  Crosswalk.Proofs.Engine.JsonReply
  ──────────────────────────────────────
  **A REPLY IN JSON IS A FAITHFUL MAP.**

  The fields of a reply are put into one object in turn.  A field that is in
  conflict with what is there leaves the object as it is, also when each field
  changes the object in place (`applyInPlace`), so a run has one step lemma:
  the object stays, or a text is put at a path (`applyJsonReply_cases`).

    • `mem_skipped_iff`: which fields of a run are reported,
    • `run_induction`: a run, field by field, with the object in order,
    • `runFields_inPlace`: the run in place,
    • `lookup_after`, `lookup_of_puts`: a text stays until one is put at its
      path or above,
    • `reply_holds_applied`: the text of a reply, the fields that are found in
      it, and the same text without the fields that were skipped,
    • `reply_text_perm`: the same text in any order of fields that lie apart.
-/
import Mathlib.Data.List.Pairwise
import Crosswalk.Proofs.Engine.ReplyObject
import Crosswalk.Proofs.Engine.Skipped

namespace Crosswalk.Engine

open Markup
open Route (FieldMapping)

/-! ## §1. One field. -/

/-- Carries one field over into an object, which is changed in place. -/
def applyInPlace (route : Text) (now : Calendar.Instant) (document : Element) (members : Members)
    (f : FieldMapping) : Members × Option FieldError :=
  match replyValue now document f, f.target with
  | .error fault, _ => (members, some (.transform fault))
  | .ok (some value), some path =>
    let (next, part) := putInPlace value (path.splitOn '.') members
    (next, part.map (.conflict route · path))
  | .ok _, _ => (members, none)

/-- No path has more than so many keys. -/
def NoLonger (length : Nat) (fs : List FieldMapping) : Prop :=
  ∀ f ∈ fs, ∀ path ∈ f.target, (path.splitOn '.').length ≤ length

instance (length : Nat) (fs : List FieldMapping) : Decidable (NoLonger length fs) :=
  inferInstanceAs (Decidable (∀ f ∈ fs, ∀ path ∈ f.target, (path.splitOn '.').length ≤ length))

theorem exists_noLonger (fs : List FieldMapping) : ∃ depth, NoLonger (depth + 1) fs := by
  induction fs with
  | nil => exact ⟨0, nofun⟩
  | cons f fs ih =>
      obtain ⟨depth, h⟩ := ih
      refine ⟨max depth ((f.target.map (fun path => (path.splitOn '.').length)).getD 0), ?_⟩
      intro g hg path hpath
      rcases List.mem_cons.mp hg with rfl | hg
      · rw [Option.mem_def.mp hpath, Option.map_some, Option.getD_some]
        omega
      · have hlength := h g hg path hpath
        omega

section

variable (route : Text) (now : Calendar.Instant) (document : Element)
variable {depth : Nat} {members : Members} {f : FieldMapping}

theorem applyInPlace_eq (h : Json.Plain depth (.object members)) :
    applyInPlace route now document members f = applyJsonReply route now document members f := by
  unfold applyInPlace applyJsonReply
  cases replyValue now document f with
  | error fault => rfl
  | ok value =>
      cases value with
      | none => cases f.target <;> rfl
      | some value =>
          cases f.target with
          | none => rfl
          | some path =>
              simp only [putInPlace_eq value h]
              cases putMember value (path.splitOn '.') members <;> rfl

/-- **What one field does**: it leaves the object as it is, and then it has no value or no target or
is reported; or it puts its value at its target, and is not reported. -/
theorem applyJsonReply_cases (h : Json.Plain depth (.object members)) :
    ((applyJsonReply route now document members f).1 = members
        ∧ ∀ value path, replyValue now document f = .ok (some value) → f.target = some path →
          (applyJsonReply route now document members f).2 ≠ none)
      ∨ ∃ value path, replyValue now document f = .ok (some value) ∧ f.target = some path
        ∧ (putInPlace value (path.splitOn '.') members).2 = none
        ∧ applyJsonReply route now document members f
          = ((putInPlace value (path.splitOn '.') members).1, none) := by
  unfold applyJsonReply
  cases hvalue : replyValue now document f with
  | error fault => exact .inl ⟨rfl, nofun⟩
  | ok value =>
      cases value with
      | none =>
          refine .inl ⟨by cases f.target <;> rfl, fun _ _ hnone => absurd hnone nofun⟩
      | some value =>
          cases htarget : f.target with
          | none => exact .inl ⟨rfl, nofun⟩
          | some path =>
              have hput : putInPlace value (path.splitOn '.') members = _ := putInPlace_eq value h
              cases hresult : putMember value (path.splitOn '.') members with
              | ok next =>
                  rw [hresult] at hput
                  refine .inr ⟨value, path, rfl, rfl, ?_, ?_⟩
                  · rw [hput]
                  · rw [hput]
                    simp only [hresult]
              | error part =>
                  -- a conflict is reported, so this is the first case
                  simp only [hresult]
                  exact .inl ⟨trivial, fun _ _ _ _ => nofun⟩

theorem plain_applyJsonReply (h : Json.Plain (depth + 1) (.object members))
    (hlength : ∀ path ∈ f.target, (path.splitOn '.').length ≤ depth + 1) :
    Json.Plain (depth + 1) (.object (applyJsonReply route now document members f).1) := by
  rcases applyJsonReply_cases route now document (f := f) h with
    ⟨hsame, -⟩ | ⟨value, path, -, htarget, -, hput⟩
  · rw [hsame]
    exact h
  · rw [hput]
    exact plain_putInPlace value h (hlength path htarget)

end

/-! ## §2. All fields. -/

section

variable {α : Type} (route : Text) (apply : α → FieldMapping → α × Option FieldError)

/-- **The fields that are reported are those that fail** on what the fields before them left. -/
theorem mem_skipped_iff : ∀ (fs : List FieldMapping) (index : Nat) (a : α) (i : Nat),
    index + i ∈ (runFields route apply index a fs).2.map Skipped.index
      ↔ ∃ f, fs[i]? = some f ∧ (apply (after apply a (fs.take i)) f).2 ≠ none := by
  intro fs
  induction fs with
  | nil => intro index a i; simp [runFields]
  | cons f fs ih =>
      intro index a i
      have hlater : ∀ s ∈ (runFields route apply (index + 1) (apply a f).1 fs).2,
          index + 1 ≤ s.index := index_le_of_mem_runFields route apply fs (index + 1) (apply a f).1
      rw [runFields_cons, List.map_append, List.mem_append]
      cases i with
      | zero =>
          -- only the report about this field is one about the first place
          have hnone : index + 0 ∉ (runFields route apply (index + 1) (apply a f).1 fs).2.map
              Skipped.index := by
            intro hmem
            obtain ⟨s, hs, heq⟩ := List.mem_map.mp hmem
            have hle := hlater s hs
            omega
          have hfirst : index + 0 ∈ ((apply a f).2.map (⟨route, index, f, ·⟩)).toList.map
              Skipped.index ↔ (apply a f).2 ≠ none := by
            cases (apply a f).2 <;> simp
          rw [or_iff_left hnone, hfirst]
          constructor
          · intro hfails
            exact ⟨f, rfl, hfails⟩
          · rintro ⟨g, hg, hfails⟩
            obtain rfl := Option.some.inj hg
            exact hfails
      | succ i =>
          have hfirst : index + (i + 1) ∉ ((apply a f).2.map
              (⟨route, index, f, ·⟩)).toList.map Skipped.index := by
            cases (apply a f).2 <;> simp
          rw [or_iff_right hfirst, ← Nat.add_assoc, Nat.add_right_comm, ih]
          rfl

theorem kept_runFields (fs : List FieldMapping) (a : α) :
    kept (runFields route apply 0 a fs).2 fs = survivors apply a fs := by
  have hall := kept_eq_survivors route apply fs 0 a fs.length
  rwa [List.take_length] at hall

end

section

variable (route : Text) (now : Calendar.Instant) (document : Element)
variable {depth : Nat}

/-- **Induction along a run** of fields, with the object that each of them meets. -/
theorem run_induction {motive : Members → List FieldMapping → Prop}
    (nil : ∀ members, Json.Plain (depth + 1) (.object members) → motive members [])
    (cons : ∀ members f fs, Json.Plain (depth + 1) (.object members) → NoLonger (depth + 1) fs →
      Json.Plain (depth + 1) (.object (applyJsonReply route now document members f).1) →
      motive (applyJsonReply route now document members f).1 fs → motive members (f :: fs)) :
    ∀ {fs : List FieldMapping} {members : Members}, NoLonger (depth + 1) fs →
      Json.Plain (depth + 1) (.object members) → motive members fs := by
  intro fs
  induction fs with
  | nil => intro members _ h; exact nil members h
  | cons f fs ih =>
      intro members hlength h
      have hrest : NoLonger (depth + 1) fs := fun g hg => hlength g (List.mem_cons_of_mem f hg)
      have hnext := plain_applyJsonReply route now document h (hlength f List.mem_cons_self)
      exact cons members f fs h hrest hnext (ih hrest hnext)

theorem plain_after {fs : List FieldMapping} {members : Members} (hlength : NoLonger (depth + 1) fs)
    (hplain : Json.Plain (depth + 1) (.object members)) :
    Json.Plain (depth + 1) (.object (after (applyJsonReply route now document) members fs)) :=
  run_induction route now document
    (motive := fun members fs =>
      Json.Plain (depth + 1) (.object (after (applyJsonReply route now document) members fs)))
    (fun _ h => h) (fun _ _ _ _ _ _ ih => ih) hlength hplain

/-- **The fields can be carried over in place.** -/
theorem runFields_inPlace {fs : List FieldMapping} {members : Members} (index : Nat)
    (hlength : NoLonger (depth + 1) fs) (hplain : Json.Plain (depth + 1) (.object members)) :
    runFields route (applyInPlace route now document) index members fs
      = runFields route (applyJsonReply route now document) index members fs := by
  revert index
  refine run_induction route now document
    (motive := fun members fs => ∀ index, runFields route (applyInPlace route now document) index
      members fs = runFields route (applyJsonReply route now document) index members fs)
    (fun _ _ _ => rfl) ?_ hlength hplain
  intro members f fs h _ _ ih index
  rw [runFields_cons, runFields_cons, applyInPlace_eq route now document h, ih (index + 1)]

/-- A field that is reported changes nothing. -/
theorem traceless_applyJsonReply {fs : List FieldMapping} {members : Members}
    (hlength : NoLonger (depth + 1) fs) (hplain : Json.Plain (depth + 1) (.object members)) :
    Traceless (applyJsonReply route now document) members fs := by
  refine run_induction route now document
    (motive := Traceless (applyJsonReply route now document)) (fun _ _ => trivial) ?_ hlength hplain
  intro members f fs h _ _ ih
  refine ⟨fun hfails => ?_, ih⟩
  rcases applyJsonReply_cases route now document (f := f) h with
    ⟨hsame, -⟩ | ⟨_, _, -, -, -, hput⟩
  · exact hsame
  · rw [hput] at hfails
    exact absurd rfl hfails

/-- The field at a place puts a text at a path: it has the text for a value and the path for a
target, and it does not fail on what the fields before it left. -/
def Puts (members : Members) (fs : List FieldMapping) (i : Nat) (path value : Text) : Prop :=
  ∃ f, fs[i]? = some f ∧ f.target = some path ∧ replyValue now document f = .ok (some value)
    ∧ (applyJsonReply route now document
        (after (applyJsonReply route now document) members (fs.take i)) f).2 = none

/-- **A text stays** until one is put at its path or above. -/
theorem lookup_after {p : List Text} {text : Text} {fs : List FieldMapping} {members : Members}
    (hlength : NoLonger (depth + 1) fs) (hplain : Json.Plain (depth + 1) (.object members))
    (hfound : Json.lookup p (.object members) = some (.string text))
    (hnot : ∀ j path value, Puts route now document members fs j path value →
      ¬ path.splitOn '.' <+: p) :
    Json.lookup p (.object (after (applyJsonReply route now document) members fs))
      = some (.string text) := by
  revert hfound hnot
  refine run_induction route now document
    (motive := fun members fs => Json.lookup p (.object members) = some (.string text) →
      (∀ j path value, Puts route now document members fs j path value →
        ¬ path.splitOn '.' <+: p) →
      Json.lookup p (.object (after (applyJsonReply route now document) members fs))
        = some (.string text))
    (fun _ _ h _ => h) ?_ hlength hplain
  intro members f fs h _ _ ih hfound hnot
  -- the fields behind this one are those behind it in the whole run
  refine ih ?_ fun j path value hputs => hnot (j + 1) path value hputs
  rcases applyJsonReply_cases route now document (f := f) h with
    ⟨hsame, -⟩ | ⟨value, path, hvalue, htarget, -, hput⟩
  · rw [hsame]
    exact hfound
  · have hputs : Puts route now document members (f :: fs) 0 path value :=
      ⟨f, rfl, htarget, hvalue, congrArg Prod.snd hput⟩
    rw [hput]
    exact lookup_putInPlace_of_not_prefix value hfound (hnot 0 path value hputs)

/-- **A text is found at the end** when no later one is put at its path or above. -/
theorem lookup_of_puts {path value : Text} {fs : List FieldMapping} {members : Members} {i : Nat}
    (hlength : NoLonger (depth + 1) fs) (hplain : Json.Plain (depth + 1) (.object members))
    (hputs : Puts route now document members fs i path value)
    (hlater : ∀ j path' value', i < j → Puts route now document members fs j path' value' →
      ¬ path'.splitOn '.' <+: path.splitOn '.') :
    Json.lookup (path.splitOn '.') (.object (after (applyJsonReply route now document) members fs))
      = some (.string value) := by
  revert i
  refine run_induction route now document
    (motive := fun members fs => ∀ {i}, Puts route now document members fs i path value →
      (∀ j path' value', i < j → Puts route now document members fs j path' value' →
        ¬ path'.splitOn '.' <+: path.splitOn '.') →
      Json.lookup (path.splitOn '.')
        (.object (after (applyJsonReply route now document) members fs)) = some (.string value))
    (fun _ _ _ hputs _ => absurd hputs.choose_spec.1 nofun) ?_ hlength hplain
  intro members f fs h hrest hnext ih i hputs hlater
  cases i with
  | succ i =>
      exact ih hputs fun j path' value' hj hputs' =>
        hlater (j + 1) path' value' (Nat.succ_lt_succ hj) hputs'
  | zero =>
      -- this field puts the text, and those behind it leave it there
      obtain ⟨g, hg, htarget, hvalue, hfine⟩ := hputs
      obtain rfl := Option.some.inj hg
      show Json.lookup _ (.object (after (applyJsonReply route now document)
        (applyJsonReply route now document members f).1 fs)) = _
      refine lookup_after route now document hrest hnext ?_ fun j path' value' hputs' =>
        hlater (j + 1) path' value' (Nat.zero_lt_succ j) hputs'
      rcases applyJsonReply_cases route now document (f := f) h with
        ⟨-, hreported⟩ | ⟨value', path', hvalue', htarget', hok, hput⟩
      · exact absurd hfine (hreported value path hvalue htarget)
      · obtain rfl := Option.some.inj (htarget'.symm.trans htarget)
        obtain rfl := Option.some.inj (Except.ok.inj (hvalue'.symm.trans hvalue))
        rw [hput]
        exact lookup_putInPlace value' (List.splitOn_ne_nil '.' path') hok

end

/-! ## §3. The reply. -/

/-- The field at a place of a route was applied in a reply: it has the value and the target, and it
is none of those that were skipped. -/
def Applied (now : Calendar.Instant) (document : Element) (r : Route) (skipped : List Skipped)
    (i : Nat) (path value : Text) : Prop :=
  ∃ f, r.response[i]? = some f ∧ f.target = some path
    ∧ replyValue now document f = .ok (some value) ∧ i ∉ skipped.map Skipped.index

section

variable (now : Calendar.Instant) (document : Element) (r : Route)

/-- The fields that were applied are those that put their texts. -/
theorem applied_iff {i : Nat} {path value : Text} :
    Applied now document r (jsonReply now document r).skipped i path value
      ↔ Puts r.id now document [] r.response i path value := by
  have hskipped := mem_skipped_iff r.id (applyJsonReply r.id now document) r.response 0 [] i
  rw [Nat.zero_add] at hskipped
  constructor
  · rintro ⟨f, hf, htarget, hvalue, hkept⟩
    refine ⟨f, hf, htarget, hvalue, ?_⟩
    by_contra hfails
    exact hkept (hskipped.mpr ⟨f, hf, hfails⟩)
  · rintro ⟨f, hf, htarget, hvalue, hfine⟩
    refine ⟨f, hf, htarget, hvalue, fun hreported => ?_⟩
    obtain ⟨g, hg, hfails⟩ := hskipped.mp hreported
    obtain rfl := Option.some.inj (hg.symm.trans hf)
    exact hfails hfine

variable {r}

theorem plain_reply {depth : Nat} (hlength : NoLonger (depth + 1) r.response) :
    Json.Plain (depth + 1)
      (.object (after (applyJsonReply r.id now document) [] r.response)) :=
  plain_after r.id now document hlength (plain_nil depth)

/-- Without the fields that were skipped the reply is the same, and none is skipped. -/
theorem jsonReply_kept :
    jsonReply now document
        { r with response := kept (jsonReply now document r).skipped r.response }
      = ⟨(jsonReply now document r).text, []⟩ := by
  obtain ⟨depth, hlength⟩ := exists_noLonger r.response
  have htraceless := traceless_applyJsonReply r.id now document hlength (plain_nil depth)
  -- the fields that were not reported are those that did not fail
  have hkept := kept_runFields r.id (applyJsonReply r.id now document) r.response []
  have hrun := runFields_survivors r.id (applyJsonReply r.id now document) r.response 0 []
    htraceless
  unfold jsonReply
  dsimp only
  rw [hkept, hrun, runFields_fst]
  rfl

/-- **A reply in JSON is a faithful map.**  It is the text of an object, also when each field changes
that object in place.  A field that was applied is found in the object under its path when no later
field was applied at this path or at one above, and without the fields that were skipped the text
is the same. -/
theorem reply_holds_applied (now : Calendar.Instant) (content : Text) (r : Route)
    {document : Element} (hread : readReply content r = .ok document) :
    ∃ t members, reply now content r .json = .ok t
      ∧ runFields r.id (applyInPlace r.id now document) 0 [] r.response = (members, t.skipped)
      ∧ t.text = (Json.object members).write
      ∧ (∃ depth, Json.readValue depth t.text = .ok (.object members, []))
      ∧ (NoLonger Json.deepest r.response → Json.read t.text = .ok (.object members))
      ∧ (∀ i path value, Applied now document r t.skipped i path value →
          (∀ j path' value', i < j → Applied now document r t.skipped j path' value' →
            ¬ path'.splitOn '.' <+: path.splitOn '.') →
          Json.lookup (path.splitOn '.') (.object members) = some (.string value))
      ∧ reply now content { r with response := kept t.skipped r.response } .json
          = .ok ⟨t.text, []⟩ := by
  obtain ⟨depth, hlength⟩ := exists_noLonger r.response
  have hreply : reply now content r .json = .ok (jsonReply now document r) := by
    unfold reply
    rw [hread]
    rfl
  have htext : (jsonReply now document r).text = (Json.object
      (after (applyJsonReply r.id now document) [] r.response)).write := by
    show (Json.object (runFields r.id _ 0 [] r.response).1).write = _
    rw [runFields_fst]
    rfl
  refine ⟨jsonReply now document r, after (applyJsonReply r.id now document) [] r.response, hreply,
    ?inPlace, htext, ⟨depth + 1, ?parses⟩, ?reads, ?finds, ?without⟩
  case inPlace =>
    rw [runFields_inPlace r.id now document 0 hlength (plain_nil depth)]
    refine Prod.ext ?_ rfl
    rw [runFields_fst]
    rfl
  case parses =>
    have hwritten := (Json.readValue_write (plain_reply now document hlength)).read []
    rwa [List.append_nil, ← htext] at hwritten
  case reads =>
    intro hdeepest
    rw [htext]
    exact Json.read_plain (plain_reply now document hdeepest)
  case finds =>
    intro i path value happlied hlater
    refine lookup_of_puts r.id now document hlength (plain_nil depth)
      ((applied_iff now document r).mp happlied) fun j path' value' hj hputs => ?_
    exact hlater j path' value' hj ((applied_iff now document r).mpr hputs)
  case without =>
    have hsame : readReply content { r with
        response := kept (jsonReply now document r).skipped r.response } = .ok document := hread
    unfold reply
    rw [hsame]
    exact congrArg Except.ok (jsonReply_kept now document)

end

/-- A route of constants.  The second is in conflict with the first, and the last takes the place of
the object that holds the two before it. -/
def replacing : Route :=
  { Route.empty with
    id := "r".toList
    response :=
      [.between "constant:1".toList "a".toList,
        .between "constant:2".toList "a.b".toList,
        .between "constant:3".toList "c.d".toList,
        .between "constant:4".toList "e.f.g".toList,
        .between "constant:5".toList "e.f.h".toList,
        .between "constant:6".toList "e.f".toList] }

/-- In its reply the texts that are not replaced are found, and it is the same without the field in
conflict. -/
theorem reply_holds_applied_replacing :
    ∃ document t members, readReply "<r/>".toList replacing = .ok document
      ∧ reply newYear "<r/>".toList replacing .json = .ok t
      ∧ t.skipped.map Skipped.index = [1]
      ∧ t.text = "\x7b\"a\":\"1\",\"c\":\x7b\"d\":\"3\"\x7d,\"e\":\x7b\"f\":\"6\"\x7d\x7d".toList
      ∧ Json.read t.text = .ok (.object members)
      ∧ Json.lookup ["c".toList, "d".toList] (.object members) = some (.string "3".toList)
      ∧ reply newYear "<r/>".toList { replacing with
          response := kept t.skipped replacing.response } .json = .ok ⟨t.text, []⟩ := by
  have hread : readReply "<r/>".toList replacing = .ok (.bare "r".toList none) := by decide +kernel
  obtain ⟨t, members, hreply, hrun, htext, -, hreads, hfinds, hkept⟩ :=
    reply_holds_applied newYear "<r/>".toList replacing hread
  have hmembers : _ = members := congrArg Prod.fst hrun
  have hskipped : t.skipped.map Skipped.index = [1] :=
    (congrArg (List.map Skipped.index ∘ Prod.snd) hrun).symm.trans (by decide +kernel)
  refine ⟨_, t, members, hread, hreply, hskipped, ?_, hreads (by decide), ?_, hkept⟩
  · rw [htext, ← hmembers]
    decide +kernel
  · refine hfinds 2 "c.d".toList "3".toList ⟨_, rfl, rfl, rfl, by rw [hskipped]; decide⟩ ?_
    rintro j path value hj ⟨f, hf, htarget, -⟩
    have hdrop : (replacing.response.drop 3)[j - 3]? = some f := by
      rw [List.getElem?_drop, Nat.add_sub_cancel' hj]
      exact hf
    have hnone : ∀ g ∈ replacing.response.drop 3, ∀ p ∈ g.target,
        ¬ p.splitOn '.' <+: "c.d".toList.splitOn '.' := by decide
    exact hnone f (List.mem_of_getElem? hdrop) path htarget

/-! ## §4. The order of the fields. -/

/-- The targets of two fields lie apart. -/
def Independent (f g : FieldMapping) : Prop :=
  ∀ p ∈ f.target, ∀ q ∈ g.target, Apart (p.splitOn '.') (q.splitOn '.')

instance (f g : FieldMapping) : Decidable (Independent f g) :=
  inferInstanceAs (Decidable (∀ p ∈ f.target, ∀ q ∈ g.target, Apart _ _))

instance : Std.Symm Independent :=
  ⟨fun _ _ h q hq p hp => (h p hp q hq).symm⟩

section

variable (route : Text) (now : Calendar.Instant) (document : Element)

theorem applyInPlace_fst (members : Members) (f : FieldMapping) :
    (applyInPlace route now document members f).1
      = match replyValue now document f, f.target with
        | .ok (some value), some path => (putInPlace value (path.splitOn '.') members).1
        | _, _ => members := by
  unfold applyInPlace
  cases replyValue now document f with
  | error fault => rfl
  | ok value =>
      cases value with
      | none => cases f.target <;> rfl
      | some value => cases f.target <;> rfl

/-- **Two fields that lie apart can be carried over in any order**, whatever they meet. -/
theorem applyInPlace_comm {f g : FieldMapping} (h : Independent f g) (members : Members) :
    (applyInPlace route now document (applyInPlace route now document members f).1 g).1
      = (applyInPlace route now document (applyInPlace route now document members g).1 f).1 := by
  simp only [applyInPlace_fst]
  split
  next value path _ hpath =>
    split
    next other path' _ hpath' =>
      exact putInPlace_comm value other members (h path' hpath' path hpath).symm
    next => rfl
  next => rfl

theorem after_perm {fs gs : List FieldMapping} (hperm : fs.Perm gs)
    (hapart : gs.Pairwise Independent) (members : Members) :
    after (applyInPlace route now document) members fs
      = after (applyInPlace route now document) members gs := by
  refine (hperm.symm.foldl_eq' (fun f hf g hg next => ?_) members).symm
  by_cases hsame : f = g
  · rw [hsame]
  · exact applyInPlace_comm route now document (hapart.forall hf hg hsame) next

end

/-- **Fields that lie apart give the same reply in any order**: their texts, which of them have no
value and which of them fail do not depend on the others. -/
theorem reply_text_perm (now : Calendar.Instant) (content : Text) (r : Route)
    {fs : List FieldMapping} {document : Element} (hread : readReply content r = .ok document)
    (hapart : r.response.Pairwise Independent) (hperm : fs.Perm r.response) :
    ∃ t t', reply now content r .json = .ok t
      ∧ reply now content { r with response := fs } .json = .ok t' ∧ t'.text = t.text := by
  obtain ⟨depth, hlength⟩ := exists_noLonger r.response
  have hlength' : NoLonger (depth + 1) fs := fun f hf => hlength f (hperm.mem_iff.mp hf)
  have hsame : readReply content { r with response := fs } = .ok document := hread
  refine ⟨jsonReply now document r, jsonReply now document { r with response := fs }, ?_, ?_, ?_⟩
  · unfold reply
    rw [hread]
    rfl
  · unfold reply
    rw [hsame]
    rfl
  · -- fields that are carried over in place commute whatever object they meet
    show (Json.object (runFields r.id _ 0 [] fs).1).write
      = (Json.object (runFields r.id _ 0 [] r.response).1).write
    rw [← runFields_inPlace r.id now document 0 hlength' (plain_nil depth),
      ← runFields_inPlace r.id now document 0 hlength (plain_nil depth), runFields_fst, runFields_fst]
    exact congrArg (fun members => (Json.object members).write)
      (after_perm r.id now document hperm hapart [])

/-- A route whose targets share objects, with a field that has no value. -/
def sharing : Route :=
  { Route.empty with
    id := "r".toList
    response :=
      [.between "constant:1".toList "a.b.c".toList,
        .between "missing".toList "a.x".toList,
        .between "constant:2".toList "a.b.d".toList,
        .between "constant:3".toList "e".toList] }

/-- Its reply is the same when the fields are turned around. -/
theorem reply_text_perm_sharing :
    ∃ document t t', readReply "<r/>".toList sharing = .ok document
      ∧ sharing.response.Pairwise Independent
      ∧ sharing.response.reverse.Perm sharing.response
      ∧ reply newYear "<r/>".toList sharing .json = .ok t
      ∧ reply newYear "<r/>".toList { sharing with
          response := sharing.response.reverse } .json = .ok t' ∧ t'.text = t.text := by
  have hread : readReply "<r/>".toList sharing = .ok (.bare "r".toList none) := by decide +kernel
  have hapart : sharing.response.Pairwise Independent := by decide
  have hperm : sharing.response.reverse.Perm sharing.response := List.reverse_perm _
  obtain ⟨t, t', hreply, hreply', hsame⟩ :=
    reply_text_perm newYear "<r/>".toList sharing hread hapart hperm
  exact ⟨_, t, t', hread, hapart, hperm, hreply, hreply', hsame⟩

end Crosswalk.Engine
