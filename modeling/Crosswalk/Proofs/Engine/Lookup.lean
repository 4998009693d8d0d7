/-
  Crosswalk.Proofs.Engine.Lookup
  ──────────────────────────────────────
  **WHAT A ROUTE SEES OF A MESSAGE.**

  A route reads the fields that its mappings name: their sources, and the
  references into the message among the arguments of their expressions.  These
  are its lookups, known without any message.  Two messages that agree on them
  are the same to the route, so nothing else in a message can show in what it
  becomes, in the values, in the mappings that are skipped, or in their errors.

    • `Expression.lookups`, `FieldMapping.lookups`, `lookups`: the fields that
      are read,
    • `evaluate_congr`: an expression sees its lookups alone,
    • `requestValue_congr`, `target_congr`: so does a mapping, and all of them,
    • `request_congr`: so does a request.
-/
import Crosswalk.Proofs.Engine.Request
import Crosswalk.Proofs.Json.RoundTrip

/-! ## §1. The lookups of an expression. -/

namespace Crosswalk.Transform

/-- The field of the message that an argument refers to, if it refers to one. -/
def fieldOf? (arg : Text) : Option Text :=
  if Path.sourceMark.isPrefixOf (Text.trim arg) then some (Text.trim arg) else none

/-- The fields that an argument of a concatenation refers to: itself, or the source of a nested
call. -/
def argumentLookups (arg : Text) : List Text :=
  (fieldOf? arg).toList ++
    match Expression.read arg with
    | .substring source _ => (fieldOf? source).toList
    | _ => []

/-- The fields that an expression refers to. -/
def Expression.lookups : Expression → List Text
  | .concat args => args.flatMap argumentLookups
  | .substring source _ => (fieldOf? source).toList
  | _ => []

/-- The messages have the same text at each of the paths. -/
def Agree (m m' : Message) (paths : List Text) : Prop :=
  ∀ p ∈ paths, Path.field? m p = Path.field? m' p

variable {m m' : Message}

theorem Agree.left {ps qs : List Text} (h : Agree m m' (ps ++ qs)) : Agree m m' ps :=
  fun p hp => h p (List.mem_append_left qs hp)

theorem Agree.right {ps qs : List Text} (h : Agree m m' (ps ++ qs)) : Agree m m' qs :=
  fun p hp => h p (List.mem_append_right ps hp)

section

variable (now : Calendar.Instant) (value : Option Text)

/-- A reference sees the message at its own path alone. -/
theorem resolve?_congr {arg : Text} (h : Agree m m' (fieldOf? arg).toList) :
    Setting.resolve? ⟨now, value, some m⟩ arg = Setting.resolve? ⟨now, value, some m'⟩ arg := by
  unfold Setting.resolve?
  by_cases hmark : Path.sourceMark.isPrefixOf (Text.trim arg) = true
  · have hfield : Path.field? m (Text.trim arg) = Path.field? m' (Text.trim arg) := by
      apply h
      rw [fieldOf?, if_pos hmark]
      exact List.mem_singleton_self _
    simp only [if_pos hmark, Option.bind_some, hfield]
  · simp only [if_neg hmark]

theorem ending?_congr {source : Text} (index : Int) (h : Agree m m' (fieldOf? source).toList) :
    Setting.ending? ⟨now, value, some m⟩ source index
      = Setting.ending? ⟨now, value, some m'⟩ source index := by
  unfold Setting.ending?
  rw [resolve?_congr now value h]

/-- An argument of a concatenation sees the fields it refers to alone. -/
theorem argument_congr {arg : Text} (h : Agree m m' (argumentLookups arg)) :
    Setting.argument ⟨now, value, some m⟩ arg = Setting.argument ⟨now, value, some m'⟩ arg := by
  have hself := resolve?_congr now value h.left
  have hnested := h.right
  unfold Setting.argument
  cases unquote? arg with
  | some literal => rfl
  | none =>
      by_cases hnow : arg = "now()".toList
      · simp only [if_pos hnow]
      · simp only [if_neg hnow]
        -- only a nested call for the end of a text, and a plain reference, look at the message
        cases hread : Expression.read arg with
        | substring source index =>
            rw [hread] at hnested
            simp only [ending?_congr now value index hnested]
        | malformed f => cases f <;> simp only [hself]
        | formatDateTime source pattern => rfl
        | concat args => simp only [hself]
        | subtractDays source days => simp only [hself]
        | responseCode => simp only [hself]
        | sessionId => simp only [hself]
        | passthrough => simp only [hself]

theorem arguments_congr : ∀ {args : List Text}, Agree m m' (args.flatMap argumentLookups) →
    Setting.arguments ⟨now, value, some m⟩ args = Setting.arguments ⟨now, value, some m'⟩ args
  | [], _ => rfl
  | arg :: args, h => by
      rw [List.flatMap_cons] at h
      rw [Setting.arguments, Setting.arguments, argument_congr now value h.left,
        arguments_congr h.right]

/-- **An expression sees its lookups alone.** -/
theorem evaluate_congr {e : Expression} (h : Agree m m' e.lookups) :
    Setting.evaluate ⟨now, value, some m⟩ e = Setting.evaluate ⟨now, value, some m'⟩ e := by
  cases e with
  | concat args => exact congrArg (Except.map some) (arguments_congr now value h)
  | substring source index => exact congrArg Except.ok (ending?_congr now value index h)
  | malformed f => cases f <;> rfl
  | formatDateTime source pattern => rfl
  | subtractDays source days => rfl
  | responseCode => rfl
  | sessionId => rfl
  | passthrough => rfl

end

end Crosswalk.Transform

namespace Crosswalk.Engine

open Route (FieldMapping)
open Transform (Agree)

/-! ## §2. The lookups of a route. -/

/-- The fields that a mapping reads: its source, and those that its expression refers to. -/
def fieldLookups (f : FieldMapping) : List Text :=
  f.source.toList ++ (f.expression?.toList.flatMap fun text => (Transform.Expression.read text).lookups)

/-- The fields that a route reads of a message. -/
def lookups (r : Route) : List Text :=
  r.request.flatMap fieldLookups

section

variable {m m' : Message} (now : Calendar.Instant)

/-- **A mapping sees its lookups alone.** -/
theorem requestValue_congr {f : FieldMapping} (h : Agree m m' (fieldLookups f)) :
    requestValue now m f = requestValue now m' f := by
  have hsource : f.source.bind (Path.field? m) = f.source.bind (Path.field? m') := by
    have hleft := h.left
    cases hf : f.source with
    | none => rfl
    | some path =>
        rw [hf] at hleft
        exact hleft path (List.mem_singleton_self path)
  have hright := h.right
  unfold requestValue
  rw [hsource]
  cases he : f.expression? with
  | none => rfl
  | some text =>
      rw [he, Option.toList_some, List.flatMap_singleton] at hright
      exact Transform.evaluate_congr now _ hright

/-- Fields that are applied alike come to the same. -/
theorem runFields_congr {α : Type} {route : Text}
    {apply apply' : α → FieldMapping → α × Option FieldError} :
    ∀ {fs : List FieldMapping}, (∀ f ∈ fs, ∀ a, apply a f = apply' a f) → ∀ (index : Nat) (a : α),
      runFields route apply index a fs = runFields route apply' index a fs
  | [], _, _, _ => rfl
  | f :: fs, h, index, a => by
      have hrest : ∀ g ∈ fs, ∀ a, apply a g = apply' a g := fun g hg =>
        h g (List.mem_cons_of_mem f hg)
      rw [runFields, runFields, h f List.mem_cons_self]
      simp only [runFields_congr hrest]

/-- **The document of a route and its skipped mappings depend on the lookups alone.** -/
theorem target_congr {r : Route} (h : Agree m m' (lookups r)) :
    target now m r = target now m' r := by
  refine runFields_congr ?_ 0 (emptyTarget r)
  intro f hf root
  have hfield : Agree m m' (fieldLookups f) := fun p hp =>
    h p (List.mem_flatMap_of_mem hf hp)
  unfold applyRequest
  rw [requestValue_congr now hfield]

/-! ## §3. Requests. -/

/-- **WHAT A ROUTE DOES NOT MENTION DOES NOT SHOW.**  For every route and every instant, two texts
that are messages of its inbound format and have the same fields at all its lookups are translated
alike: the same text, with the same mappings skipped for the same reasons. -/
theorem request_congr {r : Route} {content content' : Text}
    (hread : readInbound content r = .ok m) (hread' : readInbound content' r = .ok m')
    (hsame : ∀ p ∈ lookups r, Path.field? m p = Path.field? m' p) :
    request now content r = request now content' r := by
  rw [request_of_ok hread now, request_of_ok hread' now, target_congr now hsame]

end

/-- A route that reads one field through a nested call, and another one as it is. -/
def reading : Route :=
  { Route.empty with
    id := "r".toList
    inbound := some .json
    request := [⟨some "a".toList, some "A".toList,
      some "concat(value, substring(source.b, -2))".toList, none⟩] }

/-- A message with the two fields that it reads. -/
def readFields : List (Text × Json) :=
  [("a".toList, .string "1".toList), ("b".toList, .string "xyz".toList)]

/-- A written object of texts is read by that route. -/
theorem readInbound_reading (fields : List (Text × Text)) :
    readInbound (Json.object (Json.textMembers fields)).write reading
      = .ok (.json (.object (Json.textMembers fields))) := by
  show ((Message.readJson _).map _).mapError _ = _
  unfold Message.readJson
  rw [Json.read_textMembers]
  rfl

/-- A third field changes nothing. -/
theorem request_congr_unmentioned :
    lookups reading = ["a".toList, "source.b".toList]
      ∧ readInbound "\x7b\"a\":\"1\",\"b\":\"xyz\"\x7d".toList reading
        = .ok (.json (.object readFields))
      ∧ readInbound "\x7b\"a\":\"1\",\"b\":\"xyz\",\"c\":\"secret\"\x7d".toList reading
        = .ok (.json (.object (readFields ++ [("c".toList, .string "secret".toList)])))
      ∧ request newYear "\x7b\"a\":\"1\",\"b\":\"xyz\"\x7d".toList reading
        = request newYear "\x7b\"a\":\"1\",\"b\":\"xyz\",\"c\":\"secret\"\x7d".toList reading := by
  have hlookups : lookups reading = ["a".toList, "source.b".toList] := by decide
  have hread : readInbound "\x7b\"a\":\"1\",\"b\":\"xyz\"\x7d".toList reading
      = .ok (.json (.object readFields)) :=
    readInbound_reading [("a".toList, "1".toList), ("b".toList, "xyz".toList)]
  have hread' : readInbound "\x7b\"a\":\"1\",\"b\":\"xyz\",\"c\":\"secret\"\x7d".toList reading
      = .ok (.json (.object (readFields ++ [("c".toList, .string "secret".toList)]))) :=
    readInbound_reading [("a".toList, "1".toList), ("b".toList, "xyz".toList),
      ("c".toList, "secret".toList)]
  have hsame : ∀ p ∈ lookups reading, Path.field? (.json (.object readFields)) p
      = Path.field? (.json (.object (readFields ++ [("c".toList, .string "secret".toList)]))) p := by
    rw [hlookups]
    decide
  exact ⟨hlookups, hread, hread', request_congr newYear hread hread' hsame⟩

end Crosswalk.Engine
