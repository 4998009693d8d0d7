/-
  Crosswalk.Proofs.Engine.ReplyNotation
  ──────────────────────────────────────
  **FIELDS OF A REPLY WITH SLASHES AND WITH POINTS.**

  Slashes look for the exact name of a child before its local name, points
  for the local name alone, and only points skip a leading name of the root.
  In a reply without prefixes the first difference is none, and the second one
  shows only where slashes find nothing:

    • `child?_of_unprefixed`, `foldlM_child?`: the same children, all the way,
    • `slashField?_segments`, `dotField?_segments`: both notations of a path,
    • `belowRoot_of_child`, `belowRoot_of_head`: where no name is skipped,
    • `replyField?_notations`: the fields of a reply.
-/
import Mathlib.Data.List.Find
import Crosswalk.Engine.Reply
import Crosswalk.Proofs.Markup.Accepted
import Crosswalk.Proofs.Path.Field
import Crosswalk.Proofs.Path.LastWrite

namespace Crosswalk.Path

open Markup

/-! ## §1. Children without prefixes. -/

/-- No element of the tree has a prefix. -/
def Unprefixed (e : Element) : Prop :=
  Everywhere (fun e => e.pre = []) e

section

variable {e root : Element} {name first : Text} {names segments : List Text}

/-- Without prefixes the exact name of an element is its local name. -/
theorem matchesExact_eq_matchesLocal (hpre : e.pre = []) (hname : ':' ∉ name) :
    e.matchesExact name = e.matchesLocal name := by
  unfold Element.matchesExact Element.matchesLocal
  rw [if_neg hname, hpre, localPart_of_not_mem hname]
  rfl

/-- **Without prefixes both ways to look for a child find the same.** -/
theorem child?_of_unprefixed (h : Unprefixed e) (hname : ':' ∉ name) :
    e.child? name = e.childLocal? name := by
  have hsame : e.children.find? (Element.matchesExact name)
      = e.children.find? (Element.matchesLocal name) := by
    apply List.find?_congr
    intro c hc
    exact matchesExact_eq_matchesLocal (h.children c hc).here hname
  show (e.children.find? _).or (e.children.find? _) = e.children.find? _
  rw [hsame, Option.or_self]

/-- What is found has no prefixes either. -/
theorem Unprefixed.childLocal? {c : Element} (h : Unprefixed e) (hc : e.childLocal? name = some c) :
    Unprefixed c :=
  h.children c (List.mem_of_find?_eq_some hc)

/-- The same element lies along some names, however its children are looked for. -/
theorem foldlM_child? : ∀ (names : List Text) (e : Element), Unprefixed e →
    (∀ n ∈ names, ':' ∉ n) → names.foldlM Element.child? e = descend? e names := by
  intro names
  induction names with
  | nil => intro e _ _; rfl
  | cons name names ih =>
      intro e he hnames
      rw [List.foldlM_cons, descend?, child?_of_unprefixed he (hnames name List.mem_cons_self)]
      cases hc : e.childLocal? name with
      | none => rfl
      | some c => exact ih c (he.childLocal? hc) fun n hn => hnames n (List.mem_cons_of_mem name hn)

/-! ## §2. One path in both notations. -/

/-- A name that may stand between slashes and between points. -/
structure Segment (s : Text) : Prop where
  some : s ≠ []
  trimmed : Text.trim s = s
  slash : '/' ∉ s
  point : '.' ∉ s
  colon : ':' ∉ s

theorem segment_iff {s : Text} : Segment s
    ↔ s ≠ [] ∧ Text.trim s = s ∧ '/' ∉ s ∧ '.' ∉ s ∧ ':' ∉ s :=
  ⟨fun h => ⟨h.some, h.trimmed, h.slash, h.point, h.colon⟩,
    fun h => ⟨h.1, h.2.1, h.2.2.1, h.2.2.2.1, h.2.2.2.2⟩⟩

instance {s : Text} : Decidable (Segment s) :=
  decidable_of_iff _ segment_iff.symm

/-- Nothing that holds a colon stands before the path. -/
theorem after?_intercalate {mark : Text} {sep : Char} (hmark : ':' ∈ mark) (hsep : ':' ≠ sep)
    (hsegments : ∀ s ∈ segments, Segment s) :
    Text.after? mark ([sep].intercalate segments) = none := by
  apply Text.after?_eq_none
  intro hpre
  rcases Text.mem_intercalate (hpre.subset hmark) with h | ⟨s, hs, hcolon⟩
  · exact hsep h
  · exact (hsegments s hs).colon hcolon

theorem dropLead_intercalate {sep : Char} (hsep : ':' ≠ sep)
    (hsegments : ∀ s ∈ segments, Segment s) :
    Text.dropLead targetMark ([sep].intercalate segments) = [sep].intercalate segments := by
  unfold Text.dropLead
  rw [after?_intercalate (by decide) hsep hsegments]
  rfl

/-- **The field at a path with slashes.** -/
theorem slashField?_segments (hroot : Unprefixed root) (hne : segments ≠ [])
    (hsegments : ∀ s ∈ segments, Segment s) :
    slashField? root (['/'].intercalate segments)
      = (descend? root segments).map Element.trimmedText := by
  have hsteps : Text.steps '/' (['/'].intercalate segments) = segments :=
    Text.steps_intercalate_trimmed (fun s hs => (hsegments s hs).slash)
      (fun s hs => (hsegments s hs).trimmed) fun s hs => (hsegments s hs).some
  rw [slashField?_eq, dropLead_intercalate (by decide) hsegments, hsteps]
  cases segments with
  | nil => exact absurd rfl hne
  | cons s segments =>
      show ((s :: segments).foldlM Element.child? root).map Element.trimmedText = _
      rw [foldlM_child? _ root hroot fun s hs => (hsegments s hs).colon]

/-- **The field at a path with points.** -/
theorem dotField?_segments (hsegments : ∀ s ∈ segments, Segment s)
    (hbelow : belowRoot root segments = names) (hne : names ≠ []) :
    dotField? root (['.'].intercalate segments)
      = (descend? root names).map Element.trimmedText := by
  have hsteps : Text.steps '.' (['.'].intercalate segments) = segments :=
    Text.steps_intercalate_trimmed (fun s hs => (hsegments s hs).point)
      (fun s hs => (hsegments s hs).trimmed) fun s hs => (hsegments s hs).some
  unfold dotField?
  rw [hsteps, hbelow]
  cases names with
  | nil => exact absurd rfl hne
  | cons name names => rfl

/-- Nothing is skipped where a child has the first name. -/
theorem belowRoot_of_child (hchild : ∃ c, root.childLocal? first = some c) (names : List Text) :
    belowRoot root (first :: names) = first :: names := by
  obtain ⟨c, hc⟩ := hchild
  cases names with
  | nil => rfl
  | cons second rest => rw [belowRoot, hc, Option.isNone_some, Bool.and_false, if_neg (by decide)]

/-- Nothing is skipped where the first name is not that of the root. -/
theorem belowRoot_of_head (hcolon : ':' ∉ first) (hhead : first ≠ root.name) (names : List Text) :
    belowRoot root (first :: names) = first :: names := by
  have hlocal : root.matchesLocal first = false := by
    rw [Bool.eq_false_iff]
    intro h
    exact hhead ((matchesLocal_iff hcolon root).mp h).symm
  cases names with
  | nil => rfl
  | cons second rest => rw [belowRoot, hlocal, Bool.false_and, if_neg (by decide)]

end

end Crosswalk.Path

namespace Crosswalk.Engine

open Markup
open Crosswalk.Path (Segment Unprefixed slashField? dotField?)

variable {reply : Element} {segments : List Text}

/-! ## §3. Fields of a reply. -/

/-- A path with slashes is read with slashes. -/
theorem replyField?_slashes (hsegments : ∀ s ∈ segments, Segment s) :
    replyField? reply (['/'].intercalate segments)
      = slashField? reply (['/'].intercalate segments) := by
  have hslash : '/' ∈ ['/'].intercalate segments ∨ '.' ∉ ['/'].intercalate segments := by
    cases segments with
    | nil => exact .inr List.not_mem_nil
    | cons s rest =>
        cases rest with
        | nil =>
            rw [List.intercalate_singleton]
            exact .inr (hsegments s List.mem_cons_self).point
        | cons s' rest =>
            rw [List.intercalate_cons_cons]
            exact .inl (by simp)
  unfold replyField?
  rw [Path.after?_intercalate (by decide) (by decide) hsegments]
  dsimp only
  rw [Path.dropLead_intercalate (by decide) hsegments, if_pos hslash]

/-- A path with points is read with points, when no mark stands before it. -/
theorem replyField?_points {s s' : Text} {rest : List Text}
    (hsegments : ∀ x ∈ s :: s' :: rest, Segment x)
    (hmark : ¬ Path.sourceMark <+: ['.'].intercalate (s :: s' :: rest)) :
    replyField? reply (['.'].intercalate (s :: s' :: rest))
      = dotField? reply (['.'].intercalate (s :: s' :: rest)) := by
  have hpoint : ¬ ('/' ∈ ['.'].intercalate (s :: s' :: rest)
      ∨ '.' ∉ ['.'].intercalate (s :: s' :: rest)) := by
    rintro (h | h)
    · rcases Text.mem_intercalate h with h | ⟨x, hx, hslash⟩
      · exact absurd h (by decide)
      · exact (hsegments x hx).slash hslash
    · refine h ?_
      rw [List.intercalate_cons_cons]
      simp
  have hconstant : Text.after? Path.constantMark (['.'].intercalate (s :: s' :: rest)) = none :=
    Path.after?_intercalate (by decide) (by decide) hsegments
  unfold replyField?
  rw [hconstant]
  dsimp only
  rw [Path.dropLead_intercalate (by decide) hsegments, if_neg hpoint]
  unfold Path.field?
  rw [hconstant, Text.after?_eq_none hmark]

/-- **FIELDS OF A REPLY WITH SLASHES AND WITH POINTS.**  In a reply without prefixes, what is read
at names with slashes between them is read with points too, and nothing else is read with points
unless the first name is that of the root.  The reply reads each notation in its own way. -/
theorem replyField?_notations (hreply : Unprefixed reply) (hne : segments ≠ [])
    (hsegments : ∀ s ∈ segments, Segment s)
    (hmark : ¬ Path.sourceMark <+: ['.'].intercalate segments) :
    (∀ text, slashField? reply (['/'].intercalate segments) = some text →
        dotField? reply (['.'].intercalate segments) = some text)
      ∧ (segments.head? ≠ some reply.name →
        slashField? reply (['/'].intercalate segments)
          = dotField? reply (['.'].intercalate segments))
      ∧ replyField? reply (['/'].intercalate segments)
        = slashField? reply (['/'].intercalate segments)
      ∧ replyField? reply (['.'].intercalate segments)
        = dotField? reply (['.'].intercalate segments) := by
  have hslashes := Path.slashField?_segments hreply hne hsegments
  -- where no name is skipped, both notations go the same way
  have hsame : Path.belowRoot reply segments = segments →
      slashField? reply (['/'].intercalate segments)
        = dotField? reply (['.'].intercalate segments) := by
    intro hbelow
    rw [hslashes, Path.dotField?_segments hsegments hbelow hne]
  obtain ⟨first, names, rfl⟩ := List.exists_cons_of_ne_nil hne
  refine ⟨?_, ?_, replyField?_slashes hsegments, ?_⟩
  · intro text htext
    have hchild : ∃ c, reply.childLocal? first = some c := by
      rw [hslashes, Path.descend?] at htext
      cases hc : reply.childLocal? first with
      | none =>
          rw [hc] at htext
          cases htext
      | some c => exact ⟨c, rfl⟩
    rw [← hsame (Path.belowRoot_of_child hchild names)]
    exact htext
  · intro hhead
    exact hsame (Path.belowRoot_of_head (hsegments first List.mem_cons_self).colon
      (fun h => hhead (congrArg some h)) names)
  · cases names with
    | nil =>
        -- one name is the same path in both notations
        exact (replyField?_slashes hsegments).trans (hsame rfl)
    | cons second rest => exact replyField?_points hsegments hmark

/-- A reply in which a name stands twice, and the name of the root below it. -/
def twiceNamed : Element :=
  ⟨"R".toList, none, [], [],
    [⟨"A".toList, none, [], [], [⟨"R".toList, none, [], [], [], some " x  y ".toList⟩], none⟩,
      ⟨"A".toList, none, [], [], [⟨"B".toList, none, [], [], [], some "z".toList⟩], none⟩], none⟩

/-- The first of two children counts in both notations: a field below it is there, one below the
other child is not. -/
theorem replyField?_notations_twiceNamed :
    Unprefixed twiceNamed
      ∧ replyField? twiceNamed "A/R".toList = some "x y".toList
      ∧ replyField? twiceNamed "A.R".toList = some "x y".toList
      ∧ replyField? twiceNamed "A.B".toList = none := by
  have hplain : Unprefixed twiceNamed := by
    refine .intro rfl fun c hc => ?_
    have hleaf : ∀ {name : Text} {text : Option Text},
        Unprefixed ⟨name, none, [], [], [], text⟩ := .intro rfl nofun
    rcases List.mem_cons.mp hc with rfl | hc
    · exact .intro rfl fun d hd => by rw [List.mem_singleton.mp hd]; exact hleaf
    · rw [List.mem_singleton.mp hc]
      exact .intro rfl fun d hd => by rw [List.mem_singleton.mp hd]; exact hleaf
  have hfirst : ∀ s ∈ ["A".toList, "R".toList], Segment s := by decide
  have hsecond : ∀ s ∈ ["A".toList, "B".toList], Segment s := by decide
  have hthere := replyField?_notations hplain (by decide) hfirst (by decide)
  have hmissing := replyField?_notations hplain (by decide) hsecond (by decide)
  have hslash : slashField? twiceNamed "A/R".toList = some "x y".toList := by decide
  exact ⟨hplain, hthere.2.2.1.trans hslash, hthere.2.2.2.trans (hthere.1 _ hslash),
    hmissing.2.2.2.trans (hmissing.2.1 (by decide)).symm⟩

/-- Only points skip the name of the root. -/
example : dotField? twiceNamed "R.A.R".toList = some "x y".toList
    ∧ slashField? twiceNamed "R/A/R".toList = none := by
  decide

end Crosswalk.Engine
