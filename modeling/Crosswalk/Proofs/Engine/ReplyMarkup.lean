/-
  Crosswalk.Proofs.Engine.ReplyMarkup
  ──────────────────────────────────────
  **THE TEXT OF A REPLY IN MARKUP, READ AGAIN.**

  The document of a reply is a root in no namespace with uniform elements
  below it (`replyDocument_eq`).  Names below the root are checked when they
  are made.  The name of the root is cut from the target of the first field,
  and nothing looks at it: `reply_read` says which names give a document.
-/
import Crosswalk.Engine.Reply
import Crosswalk.Proofs.Engine.Shape
import Crosswalk.Proofs.Engine.Skipped
import Crosswalk.Proofs.Markup.BareTag
import Crosswalk.Proofs.Markup.RootText
import Crosswalk.Proofs.Text.Steps

namespace Crosswalk.Engine

open Markup

variable {content : Text} {r : Route} {format : Format} {document : Element} {cs : List Element}
  {name : Text}

/-! ## §1. The document of a reply. -/

/-- The document of a reply after all its fields. -/
def replyDocument (now : Calendar.Instant) (document : Element) (r : Route) : Element :=
  (build r.id (replyValue now document) (.bare (replyRoot r) none) r.response).1

/-- A reply in a format other than JSON is the text of its document. -/
theorem reply_of_ok (now : Calendar.Instant) (hformat : format ≠ .json)
    (hdocument : readReply content r = .ok document) :
    ∃ t, reply now content r format = .ok t
      ∧ t.text = Markup.write (replyDocument now document r) := by
  refine ⟨markupReply now document r, ?_, rfl⟩
  unfold reply
  rw [hdocument]
  cases format with
  | json => exact absurd rfl hformat
  | _ => rfl

/-- **The document of a reply is its root with uniform elements below.** -/
theorem replyDocument_eq (now : Calendar.Instant) (document : Element) (r : Route) :
    ∃ cs, AllUniform none cs ∧ replyDocument now document r
      = { Element.bare (replyRoot r) none with children := cs } := by
  unfold replyDocument build
  -- a field changes only what is below the root, whether it is written or refused
  refine runFields_invariant (P := fun root => ∃ cs, AllUniform none cs
    ∧ root = { Element.bare (replyRoot r) none with children := cs }) ?_ 0 ?_
  · rintro root f - ⟨cs, hcs, rfl⟩
    exact @setField_eq _ { Element.bare (replyRoot r) none with children := cs } rfl hcs
      f.target (replyValue now document f)
  · exact ⟨[], nofun, rfl⟩

/-- A root in no namespace is written with its name as it is. -/
theorem write_bare (hcs : AllUniform none cs) :
    Markup.write { Element.bare name none with children := cs } = documentOf name [] [] cs := by
  have hbound : Bound [] none := rfl
  unfold Markup.write documentOf
  exact congrArg (declarationLine ++ ·)
    (writeElement_eq_markupOf hbound name (fun c hc => writeElement_eq_markupIn hbound (hcs c hc))
      none)

/-! ## §2. The name of the root. -/

theorem isBlank_of_isSpace {c : Char} (h : isSpace c = true) : Text.isBlank c = true := by
  unfold isSpace at h
  simp only [Bool.or_eq_true, beq_iff_eq] at h
  rcases h with ((rfl | rfl) | rfl) | rfl <;> decide

theorem replyRoot_ne_nil (r : Route) : replyRoot r ≠ [] := by
  have hsome : ∀ segment : Option Text,
      (segment.filter (fun name => !name.isEmpty)).getD standardReplyRoot ≠ [] := by
    intro segment
    cases hfilter : segment.filter (fun name => !name.isEmpty) with
    | none => exact List.cons_ne_nil _ _
    | some name => simpa using (Option.mem_filter_iff.mp hfilter).2
  exact hsome _

/-- The name of the root is trimmed. -/
theorem getLast?_replyRoot (r : Route) : ∀ c ∈ (replyRoot r).getLast?, isSpace c = false := by
  intro c hc
  by_contra hspace
  rw [Bool.not_eq_false] at hspace
  have hblank := isBlank_of_isSpace hspace
  unfold replyRoot at hc
  cases hsegment : ((r.response.head?.bind Route.FieldMapping.target).bind
      (Text.after? Path.sourceMark)) with
  | none =>
      -- the name that stands for a missing one ends in a letter
      rw [hsegment] at hc
      obtain rfl : 'e' = c := Option.some.inj hc
      exact absurd hblank (by decide)
  | some rest =>
      rw [hsegment] at hc
      by_cases hnil : Text.trim (rest.takeWhile (· != '.')) = []
      · simp only [Option.map_some, Option.filter_some, hnil] at hc
        obtain rfl : 'e' = c := Option.some.inj hc
        exact absurd hblank (by decide)
      · have hkeep : (!(Text.trim (rest.takeWhile (· != '.'))).isEmpty) = true := by
          simpa using hnil
        simp only [Option.map_some, Option.filter_some, if_pos hkeep, Option.getD_some] at hc
        rw [Text.not_isBlank_of_getLast?_trim hc] at hblank
        exact absurd hblank (by decide)

/-! ## §3. When a reply is a document. -/

/-- **WHEN A REPLY IN MARKUP IS A DOCUMENT.**  For every route, every instant, every document that
is read as the reply and every format other than JSON: the reply succeeds; when the name of its root
is that of an element, its text is read as a tree with this root and the names and texts of the
document of the reply; and when the name of the root merely stays in its tag, its text is read
exactly when that name holds neither white space nor a prefix.  Validation does not look at it.

Whatever the name is, a tag without children is read as it stands, and children have to be enclosed
or swallowed by the name in the tags around them.  A name that makes whole pieces with the brackets
of its tag swallows nothing.  A name without a closing bracket swallows its children when all of the
text is the tag of one empty element, and it encloses them when it is that of a start tag, with
neither white space nor a prefix. -/
theorem reply_read (now : Calendar.Instant) (content : Text) (r : Route) (format : Format)
    (hformat : format ≠ .json) {document : Element}
    (hdocument : readReply content r = .ok document) :
    ∃ t, reply now content r format = .ok t
      ∧ (isName (replyRoot r) = true → ∃ e, Markup.read t.text = .ok e
          ∧ e.name = replyRoot r ∧ e.ns = none
          ∧ outline e = outline (replyDocument now document r))
      ∧ (StaysInTag (replyRoot r) → ((∃ e, Markup.read t.text = .ok e)
          ↔ (∀ c ∈ replyRoot r, isSpace c = false) ∧ (splitQualified (replyRoot r)).1 = []))
      ∧ ((∃ e, Markup.read t.text = .ok e)
          ↔ (replyDocument now document r).children = []
              ∧ Completes .initial ('<' :: (replyRoot r ++ ['/', '>']))
            ∨ (replyDocument now document r).children ≠ [] ∧ (Encloses (replyRoot r)
              ∨ Swallows (replyRoot r) (replyDocument now document r).children))
      ∧ (IsCut ('<' :: (replyRoot r ++ ['>'])) → (replyDocument now document r).children ≠ [] →
          ((∃ e, Markup.read t.text = .ok e) ↔ Encloses (replyRoot r)))
      ∧ ('>' ∉ replyRoot r → ((∃ e, Markup.read t.text = .ok e)
          ↔ IsOneTag (writeElement [] (replyDocument now document r))
            ∨ (replyDocument now document r).children ≠ [] ∧ IsBody (replyRoot r)
              ∧ (∀ c ∈ replyRoot r, isSpace c = false)
              ∧ (splitQualified (replyRoot r)).1 = [])) := by
  obtain ⟨t, ht, htext⟩ := reply_of_ok now hformat hdocument
  obtain ⟨cs, hcs, hroot⟩ := replyDocument_eq now document r
  have hmarkup : writeElement [] { Element.bare (replyRoot r) none with children := cs }
      = rootMarkup (replyRoot r) cs := List.append_cancel_left (write_bare hcs)
  rw [hroot, write_bare hcs] at htext
  refine ⟨t, ht, fun hname => ?_, fun hstays => ⟨?_, ?_⟩, ?_, fun hcut hne => ?_,
    fun hbracket => ?_⟩
  · have htag : IsTagName (replyRoot r) := isTagName_of_isName hname
    have hsplit : splitQualified (replyRoot r) = ([], replyRoot r) :=
      @splitQualified_qualify [] (replyRoot r) (by simp) fun _ => colon_not_mem_of_isName hname
    obtain ⟨e, hread, hens, hout⟩ := read_bareTag htag.opensTag.staysInTag
      (fun c hc => not_isSpace_of_isTagChar (htag.2 c hc)) hsplit hcs
    rw [htext, hroot, outline_eq]
    refine ⟨e, hread, ?_, hens, hout⟩
    rw [outline_eq] at hout
    exact congrArg Element.name hout
  · rintro ⟨e, he⟩
    by_contra hbad
    rw [htext] at he
    exact read_bareTag_ne_ok hstays (getLast?_replyRoot r) hbad e he
  · rintro ⟨hspace, hpre⟩
    have hsplit : splitQualified (replyRoot r) = ([], (splitQualified (replyRoot r)).2) := by
      rw [← hpre]
    obtain ⟨e, hread, -⟩ := read_bareTag hstays hspace hsplit hcs
    exact ⟨e, by rw [htext]; exact hread⟩
  · rw [htext, hroot]
    exact read_documentOf_iff (replyRoot r) hcs
  · rw [hroot] at hne
    rw [htext]
    exact read_documentOf_iff_of_isCut hcut hcs hne
  · rw [htext, hroot, hmarkup]
    exact read_documentOf_iff_of_not_mem hbracket (replyRoot_ne_nil r) (getLast?_replyRoot r) hcs

/-- A route with white space in the first segment of the target of its first reply field. -/
def spacing : Route :=
  { Route.empty with
    id := "r".toList
    response := [.between "constant:1".toList "source.Bad Name.A".toList] }

/-- It is validated, but its replies in markup are no documents. -/
theorem reply_read_spacing : spacing.validate = .ok ()
    ∧ ∃ document t, readReply "<D/>".toList spacing = .ok document
      ∧ reply newYear "<D/>".toList spacing .xml = .ok t
      ∧ ¬ ∃ e, Markup.read t.text = .ok e := by
  have hread : readReply "<D/>".toList spacing = .ok (.bare "D".toList none) := by decide +kernel
  have hroot : replyRoot spacing = "Bad Name".toList := rfl
  have hstays : StaysInTag (replyRoot spacing) :=
    ⟨by simp [hroot], by decide, by simp [hroot], by decide⟩
  obtain ⟨t, ht, -, hiff, -⟩ := reply_read newYear "<D/>".toList spacing .xml (by decide) hread
  refine ⟨by decide, _, t, hread, ht, fun hdocument => ?_⟩
  obtain ⟨hspace, -⟩ := (hiff hstays).mp hdocument
  exact absurd (hspace ' ' (by decide)) (by decide)

end Crosswalk.Engine
