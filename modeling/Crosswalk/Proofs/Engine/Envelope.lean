/-
  Crosswalk.Proofs.Engine.Envelope
  ──────────────────────────────────────
  **AN ENVELOPE CHANGES NO TRANSLATION.**

  A route looks at the outline of a message alone (`target_of_outline`): the
  namespaces of its elements, their declarations and attributes show in no
  field.  In an envelope a message keeps its outline, so a route makes of it
  what it makes of the message alone.

    • `request_envelope`: the same text, and the same mappings skipped.
-/
import Crosswalk.Proofs.Engine.Lookup
import Crosswalk.Proofs.Message.Envelope
import Crosswalk.Proofs.Path.Field

namespace Crosswalk.Engine

open Markup (Element Frame StartTag outline)
open Message (OpensBody Envelope)

/-- **A route sees the outline of a message alone.** -/
theorem target_of_outline {e e' : Element} (h : outline e' = outline e) (now : Calendar.Instant)
    (r : Route) : target now (.markup e') r = target now (.markup e) r := by
  apply target_congr
  intro path _
  calc Path.field? (.markup e') path
      = Path.field? (.markup (outline e')) path := (Path.field?_outline e' path).symm
    _ = Path.field? (.markup (outline e)) path := by rw [h]
    _ = Path.field? (.markup e) path := Path.field?_outline e path

theorem readInbound_of_read {content : Text} {m : Message} {format : Format} {r : Route}
    (h : Message.read format content = .ok m) :
    readInbound content { r with inbound := some format } = .ok m := by
  show (Message.read format content).mapError _ = _
  rw [h]
  rfl

/-- **AN ENVELOPE CHANGES NO TRANSLATION.**  For every route, every instant and every text that is
read as a document: put behind a text that opens an envelope and its body, and before one that
completes it, it is translated as a SOAP message exactly as it is translated alone as markup. -/
theorem request_envelope (now : Calendar.Instant) (r : Route) {before payload behind : Text}
    {env body : Frame} {e root : Element} (hopens : OpensBody before env body)
    (hpayload : Markup.read payload = .ok e) (henvelope : Markup.read (before ++ behind) = .ok root) :
    request now (before ++ payload ++ behind) { r with inbound := some .soap }
      = request now payload { r with inbound := some .xml } := by
  obtain ⟨e', houtline, hsoap⟩ := Message.read_envelope hopens hpayload henvelope
  have hxml : Message.read .xml payload = .ok (.markup e) := by
    unfold Message.read Message.readMarkup
    rw [hpayload]
    rfl
  have htarget : target now (.markup e') { r with inbound := some .soap }
      = target now (.markup e) { r with inbound := some .xml } :=
    target_of_outline houtline now r
  rw [request_of_ok (readInbound_of_read hsoap) now, request_of_ok (readInbound_of_read hxml) now,
    htarget]
  rfl

/-- A tag without attributes. -/
def plainTag (pre name : Text) (hpre : pre = [] ∨ Markup.isName pre = true)
    (hname : Markup.isName name = true) : StartTag :=
  ⟨pre, name, [], hpre, hname, nofun, List.nodup_nil⟩

/-- A tag that binds a prefix and the default namespace. -/
def bindingTag : StartTag where
  pre := "s".toList
  name := "Envelope".toList
  attrs := [⟨"xmlns:s".toList, "urn:s".toList⟩, ⟨"xmlns".toList, "urn:d".toList⟩]
  pre_valid := by decide
  name_valid := by decide
  attrs_valid := by
    intro a ha
    rcases List.mem_pair.mp ha with rfl | rfl
    · exact .inr ⟨"xmlns".toList, "s".toList, by decide, by decide, rfl⟩
    · exact .inl (by decide)
  attrs_nodup := by decide

/-- An envelope with a default namespace, a header with an element named like a body in it, and a
comment before the place of the payload. -/
def wrapping : Envelope where
  margin := []
  tag := bindingTag
  header := [.node (plainTag "s".toList "Header".toList (by decide) (by decide))
    [.leaf (plainTag [] "Body".toList (by decide) (by decide))]]
  body := plainTag "s".toList "Body".toList (by decide) (by decide)
  front := [.text " ".toList, .note (.comment "p".toList (by decide))]
  rest := [.leaf (plainTag [] "Q".toList (by decide) (by decide))]
  trailer := [.leaf (plainTag "s".toList "Body".toList (by decide) (by decide))]
  after := []
  tag_name := rfl
  body_name := rfl
  header_names := by decide
  front_empty := rfl

/-- A message whose elements are in no namespace when it is read alone. -/
def wrapped : Text := "<P><a>1</a><x:b xmlns:x=\"u\"> 2 </x:b></P>".toList

/-- The message alone. -/
def unwrapped : Element :=
  { Element.bare "P".toList none with
    children := [{ Element.bare "a".toList none with text := some "1".toList },
      { Element.bare "b".toList (some ⟨"x".toList, "u".toList⟩) with text := some " 2 ".toList }] }

/-- In the envelope the message is in another namespace, but it is translated alike. -/
theorem request_envelope_wrapping :
    wrapping.before = "<s:Envelope xmlns:s=\"urn:s\" xmlns=\"urn:d\">".toList
        ++ "<s:Header><Body/></s:Header><s:Body> <!--p-->".toList
      ∧ wrapping.behind = "<Q/></s:Body><s:Body/></s:Envelope>".toList
      ∧ Markup.read wrapped = .ok unwrapped
      ∧ (Message.readSoap (wrapping.before ++ wrapped ++ wrapping.behind)).map Element.ns
        = .ok (some ⟨[], "urn:d".toList⟩)
      ∧ (request newYear wrapped { reading with inbound := some .xml }).map Translated.text
        = .ok (Markup.declarationLine ++ "<Document><A>12</A></Document>".toList)
      ∧ request newYear (wrapping.before ++ wrapped ++ wrapping.behind)
          { reading with inbound := some .soap }
        = request newYear wrapped { reading with inbound := some .xml } := by
  have hbound : wrapping.document.Bound := by decide
  have hread : Markup.read wrapped = .ok unwrapped := by decide +kernel
  refine ⟨by decide, by decide, hread, ?_, ?_, ?_⟩
  · decide +kernel
  · decide +kernel
  · exact request_envelope newYear reading (wrapping.opensBody hbound) hread
      (wrapping.read_document hbound)

end Crosswalk.Engine
