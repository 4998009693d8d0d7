/-
  Crosswalk.Proofs.Message.Standalone
  ──────────────────────────────────────
  **A PAYLOAD AS A DOCUMENT OF ITS OWN.**

  The payload of an envelope is taken out of it and written alone.  Its
  elements take their namespaces with them, wherever these were declared.  A
  prefix that is bound on the envelope or on the body, and that only attributes
  of the payload use, is declared nowhere in what is written.

    • `payload_declared_iff`: at every element exactly the prefixes that the
      payload brings are declared, with the URI that they have in the envelope,
    • `payload_declared_iff_leaving`: a payload with an attribute whose prefix
      is left behind.
-/
import Crosswalk.Proofs.Markup.Subtree
import Crosswalk.Proofs.Message.Envelope

namespace Crosswalk.Message

open Markup (Element Brings boundBy writtenScope scopeAt)

/-- The position of the payload: the first element in the first body. -/
def payloadPlace (root : Element) : List Nat :=
  [root.children.findIdx (Element.matchesLocal "Body".toList), 0]

theorem get?_payloadPlace (root : Element) : root.get? (payloadPlace root) = payload? root := by
  unfold payload? Element.childLocal?
  rw [List.find?_eq_getElem?_findIdx]
  show (root.children[root.children.findIdx _]?).bind _ = _
  congr 1
  funext body
  rw [List.head?_eq_getElem?]
  exact Option.bind_fun_some _

/-- **WHAT A PAYLOAD DECLARES WHEN IT STANDS ALONE.**  In the tags of the text, at every element of
the payload, take a prefix that is bound to a URI there, on a tag of the payload or on one around it.
In the document of the payload that prefix is declared with that URI on the element or on one around
it exactly when a tag in the payload declares it, or an element on the way from the payload is named
with it; and then it is bound to that URI. -/
theorem payload_declared_iff {content : Text} {root e : Element}
    (hread : Markup.read content = .ok root) (henvelope : IsEnvelope e root) :
    ∃ tree, Markup.tagTree? content = some tree ∧ ∀ path c, e.get? path = some c →
      Markup.writeElement (scopeAt [] e path) c <:+: Markup.write e
        ∧ ∃ inner outer, tree.around? (payloadPlace root ++ path) = some (inner ++ outer)
          ∧ inner.length = path.length + 1
          ∧ ∀ p u, p ≠ [] → u ≠ [] → (boundBy (inner ++ outer)).uri p = u →
            (⟨p, u⟩ ∈ writtenScope (scopeAt [] e path) c ↔ Brings e path inner p)
              ∧ (Brings e path inner p → (writtenScope (scopeAt [] e path) c).uri p = u) := by
  have hplace : root.get? (payloadPlace root) = some e := by
    rw [get?_payloadPlace, henvelope.payload]
  obtain ⟨tree, htree, hkeeps⟩ := Markup.keeps_of_read hread hplace
  refine ⟨tree, htree, fun path c hc => ⟨?_, ?_⟩⟩
  · exact (Markup.writeElement_at path hc).trans (List.suffix_append _ _).isInfix
  · obtain ⟨inner, outer, haround, hlength, h⟩ := hkeeps path c hc
    exact ⟨inner, outer, haround, hlength, fun p u hp hu hbound => h.declared_iff hp hu hbound⟩

/-- An envelope that binds a prefix for an attribute of its payload. -/
def leaving : Text :=
  "<s:Envelope xmlns:s=\"urn:s\" xmlns:xsi=\"urn:xsi\">".toList
    ++ "<s:Body><P xsi:type=\"x\"/></s:Body></s:Envelope>".toList

/-- Its payload. -/
def left : Element :=
  { Element.bare "P".toList none with attrs := [⟨"xsi:type".toList, "x".toList⟩] }

/-- The envelope as a tree. -/
def leavingRoot : Element :=
  { Element.bare "Envelope".toList (some ⟨"s".toList, "urn:s".toList⟩) with
    decls := [⟨"xsi".toList, "urn:xsi".toList⟩]
    children := [{ Element.bare "Body".toList (some ⟨"s".toList, "urn:s".toList⟩) with
      children := [left] }] }

/-- The tags at the payload. -/
def leavingTags : List Text :=
  ["P xsi:type=\"x\"".toList, "s:Body".toList,
    "s:Envelope xmlns:s=\"urn:s\" xmlns:xsi=\"urn:xsi\"".toList]

/-- The prefix of the attribute is bound in the envelope, and not declared in what is written. -/
theorem payload_declared_iff_leaving :
    readSoap leaving = .ok left
      ∧ Markup.write left = Markup.declarationLine ++ "<P xsi:type=\"x\"/>".toList
      ∧ (Markup.tagTree? leaving).bind (·.around? [0, 0]) = some leavingTags
      ∧ (boundBy leavingTags).uri "xsi".toList = "urn:xsi".toList
      ∧ ⟨"xsi".toList, "urn:xsi".toList⟩ ∉ writtenScope [] left := by
  have hread : Markup.read leaving = .ok leavingRoot := by decide +kernel
  have henvelope : IsEnvelope left leavingRoot := ⟨rfl, by decide⟩
  have htags : (Markup.tagTree? leaving).bind (·.around? [0, 0]) = some leavingTags := by
    decide +kernel
  have hbound : (boundBy leavingTags).uri "xsi".toList = "urn:xsi".toList := by decide +kernel
  refine ⟨readSoap_of_isEnvelope hread henvelope, by decide +kernel, htags, hbound, ?_⟩
  obtain ⟨tree, htree, hall⟩ := payload_declared_iff hread henvelope
  obtain ⟨-, inner, outer, haround, hlength, hiff⟩ := hall [] left rfl
  rw [htree] at htags
  obtain ⟨tag, rfl⟩ := List.length_eq_one_iff.mp hlength
  have hcut : leavingTags = [tag] ++ outer := by
    have hplace : payloadPlace leavingRoot ++ [] = [0, 0] := by decide
    rw [hplace] at haround
    exact Option.some.inj (htags.symm.trans haround)
  obtain ⟨rfl, rfl⟩ := List.cons.inj hcut
  intro hmem
  have hbrings := (hiff "xsi".toList "urn:xsi".toList (by decide) (by decide) hbound).1.mp hmem
  rw [Markup.brings_nil] at hbrings
  exact absurd hbrings (by decide +kernel)

end Crosswalk.Message
