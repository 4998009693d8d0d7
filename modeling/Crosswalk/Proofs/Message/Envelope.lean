/-
  Crosswalk.Proofs.Message.Envelope
  ──────────────────────────────────────
  **MESSAGES IN ENVELOPES.**

  An envelope around a message is a text before it that ends inside the body
  (`OpensBody`), and a text behind it.  Nothing is asked of the two but that
  together they are a document: their tags may have any prefixes, declarations
  and attributes, and anything but a body may stand before the body.

    • `HoldsPayload.take`: once an element has come first in the first body, it
      is the payload up to the end of the text,
    • `read_envelope`: the message in an envelope is read, with the outline
      that it has alone,
    • `Envelope.opensBody`, `Envelope.read_document`: the envelopes that are
      written out by their parts are such envelopes.
-/
import Crosswalk.Message.Basic
import Crosswalk.Proofs.Markup.Inside
import Crosswalk.Proofs.Markup.Source
import Crosswalk.Proofs.Path.LastWrite

namespace Crosswalk.Message

open Markup (Element Frame Build Token Reaches SameOpen dropMark outline)

/-! ## §1. Envelopes. -/

/-- The root is an envelope with this payload. -/
structure IsEnvelope (e root : Element) : Prop where
  name : root.name = "Envelope".toList
  payload : payload? root = some e

/-- The text opens an envelope and its body, and stops there: the body is the first one in the
envelope, and no element is in it yet. -/
structure OpensBody (before : Text) (env body : Frame) : Prop where
  reaches : Reaches .initial (dropMark before) ⟨[body, env], none⟩
  envelope : env.element.name = "Envelope".toList
  first : ∀ c ∈ env.element.children, c.name ≠ "Body".toList
  isBody : body.element.name = "Body".toList
  vacant : body.element.children = []

theorem matchesLocal_body (e : Element) :
    e.matchesLocal "Body".toList = true ↔ e.name = "Body".toList :=
  Path.matchesLocal_iff (by decide) e

/-- The payload is in the first body, whatever comes behind it. -/
theorem payload?_of_children {e root body : Element} {front behind : List Element}
    (hchildren : root.children = front ++ body :: behind)
    (hfront : ∀ c ∈ front, c.name ≠ "Body".toList) (hbody : body.name = "Body".toList)
    (he : body.children.head? = some e) : payload? root = some e := by
  have hnone : front.find? (Element.matchesLocal "Body".toList) = none := by
    rw [List.find?_eq_none]
    intro c hc hmatch
    exact hfront c hc ((matchesLocal_body c).mp hmatch)
  have hfind : root.childLocal? "Body".toList = some body := by
    unfold Element.childLocal?
    rw [hchildren, List.find?_append, hnone, Option.none_or,
      List.find?_cons_of_pos ((matchesLocal_body body).mpr hbody)]
  unfold payload?
  rw [hfind]
  exact he

/-- More children behind the body do not change the payload. -/
theorem IsEnvelope.of_prefix {e root root' : Element} (h : IsEnvelope e root)
    (hname : root'.name = root.name) (hchildren : root.children <+: root'.children) :
    IsEnvelope e root' := by
  refine ⟨hname.trans h.name, ?_⟩
  obtain ⟨more, hmore⟩ := hchildren
  have hpayload := h.payload
  unfold payload? Element.childLocal? at hpayload ⊢
  rw [← hmore, List.find?_append]
  obtain ⟨body, hfind, hhead⟩ := Option.bind_eq_some_iff.mp hpayload
  rw [hfind]
  exact hhead

/-! ## §2. The text behind the payload. -/

/-- The element came first in the first body of the envelope: the body is still open, or the
envelope is, or the envelope is the root. -/
inductive HoldsPayload (e : Element) : Build → Prop
  | inBody {above : List Frame} {body env : Frame}
      (envelope : env.element.name = "Envelope".toList)
      (first : ∀ c ∈ env.element.children, c.name ≠ "Body".toList)
      (isBody : body.element.name = "Body".toList)
      (payload : body.element.children.head? = some e) :
      HoldsPayload e ⟨above ++ [body, env], none⟩
  | inEnvelope {above : List Frame} {env : Frame} (envelope : IsEnvelope e env.element) :
      HoldsPayload e ⟨above ++ [env], none⟩
  | behind {frames : List Frame} {root : Element} (envelope : IsEnvelope e root) :
      HoldsPayload e ⟨frames, some root⟩

/-- **A piece keeps the payload.** -/
theorem HoldsPayload.take {e : Element} {b c : Build} {t : Token} (h : HoldsPayload e b)
    (ht : b.take t = .ok c) : HoldsPayload e c := by
  cases h with
  | @inBody above body env henv hfirst hbody hpayload =>
      rcases Markup.take_above ht with ⟨above', body', rfl, hmore⟩ | hclose
      · refine .inBody henv hfirst (hmore.name.trans hbody) ?_
        obtain ⟨more, hchildren⟩ := hmore.children
        rw [← hchildren, List.head?_append, hpayload]
        rfl
      · -- the end tag of the body: from now on it is a child of the envelope
        obtain rfl := Except.ok.inj hclose
        have hname : body.element.settled.name = "Body".toList := by
          rw [Markup.name_settled, hbody]
        have hhead : body.element.settled.children.head? = some e := by
          rw [Markup.children_settled, hpayload]
        exact @HoldsPayload.inEnvelope e [] _ ⟨henv, payload?_of_children rfl hfirst hname hhead⟩
  | @inEnvelope above env henv =>
      rcases Markup.take_above ht with ⟨above', env', rfl, hmore⟩ | hclose
      · exact .inEnvelope (henv.of_prefix hmore.name hmore.children)
      · obtain rfl := Except.ok.inj hclose
        refine .behind (henv.of_prefix (Markup.name_settled _) ?_)
        rw [Markup.children_settled]
  | @behind frames root henv =>
      obtain ⟨frames', root'⟩ := c
      obtain rfl : root' = some root := Markup.root_take rfl ht
      exact .behind henv

theorem HoldsPayload.of_root {e root : Element} {b : Build} (h : HoldsPayload e b)
    (hroot : b.root = some root) : IsEnvelope e root := by
  cases h with
  | inBody => exact absurd hroot (by simp)
  | inEnvelope => exact absurd hroot (by simp)
  | behind henv => exact Option.some.inj hroot ▸ henv

/-! ## §3. Reading an envelope. -/

/-- Only the mark at the front of the whole text is left out. -/
theorem dropMark_append {s : Text} (h : s ≠ []) (x : Text) :
    dropMark (s ++ x) = dropMark s ++ x := by
  obtain ⟨c, s, rfl⟩ := List.exists_cons_of_ne_nil h
  unfold dropMark Text.dropLead Text.after?
  have hmark : ∀ y : Text, [Char.ofNat 0xFEFF].isPrefixOf? (c :: y)
      = if Char.ofNat 0xFEFF == c then some y else none := fun _ => rfl
  rw [List.cons_append, hmark, hmark]
  split <;> rfl

theorem OpensBody.ne_nil {before : Text} {env body : Frame} (h : OpensBody before env body) :
    before ≠ [] := by
  rintro rfl
  have hnil : Build.initial = ⟨[body, env], none⟩ := Markup.reaches_nil.mp h.reaches
  exact absurd (congrArg Build.frames hnil) (by simp [Build.initial])

/-- The payload of an envelope is the message. -/
theorem readSoap_of_isEnvelope {content : Text} {e root : Element}
    (hread : Markup.read content = .ok root) (henvelope : IsEnvelope e root) :
    readSoap content = .ok e := by
  unfold readSoap readMarkup
  rw [hread]
  simp only [(Path.matchesLocal_iff (by decide) root).mpr henvelope.name, henvelope.payload]
  rfl

/-- **THE MESSAGE IN AN ENVELOPE IS READ**, with the outline that it has alone, when the envelope is
a document without it. -/
theorem read_envelope {before payload behind : Text} {env body : Frame} {e root : Element}
    (h : OpensBody before env body) (hpayload : Markup.read payload = .ok e)
    (henvelope : Markup.read (before ++ behind) = .ok root) :
    ∃ e', outline e' = outline e
      ∧ read .soap (before ++ payload ++ behind) = .ok (.markup e') := by
  obtain ⟨e', text, he', hinside⟩ := Markup.reaches_of_read hpayload body [env] none
  -- the envelope alone shows that what stands behind the payload is taken there
  have hbehind : Reaches ⟨[body, env], none⟩ behind ⟨[], some root⟩ := by
    have hroot := Markup.read_eq_ok.mp henvelope
    rw [dropMark_append h.ne_nil] at hroot
    exact (h.reaches.append_iff behind _).mp hroot
  -- what stands behind the payload is read as if the payload was not there
  have hsame : SameOpen ⟨[body, env], none⟩ ⟨[body.holding [e'] text, env], none⟩ :=
    ⟨.cons ⟨rfl, rfl⟩ (.cons ⟨rfl, rfl⟩ .nil), rfl⟩
  obtain ⟨c, hreach, hend⟩ := hbehind.simulate SameOpen.take hsame
  obtain ⟨frames, root'⟩ := c
  obtain rfl : frames = [] := by
    cases hend.frames
    rfl
  obtain ⟨root', rfl⟩ := Option.isSome_iff_exists.mp hend.root
  have hhead : (body.holding [e'] text).element.children.head? = some e' := by
    simp [Frame.holding, h.vacant]
  have hholds : HoldsPayload e' ⟨[body.holding [e'] text, env], none⟩ :=
    @HoldsPayload.inBody e' [] _ _ h.envelope h.first h.isBody hhead
  have hroot : IsEnvelope e' root' :=
    (hreach.invariant HoldsPayload.take hholds).of_root rfl
  have hread : Markup.read (before ++ payload ++ behind) = .ok root' := by
    rw [Markup.read_eq_ok, List.append_assoc, dropMark_append h.ne_nil]
    exact h.reaches.append (hinside.append hreach)
  refine ⟨e', he', ?_⟩
  unfold read
  rw [readSoap_of_isEnvelope hread hroot]
  rfl

/-! ## §4. Envelopes that are written out. -/

open Markup (Margin StartTag Item Document Piece AllBound elementsOf piecesOf markups)

/-- An envelope by its parts: what stands around it, its tag with any prefix and declarations, what
stands before and behind the body, and in the body before and behind the payload. -/
structure Envelope where
  margin : List Margin
  tag : StartTag
  header : List Item
  body : StartTag
  front : List Item
  rest : List Item
  trailer : List Item
  after : List Margin
  tag_name : tag.name = "Envelope".toList
  body_name : body.name = "Body".toList
  /-- The body is the first element of its name. -/
  header_names : ∀ e ∈ elementsOf [tag] header, e.name ≠ "Body".toList
  /-- The payload will be the first element in the body. -/
  front_empty : elementsOf [body, tag] front = []

namespace Envelope

variable (v : Envelope)

/-- The pieces before the payload, from the tag of the envelope on. -/
def opening : List Piece :=
  .start v.tag.label v.tag.attrs :: (piecesOf v.header
    ++ .start v.body.label v.body.attrs :: piecesOf v.front)

/-- The pieces behind the payload. -/
def closing : List Piece :=
  piecesOf v.rest ++ .close v.body.label :: (piecesOf v.trailer
    ++ .close v.tag.label :: v.after.map Margin.piece)

/-- The text before the payload. -/
def before : Text :=
  markups (v.margin.map Margin.piece ++ v.opening)

/-- The text behind the payload. -/
def behind : Text :=
  markups v.closing

/-- The envelope without a payload. -/
def document : Document :=
  ⟨v.margin, v.tag, some (v.header ++ .node v.body (v.front ++ v.rest) :: v.trailer), v.after⟩

theorem pieces_document :
    v.document.pieces = v.margin.map Margin.piece ++ v.opening ++ v.closing := by
  unfold Document.pieces Document.rootItem document opening closing
  simp only [Item.pieces, Markup.piecesOf_append, piecesOf, List.append_assoc, List.cons_append,
    List.nil_append]

/-- **Without a payload the envelope is read** when its prefixes are bound. -/
theorem read_document (h : v.document.Bound) :
    Markup.read (v.before ++ v.behind) = .ok v.document.tree := by
  have hmarkup : v.before ++ v.behind = v.document.markup := by
    unfold before behind Document.markup
    rw [← Markup.markups_append, pieces_document]
  rw [Markup.read_eq_ok, hmarkup, v.document.dropMark_markup]
  exact Markup.reaches_markups v.document.legible_pieces (v.document.outcome_pieces.1 h)

/-- The frame of the envelope, with what stands before the body. -/
def envelopeFrame : Frame :=
  (v.tag.frame [] []).fill [v.tag] v.header

/-- The frame of the body, with what stands before the payload. -/
def bodyFrame : Frame :=
  (v.body.frame [v.tag] v.envelopeFrame.scope).fill [v.body, v.tag] v.front

theorem run_opening (h : v.document.Bound) :
    Build.initial.run v.opening = .ok ⟨[v.bodyFrame, v.envelopeFrame], none⟩ := by
  obtain ⟨htag, hitems⟩ := h
  obtain ⟨hheader, ⟨hbody, hcontent⟩, -⟩ := Markup.allBound_append.mp hitems
  have hinside := Markup.follows_nil.inside v.tag
  -- the tag and what stands before the body, then the same for the body and the payload
  unfold opening
  rw [Build.run_cons, (Markup.outcome_start (b := .initial) Markup.follows_nil v.tag).1 htag]
  show Build.run ⟨[v.tag.frame [] []], none⟩ _ = _
  rw [Build.run_append, (Markup.outcome_items v.header [v.tag] _ [] none hinside).1 hheader]
  show Build.run ⟨[v.envelopeFrame], none⟩ _ = _
  rw [Build.run_cons, (Markup.outcome_start (b := ⟨[v.envelopeFrame], none⟩) hinside v.body).1 hbody]
  exact (Markup.outcome_items v.front [v.body, v.tag] _ [v.envelopeFrame] none
    (hinside.inside v.body)).1 (Markup.allBound_append.mp hcontent).1

/-- **Every envelope whose prefixes are bound opens its body.** -/
theorem opensBody (h : v.document.Bound) : OpensBody v.before v.envelopeFrame v.bodyFrame where
  reaches := by
    have hlegible : ∀ p ∈ v.margin.map Margin.piece ++ v.opening, p.Legible := by
      intro p hp
      apply v.document.legible_pieces
      rw [pieces_document]
      exact List.mem_append_left _ hp
    have hdrop : dropMark v.before = v.before := by
      unfold before
      rw [Markup.markups_append]
      exact Markup.dropMark_markups _ v.margin
    have hrun : Build.initial.run (v.margin.map Margin.piece ++ v.opening)
        = .ok ⟨[v.bodyFrame, v.envelopeFrame], none⟩ := by
      rw [Build.run_append, Markup.run_margins rfl]
      exact v.run_opening h
    rw [hdrop]
    exact Markup.reaches_markups hlegible hrun
  envelope := v.tag_name
  first := v.header_names
  isBody := v.body_name
  vacant := v.front_empty

end Envelope

end Crosswalk.Message
