/-
  Crosswalk.Proofs.Markup.Piece
  ──────────────────────────────────────
  **MARKUP PIECE BY PIECE.**

  A document is a list of pieces: text, character sections, comments,
  instructions and tags.  Each `Piece` has its markup and does one thing to
  the elements read so far (`Build.step`), so what a document is read as needs
  no characters at all:

    • `scan_piece`: the piece at the front of a markup is scanned as it is,
    • `step_text_append`: two texts side by side, which are scanned as one, do
      what each of them does in turn,
    • `readFrom_pieces`: reading the markup of legible pieces is the run of
      their steps, with the root at its end.
-/
import Crosswalk.Proofs.Markup.RoundTrip

namespace Crosswalk.Markup

/-! ## §1. Pieces and their markup. -/

/-- A text between two marks. -/
def enclose (front back : String) (t : Text) : Text :=
  front.toList ++ t ++ back.toList

/-- A piece of a document, before it is written. -/
inductive Piece
  /-- Text as it is meant, without references. -/
  | text (t : Text)
  /-- A character section. -/
  | cdata (t : Text)
  | comment (t : Text)
  | instruction (t : Text)
  /-- A start tag, its name as the markup has it. -/
  | start (label : Text) (attrs : List Attribute)
  /-- The tag of an element without content. -/
  | empty (label : Text) (attrs : List Attribute)
  | close (label : Text)

namespace Piece

/-- The markup of a piece. -/
def markup : Piece → Text
  | text t => escapeText t
  | cdata t => enclose "<![CDATA[" "]]>" t
  | comment t => enclose "<!--" "-->" t
  | instruction t => enclose "<?" "?>" t
  | start label attrs => enclose "<" ">" (tagBody label attrs)
  | empty label attrs => enclose "<" "/>" (tagBody label attrs)
  | close label => enclose "</" ">" label

/-- The piece ends where its markup ends: nothing in it is taken for that end, and its names are
read as names. -/
def Legible : Piece → Prop
  | text _ => True
  | cdata t => ¬ "]]>".toList <:+: t
  | comment t => '>' ∉ t
  | instruction t => '>' ∉ t
  | start label attrs => OpensTag label ∧ ∀ a ∈ attrs, IsKey a.name
  | empty label attrs => OpensTag label ∧ ∀ a ∈ attrs, IsKey a.name
  | close label => OpensTag label

/-- What the scanner makes of the piece. -/
def token : Piece → Token
  | text t => .text (escapeText t)
  | cdata t => .section t
  | comment _ => .aside
  | instruction _ => .aside
  | start label attrs => .start (tagBody label attrs)
  | empty label attrs => .empty (tagBody label attrs)
  | close label => .close label

end Piece

/-- The markup of pieces side by side. -/
def markups (ps : List Piece) : Text :=
  ps.flatMap Piece.markup

/-- What a piece does to the elements read so far; text without characters is not there at all. -/
def Build.step (b : Build) (p : Piece) : Except Cause Build :=
  if p.markup = [] then .ok b else b.take p.token

/-- What pieces do one after the other. -/
def Build.run (b : Build) (ps : List Piece) : Except Cause Build :=
  ps.foldlM Build.step b

theorem Build.run_cons (b : Build) (p : Piece) (ps : List Piece) :
    b.run (p :: ps) = b.step p >>= (Build.run · ps) :=
  List.foldlM_cons

theorem Build.run_singleton (b : Build) (p : Piece) : b.run [p] = b.step p := by
  rw [Build.run_cons]
  cases b.step p <;> rfl

theorem Build.run_append (b : Build) (ps qs : List Piece) :
    b.run (ps ++ qs) = b.run ps >>= (Build.run · qs) :=
  List.foldlM_append

/-! ## §2. Text runs. -/

theorem Build.take_escapeText (b : Build) (t : Text) :
    b.take (.text (escapeText t)) = b.addText t := by
  rw [Build.take, unescape_escapeText]

theorem Build.step_text (b : Build) (t : Text) :
    b.step (.text t) = if t = [] then .ok b else b.addText t := by
  unfold Build.step
  show (if escapeText t = [] then Except.ok b else b.take (.text (escapeText t))) = _
  by_cases ht : t = []
  · rw [if_pos ht, if_pos (escapeText_eq_nil.mpr ht)]
  · rw [if_neg ht, if_neg (fun h => ht (escapeText_eq_nil.mp h)), b.take_escapeText]

theorem Build.addText_append (b : Build) (s t : Text) :
    b.addText (s ++ t) = b.addText s >>= (Build.addText · t) := by
  obtain ⟨frames, root⟩ := b
  cases frames with
  | cons f fs =>
      show Except.ok _ = Except.ok _
      simp [Element.appendText]
  | nil =>
      -- beside the root both texts must be blank
      show (if Text.blank (s ++ t) then Except.ok _ else _)
        = (if Text.blank s then Except.ok _ else _) >>= (Build.addText · t)
      have hblank : Text.blank (s ++ t) = (Text.blank s && Text.blank t) := List.all_append
      rw [hblank]
      cases hs : Text.blank s with
      | false => rfl
      | true => rfl

/-- **Two texts side by side are read as one.** -/
theorem Build.step_text_append (b : Build) (s t : Text) :
    b.step (.text (s ++ t)) = b.step (.text s) >>= (Build.step · (.text t)) := by
  simp only [Build.step_text]
  by_cases hs : s = []
  · subst hs
    rfl
  by_cases ht : t = []
  · subst ht
    have hid : ∀ r : Except Cause Build, r = r >>= Except.ok := by
      intro r
      cases r <;> rfl
    rw [List.append_nil]
    exact hid _
  · have hst : s ++ t ≠ [] := by simp [hs]
    rw [if_neg hst, if_neg hs, Build.addText_append]
    simp only [if_neg ht]

/-! ## §3. Sections, comments and instructions end where they should. -/

/-- A cut at the first `>` passes over a text in which no `>` is an end. -/
theorem cutMarked_append {stop : Text → Bool} :
    ∀ (body : Text) {seen : Text}, (∀ x y, body = x ++ '>' :: y → stop (x.reverse ++ seen) = false) →
      ∀ s, cutMarked stop seen (body ++ s) = cutMarked stop (body.reverse ++ seen) s := by
  intro body
  induction body with
  | nil => intro seen _ s; rfl
  | cons c body ih =>
      intro seen h s
      have hc : ¬ (c = '>' ∧ stop seen = true) := by
        rintro ⟨rfl, hstop⟩
        rw [show seen = [].reverse ++ seen from rfl, h [] body rfl] at hstop
        exact absurd hstop (by decide)
      have hbody : ∀ x y, body = x ++ '>' :: y → stop (x.reverse ++ c :: seen) = false := by
        intro x y hxy
        have hcons := h (c :: x) y (by rw [hxy, List.cons_append])
        rwa [List.reverse_cons, List.append_assoc] at hcons
      rw [List.cons_append, cutMarked, if_neg hc, ih hbody s, List.reverse_cons, List.append_assoc]
      rfl

/-- The piece is cut at the `>` behind it when that is the first that ends it. -/
theorem cutMarked_eq (stop : Text → Bool) (body : Text)
    (h : ∀ x y, body = x ++ '>' :: y → stop x.reverse = false) (hstop : stop body.reverse = true)
    (s : Text) : cutMarked stop [] (body ++ '>' :: s) = some (body, s) := by
  rw [cutMarked_append body (by simpa using h), List.append_nil, cutMarked,
    if_pos ⟨rfl, hstop⟩, List.reverse_reverse]

theorem scanMarkup_comment {body inner rest : Text}
    (hcut : cutMarked endsComment [] ('!' :: '-' :: body) = some (inner, rest))
    (hinner : "!--".toList.isPrefixOf inner = true) :
    scanMarkup ('!' :: '-' :: body) = .token .aside rest := by
  unfold scanMarkup scanBang
  simp only [List.drop_succ_cons, List.drop_zero, hcut, hinner, if_true]

theorem scanMarkup_instruction {body inner rest : Text}
    (hcut : cutMarked endsInstruction [] ('?' :: body) = some (inner, rest))
    (hinner : 1 < inner.length) :
    scanMarkup ('?' :: body) = .token .aside rest := by
  unfold scanMarkup
  simp only [hcut, hinner, if_true]

theorem scanMarkup_section {body inner rest : Text}
    (hcut : cutMarked endsSection [] ('!' :: '[' :: body) = some (inner, rest))
    (hinner : "![CDATA[".toList.isPrefixOf inner = true) :
    scanMarkup ('!' :: '[' :: body)
      = .token (.section ((inner.drop 8).take (inner.length - 10))) rest := by
  unfold scanMarkup scanBang
  simp only [List.drop_succ_cons, List.drop_zero, hcut, hinner, if_true]

theorem scan_comment {t : Text} (ht : '>' ∉ t) (s : Text) :
    scan ((Piece.comment t).markup ++ s) = .token .aside s := by
  have hbody : (Piece.comment t).markup ++ s
      = '<' :: (("!--".toList ++ t ++ "--".toList) ++ '>' :: s) := by
    rw [Piece.markup, enclose]
    simp
  have hnone : '>' ∉ "!--".toList ++ t ++ "--".toList := by simp [ht]
  have hcut := cutMarked_eq endsComment ("!--".toList ++ t ++ "--".toList)
    (fun x y hxy => absurd (hxy ▸ by simp) hnone) (by simp [endsComment]) s
  rw [hbody, scan, if_pos rfl]
  exact scanMarkup_comment hcut (by simp [List.isPrefixOf])

theorem scan_instruction {t : Text} (ht : '>' ∉ t) (s : Text) :
    scan ((Piece.instruction t).markup ++ s) = .token .aside s := by
  have hbody : (Piece.instruction t).markup ++ s
      = '<' :: (('?' :: t ++ ['?']) ++ '>' :: s) := by
    rw [Piece.markup, enclose]
    simp
  have hnone : '>' ∉ '?' :: t ++ ['?'] := by simp [ht]
  have hcut := cutMarked_eq endsInstruction ('?' :: t ++ ['?'])
    (fun x y hxy => absurd (hxy ▸ by simp) hnone) (by simp [endsInstruction]) s
  rw [hbody, scan, if_pos rfl]
  exact scanMarkup_instruction hcut (by simp)

/-- In a section whose content holds no `]]>` no earlier `>` ends it. -/
theorem endsSection_eq_false {t : Text} (ht : ¬ "]]>".toList <:+: t) {x y : Text}
    (h : "![CDATA[".toList ++ t ++ "]]".toList = x ++ '>' :: y) : endsSection x.reverse = false := by
  -- the bracket stands in the content, since neither end of the section holds one
  have hfront : '>' ∉ "![CDATA[".toList := by decide
  have hback : '>' ∉ "]]".toList := by decide
  rw [List.append_assoc] at h
  obtain ⟨x₁, rfl, hcut⟩ := Text.cut_of_not_mem_left hfront h
  obtain ⟨y₁, rfl, rfl⟩ := Text.cut_of_not_mem_right hback hcut
  by_contra hends
  simp only [Bool.not_eq_false, endsSection, beq_iff_eq] at hends
  -- what stands right before it is then a part of the content as well
  rcases List.eq_nil_or_concat' x₁ with rfl | ⟨x₂, c, rfl⟩
  · simp at hends
  rcases List.eq_nil_or_concat' x₂ with rfl | ⟨x₃, d, rfl⟩
  · simp at hends
  · simp only [List.reverse_append, List.reverse_cons, List.reverse_nil, List.nil_append,
      List.cons_append, List.take_succ_cons, List.take_zero, List.cons.injEq, and_true] at hends
    obtain ⟨rfl, rfl⟩ := hends
    exact ht ⟨x₃, y₁, by simp⟩

theorem scan_cdata {t : Text} (ht : ¬ "]]>".toList <:+: t) (s : Text) :
    scan ((Piece.cdata t).markup ++ s) = .token (.section t) s := by
  have hbody : (Piece.cdata t).markup ++ s
      = '<' :: (("![CDATA[".toList ++ t ++ "]]".toList) ++ '>' :: s) := by
    rw [Piece.markup, enclose]
    simp
  have hcut := cutMarked_eq endsSection ("![CDATA[".toList ++ t ++ "]]".toList)
    (fun x y hxy => endsSection_eq_false ht hxy) (by simp [endsSection]) s
  rw [hbody, scan, if_pos rfl]
  refine (scanMarkup_section hcut (by simp [List.isPrefixOf])).trans ?_
  simp

/-! ## §4. The run of the pieces. -/

/-- The piece is no text. -/
def Piece.IsMark : Piece → Prop
  | .text _ => False
  | _ => True

theorem Piece.markup_eq_cons {p : Piece} (hp : p.IsMark) : ∃ s, p.markup = '<' :: s := by
  cases p with
  | text t => exact absurd hp (by simp [IsMark])
  | cdata t => exact ⟨_, rfl⟩
  | comment t => exact ⟨_, rfl⟩
  | instruction t => exact ⟨_, rfl⟩
  | start label attrs => exact ⟨_, rfl⟩
  | empty label attrs => exact ⟨_, rfl⟩
  | close label => exact ⟨_, rfl⟩

/-- A piece other than text is always there. -/
theorem Build.step_mark (b : Build) (p : Piece) (hp : p.IsMark) : b.step p = b.take p.token := by
  obtain ⟨s, hs⟩ := Piece.markup_eq_cons hp
  rw [Build.step, if_neg (by simp [hs])]

/-- **A legible piece other than text is scanned as it is**, whatever follows. -/
theorem scan_piece {p : Piece} (hp : p.IsMark) (h : p.Legible) (s : Text) :
    scan (p.markup ++ s) = .token p.token s := by
  cases p with
  | text t => exact absurd hp (by simp [Piece.IsMark])
  | cdata t => exact scan_cdata h s
  | comment t => exact scan_comment h s
  | instruction t => exact scan_instruction h s
  | start label attrs =>
      have hscan := scan_startTag h.1 h.2 s
      simpa [Piece.markup, enclose, Piece.token] using hscan
  | empty label attrs =>
      have hscan := scan_emptyTag h.1 h.2 s
      simpa [Piece.markup, enclose, Piece.token] using hscan
  | close label =>
      have hscan := scan_endTag h s
      simpa [Piece.markup, enclose, Piece.token] using hscan

/-- What reading comes to, without the places of faults. -/
def readCause (b : Build) (s : Text) : Except Cause Element :=
  (readFrom b s).mapError Prod.fst

theorem readCause_eq_ok {b : Build} {s : Text} {e : Element} :
    readCause b s = .ok e ↔ readFrom b s = .ok e := by
  unfold readCause
  cases readFrom b s <;> simp [Except.mapError]

theorem readCause_eq_error {b : Build} {s : Text} {c : Cause} :
    readCause b s = .error c ↔ ∃ place, readFrom b s = .error (c, place) := by
  unfold readCause
  cases readFrom b s <;> simp [Except.mapError, Prod.ext_iff]

theorem readCause_nil (b : Build) : readCause b [] = b.finish := by
  unfold readCause
  rw [readFrom_nil]
  cases b.finish <;> rfl

/-- One piece is scanned and taken, and reading goes on behind it. -/
theorem readCause_token {b : Build} {s rest : Text} {t : Token} (hs : scan s = .token t rest) :
    readCause b s = b.take t >>= (readCause · rest) := by
  unfold readCause
  cases ht : b.take t with
  | error c =>
      rw [readFrom_refused hs ht]
      rfl
  | ok b' =>
      rw [readFrom_token hs ht]
      rfl

/-- A text is read up to the markup behind it, or to the end. -/
theorem readCause_text (b : Build) (t : Text) {s : Text} (hs : s = [] ∨ ∃ s', s = '<' :: s') :
    readCause b (escapeText t ++ s) = b.step (.text t) >>= (readCause · s) := by
  rw [Build.step_text]
  by_cases ht : t = []
  · subst ht
    rfl
  · have hne : escapeText t ≠ [] := fun h => ht (escapeText_eq_nil.mp h)
    have hscan : scan (escapeText t ++ s) = .token (.text (escapeText t)) s := by
      rcases hs with rfl | ⟨s', rfl⟩
      · rw [List.append_nil]
        exact scan_text_end hne (not_mem_escapeText (.inl rfl) t)
      · exact scan_text hne (not_mem_escapeText (.inl rfl) t) s'
    rw [readCause_token hscan, if_neg ht, b.take_escapeText]

theorem markups_cons (p : Piece) (ps : List Piece) : markups (p :: ps) = p.markup ++ markups ps :=
  List.flatMap_cons

theorem markups_append (ps qs : List Piece) : markups (ps ++ qs) = markups ps ++ markups qs :=
  List.flatMap_append

/-- A legible piece other than text does its step. -/
theorem readCause_mark {p : Piece} (hp : p.IsMark) (h : p.Legible) (b : Build) (s : Text) :
    readCause b (p.markup ++ s) = b.step p >>= (readCause · s) := by
  rw [readCause_token (scan_piece hp h s), b.step_mark p hp]

/-- Reading pieces behind a text that is not read yet. -/
theorem readCause_pending : ∀ (ps : List Piece) (b : Build) (t : Text), (∀ p ∈ ps, p.Legible) →
    readCause b (escapeText t ++ markups ps) = b.step (.text t) >>= (Build.run · ps) >>= Build.finish
  | [], b, t, _ => by
      have htext := readCause_text b t (.inl rfl)
      show readCause b (escapeText t ++ []) = _
      rw [htext]
      cases b.step (.text t) with
      | error c => rfl
      | ok b' => exact readCause_nil b'
  | p :: ps, b, t, h => by
      have hp := h p List.mem_cons_self
      have hps : ∀ q ∈ ps, q.Legible := fun q hq => h q (List.mem_cons_of_mem p hq)
      by_cases hmark : p.IsMark
      · -- the pending text ends at the bracket of the piece
        obtain ⟨s, hs⟩ := Piece.markup_eq_cons hmark
        rw [markups_cons, readCause_text b t (.inr ⟨s ++ markups ps, by rw [hs]; rfl⟩)]
        cases b.step (.text t) with
        | error c => rfl
        | ok b' =>
            show readCause b' (p.markup ++ markups ps) = b'.run (p :: ps) >>= Build.finish
            rw [readCause_mark hmark hp, Build.run_cons]
            cases b'.step p with
            | error c => rfl
            | ok b'' => exact readCause_pending ps b'' [] hps
      · -- a text joins the pending one
        cases p with
        | text u =>
            have hjoin : escapeText t ++ markups (.text u :: ps)
                = escapeText (t ++ u) ++ markups ps := by
              rw [markups_cons, escapeText_append, List.append_assoc]
              rfl
            rw [hjoin, readCause_pending ps b (t ++ u) hps, Build.step_text_append]
            cases b.step (.text t) with
            | error c => rfl
            | ok b' =>
                show b'.step (.text u) >>= (Build.run · ps) >>= Build.finish
                  = b'.run (.text u :: ps) >>= Build.finish
                rw [Build.run_cons]
        | cdata u => exact absurd trivial hmark
        | comment u => exact absurd trivial hmark
        | instruction u => exact absurd trivial hmark
        | start label attrs => exact absurd trivial hmark
        | empty label attrs => exact absurd trivial hmark
        | close label => exact absurd trivial hmark

/-- **READING THE MARKUP OF PIECES IS THE RUN OF THEIR STEPS**, and what the elements read so far
come to at its end. -/
theorem readFrom_pieces {ps : List Piece} (h : ∀ p ∈ ps, p.Legible) (b : Build) :
    readCause b (markups ps) = b.run ps >>= Build.finish := by
  have hpending := readCause_pending ps b [] h
  rwa [Build.step_text, if_pos rfl] at hpending

end Crosswalk.Markup
