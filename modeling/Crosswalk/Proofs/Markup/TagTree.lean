/-
  Crosswalk.Proofs.Markup.TagTree
  ──────────────────────────────────────
  **THE TAGS BEHIND A TREE.**

  A tree that was read keeps of a tag what it settles, but not the bindings
  that it was resolved in.  `tagTree?` collects the tags of a text and knows
  nothing of names, bindings or texts; a tree is then what the tags denote in
  the bindings around them (`Denotes`), so every element of the tree has its
  tag, and the tags around that, at its own position (`around?`).

    • `Mirrors`: the elements and the tags read so far; `Mirrors.take` keeps
      them in step,
    • `exists_tagTree`: the tags of a document denote the tree that is read.
-/
import Crosswalk.Proofs.Markup.Reach
import Crosswalk.Proofs.Markup.Reread

namespace Crosswalk.Markup

/-! ## §1. The tags of a text. -/

/-- The tag of an element without its angle brackets, and the tags of its children. -/
inductive TagTree
  | node (body : Text) (inner : List TagTree)

namespace TagTree

def body : TagTree → Text
  | node body _ => body

def inner : TagTree → List TagTree
  | node _ inner => inner

/-- The tag at a position and those around it, the innermost first. -/
def around? : TagTree → List Nat → Option (List Text)
  | t, [] => some [t.body]
  | t, i :: is => (t.inner[i]?).bind fun c => (c.around? is).map (· ++ [t.body])

end TagTree

/-- The tags read so far: those whose end tag is still to come, the innermost first, each with the
complete ones inside, and that of the root once it is complete. -/
structure TagStack where
  frames : List (Text × List TagTree)
  root : Option TagTree

namespace TagStack

/-- A complete tag joins the innermost open one, or it is that of the root. -/
def add (s : TagStack) (t : TagTree) : TagStack :=
  match s.frames with
  | [] => ⟨[], some t⟩
  | (body, inner) :: fs => ⟨(body, inner ++ [t]) :: fs, s.root⟩

/-- What one piece of markup does to the tags read so far. -/
def take (s : TagStack) : Token → TagStack
  | .start body => ⟨(body, []) :: s.frames, s.root⟩
  | .empty body => s.add (.node body [])
  | .close _ =>
    match s.frames with
    | [] => s
    | (body, inner) :: fs => TagStack.add ⟨fs, s.root⟩ (.node body inner)
  | .text _ => s
  | .section _ => s
  | .aside => s

end TagStack

/-- The tags of the rest of a text. -/
def tagsFrom (s : TagStack) (text : Text) : TagStack :=
  match h : scan text with
  | .done => s
  | .fault _ _ => s
  | .token t rest =>
    have := length_lt_of_scan h
    tagsFrom (s.take t) rest
termination_by text.length

/-- The tags of a document. -/
def tagTree? (content : Text) : Option TagTree :=
  (tagsFrom ⟨[], none⟩ (dropMark content)).root

theorem tagsFrom_nil (s : TagStack) : tagsFrom s [] = s := by
  rw [tagsFrom]
  rfl

theorem tagsFrom_token {s rest : Text} {t : Token} (hs : scan s = .token t rest)
    (tags : TagStack) : tagsFrom tags s = tagsFrom (tags.take t) rest := by
  rw [tagsFrom]
  split
  next h => rw [hs] at h; exact absurd h (by simp)
  next h => rw [hs] at h; exact absurd h (by simp)
  next t' rest' h =>
    rw [hs] at h
    obtain ⟨rfl, rfl⟩ := Scan.token.inj h
    rfl

/-! ## §2. What tags denote. -/

/-- The elements have the same tag: they may differ in their content. -/
structure SameTag (e e' : Element) : Prop where
  name : e'.name = e.name
  ns : e'.ns = e.ns
  decls : e'.decls = e.decls
  attrs : e'.attrs = e.attrs

theorem SameTag.settled {e e' : Element} (h : SameTag e e') : SameTag e e'.settled := by
  rw [settled_eq]
  exact ⟨h.name, h.ns, h.decls, h.attrs⟩

mutual

/-- The element is opened by the tag in the scope, and its children by the tags inside. -/
def Denotes (scope : Scope) : TagTree → Element → Prop
  | .node body inner, e =>
    ∃ f, openElement body scope = .ok f ∧ SameTag f.element e
      ∧ DenotesAll f.scope inner e.children

/-- The same for elements side by side. -/
def DenotesAll (scope : Scope) : List TagTree → List Element → Prop
  | [], [] => True
  | t :: ts, e :: es => Denotes scope t e ∧ DenotesAll scope ts es
  | [], _ :: _ => False
  | _ :: _, [] => False

end

section

variable {scope : Scope}

theorem DenotesAll.concat {t : TagTree} {e : Element} (h : Denotes scope t e) :
    ∀ {ts : List TagTree} {es : List Element}, DenotesAll scope ts es →
      DenotesAll scope (ts ++ [t]) (es ++ [e])
  | [], [], _ => ⟨h, trivial⟩
  | _ :: _, _ :: _, hall => ⟨hall.1, hall.2.concat h⟩
  | [], _ :: _, hall => absurd hall nofun
  | _ :: _, [], hall => absurd hall nofun

/-- Every child has its tag at its own position. -/
theorem DenotesAll.getElem? : ∀ {ts : List TagTree} {es : List Element}, DenotesAll scope ts es →
    ∀ {i : Nat} {e : Element}, es[i]? = some e → ∃ t, ts[i]? = some t ∧ Denotes scope t e
  | [], [], _, i, e, he => absurd he (by simp)
  | t :: _, _ :: _, hall, 0, e, he => by
      obtain rfl := Option.some.inj he
      exact ⟨t, rfl, hall.1⟩
  | _ :: _, _ :: _, hall, i + 1, e, he => hall.2.getElem? he
  | [], _ :: _, hall, _, _, _ => absurd hall nofun
  | _ :: _, [], hall, _, _, _ => absurd hall nofun

end

/-! ## §3. Elements and tags, piece by piece. -/

/-- The frame was opened by the tag in the scope, and holds what the tags inside denote. -/
def OpenedBy (scope : Scope) (f : Frame) (body : Text) (inner : List TagTree) : Prop :=
  ∃ opened, openElement body scope = .ok opened ∧ f.scope = opened.scope
    ∧ SameTag opened.element f.element ∧ DenotesAll f.scope inner f.element.children

/-- The bindings inside the innermost of open elements. -/
def scopeOf : List Frame → Scope
  | [] => []
  | f :: _ => f.scope

/-- The open elements and the open tags, one by one. -/
inductive OpenedByAll : List Frame → List (Text × List TagTree) → Prop
  | nil : OpenedByAll [] []
  | cons {f : Frame} {fs : List Frame} {body : Text} {inner : List TagTree}
      {rest : List (Text × List TagTree)} (head : OpenedBy (scopeOf fs) f body inner)
      (tail : OpenedByAll fs rest) : OpenedByAll (f :: fs) ((body, inner) :: rest)

/-- The elements read so far are what the tags read so far denote. -/
structure Mirrors (b : Build) (s : TagStack) : Prop where
  frames : OpenedByAll b.frames s.frames
  root : Option.Rel (fun e t => Denotes [] t e) b.root s.root

namespace Mirrors

variable {b c : Build} {s : TagStack}

theorem scope_eq (b : Build) : b.scope = scopeOf b.frames := by
  obtain ⟨frames, root⟩ := b
  cases frames <;> rfl

theorem add {e : Element} {t : TagTree} (h : Mirrors b s) (ht : Denotes (scopeOf b.frames) t e)
    (hadd : b.add e = .ok c) : Mirrors c (s.add t) := by
  obtain ⟨frames, root⟩ := b
  obtain ⟨tags, tagRoot⟩ := s
  obtain ⟨hframes, hroot⟩ := h
  cases hframes with
  | nil =>
      cases root with
      | some r => exact absurd hadd (by simp [Build.add])
      | none =>
          obtain rfl := Except.ok.inj hadd
          exact ⟨.nil, .some ht⟩
  | cons head tail =>
      obtain rfl := Except.ok.inj hadd
      obtain ⟨opened, hopen, hscope, htag, hall⟩ := head
      refine ⟨.cons ⟨opened, hopen, hscope, ?_, hall.concat ht⟩ tail, hroot⟩
      exact ⟨htag.name, htag.ns, htag.decls, htag.attrs⟩

theorem addText {text : Text} (h : Mirrors b s) (hadd : b.addText text = .ok c) :
    Mirrors c s := by
  obtain ⟨frames, root⟩ := b
  obtain ⟨tags, tagRoot⟩ := s
  obtain ⟨hframes, hroot⟩ := h
  cases hframes with
  | nil =>
      unfold Build.addText at hadd
      simp only at hadd
      split at hadd
      next =>
        obtain rfl := Except.ok.inj hadd
        exact ⟨.nil, hroot⟩
      next => exact absurd hadd (by simp)
  | cons head tail =>
      obtain rfl := Except.ok.inj hadd
      obtain ⟨opened, hopen, hscope, htag, hall⟩ := head
      refine ⟨.cons ⟨opened, hopen, hscope, ?_, hall⟩ tail, hroot⟩
      exact ⟨htag.name, htag.ns, htag.decls, htag.attrs⟩

/-- **A piece keeps the elements what the tags denote.** -/
theorem take {t : Token} (h : Mirrors b s) (ht : b.take t = .ok c) : Mirrors c (s.take t) := by
  cases takes_iff.mp ht with
  | aside => exact h
  | text _ added => exact h.addText added
  | «section» added => exact h.addText added
  | @start _ f opened =>
      rw [scope_eq] at opened
      -- an element that was just opened has no children, as its tag has none inside
      refine ⟨.cons ⟨f, opened, rfl, ⟨rfl, rfl, rfl, rfl⟩, ?_⟩ h.frames, h.root⟩
      rw [(opened_openElement opened).2.1]
      trivial
  | @empty _ f _ opened added =>
      rw [scope_eq] at opened
      refine h.add ⟨f, opened, ⟨rfl, rfl, rfl, rfl⟩, ?_⟩ added
      rw [(opened_openElement opened).2.1]
      trivial
  | @close _ f fs _ innermost _ added =>
      obtain ⟨frames, root⟩ := b
      obtain ⟨tags, tagRoot⟩ := s
      obtain ⟨hframes, hroot⟩ := h
      obtain rfl := innermost
      cases hframes with
      | @cons _ _ body inner rest head tail =>
          obtain ⟨opened, hopen, hscope, htag, hall⟩ := head
          -- the children were opened in the scope inside the tag, the element in the one around it
          have hrest : Mirrors ⟨fs, root⟩ ⟨rest, tagRoot⟩ := ⟨tail, hroot⟩
          have hdenotes : Denotes (scopeOf fs) (.node body inner) f.element.settled := by
            refine ⟨opened, hopen, htag.settled, ?_⟩
            rw [settled_eq, ← hscope]
            exact hall
          exact hrest.add hdenotes added

theorem of_reaches {text : Text} (hr : Reaches b text c) (h : Mirrors b s) :
    Mirrors c (tagsFrom s text) := by
  induction hr generalizing s with
  | done =>
      rw [tagsFrom_nil]
      exact h
  | token scanned taken _ ih =>
      rw [tagsFrom_token scanned]
      exact ih (h.take taken)

end Mirrors

/-- **THE TAGS OF A DOCUMENT DENOTE THE TREE THAT IS READ.** -/
theorem exists_tagTree {content : Text} {e : Element} (h : read content = .ok e) :
    ∃ t, tagTree? content = some t ∧ Denotes [] t e := by
  have hstart : Mirrors .initial ⟨[], none⟩ := ⟨.nil, .none⟩
  have hend := (Mirrors.of_reaches (read_eq_ok.mp h) hstart).root
  unfold tagTree?
  generalize (tagsFrom ⟨[], none⟩ (dropMark content)).root = root at hend
  cases hend with
  | some ht => exact ⟨_, rfl, ht⟩

end Crosswalk.Markup
