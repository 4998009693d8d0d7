/-
  Crosswalk.Proofs.Engine.RootPrefix
  ──────────────────────────────────────
  **THE PREFIX OF THE ROOT.**

  After the declaration was moved, the tags of the root are searched by name.
  Names below a root with a prefix have the same prefix, so nothing is found
  then; without a prefix the first start tag and the last end tag are those
  of the root:

    • `rename_documentOf`: the tags of the root after the searches,
    • `read_renamed`: what is read then, when all prefixes are declared.
-/
import Crosswalk.Proofs.Engine.MoveDeclaration

namespace Crosswalk.Engine

open Markup
open Crosswalk.Text (Quiet)

variable {P : Text → Prop} {ns : Option Namespace} {final : Namespace} {es : List Element}
  {pre root tag a s old new : Text} {bindings : List Namespace}

/-! ## §1. Searching for a tag. -/

/-- The start tag with a name begins here. -/
def StartsTag (name s : Text) : Prop :=
  ((Text.after? ('<' :: name) s).bind tagRest?).isSome = true

theorem renameStart_append (h : Quiet (StartsTag old) a s) (new : Text) :
    renameStart old new (a ++ s) = a ++ renameStart old new s := by
  induction a with
  | nil => rfl
  | cons c a ih =>
      have hnone : (Text.after? ('<' :: old) (c :: (a ++ s))).bind tagRest? = none := by
        simpa [StartsTag] using h.1
      rw [List.cons_append, renameStart, hnone]
      simp only
      rw [ih h.2]
      rfl

theorem renameStart_self {inner rest : Text} (h : tagRest? s = some (inner, rest)) :
    renameStart old new ('<' :: (old ++ s)) = '<' :: (new ++ (inner ++ '>' :: rest)) := by
  have hafter : Text.after? ('<' :: old) ('<' :: (old ++ s)) = some s := Text.after?_append _ _
  rw [renameStart, hafter, Option.bind_some, h]
  simp

theorem tagRest?_blank (s : Text) :
    tagRest? (' ' :: s)
      = match List.span (· != '>') (' ' :: s) with
        | (inner, _ :: rest) => some (inner, rest)
        | (_, []) => none := by
  show (if (Text.isBlank ' ' || ' ' == '/') = true then _ else none) = _
  exact if_pos (by decide)

/-- Behind the name of a tag its declarations and its end are found. -/
theorem tagRest?_closing {attrs : Text} (hspace : ∃ attrs', attrs = ' ' :: attrs')
    (hattrs : '>' ∉ attrs) (tag pre : Text) (es : List Element) :
    ∃ inner rest, tagRest? (attrs ++ closing tag pre es) = some (inner, rest)
      ∧ inner ++ '>' :: rest = attrs ++ closing tag pre es := by
  obtain ⟨w, z, hcl, hbracket, -⟩ := closing_eq tag pre es
  have hpast : '>' ∉ attrs ++ w := by
    rw [List.mem_append, not_or]
    exact ⟨hattrs, hbracket⟩
  refine ⟨attrs ++ w, z, ?_, by rw [hcl, List.append_assoc]⟩
  obtain ⟨attrs', rfl⟩ := hspace
  have hspan : List.span (· != '>') (' ' :: (attrs' ++ (w ++ '>' :: z)))
      = (' ' :: attrs' ++ w, '>' :: z) := by
    have hassoc : ' ' :: (attrs' ++ (w ++ '>' :: z)) = (' ' :: attrs' ++ w) ++ '>' :: z := by simp
    rw [hassoc, List.span_eq_takeWhile_dropWhile, takeWhile_bracket hpast, dropWhile_bracket hpast]
  rw [hcl, List.cons_append, tagRest?_blank, hspan]

/-- What a search for a tag of the root can begin with. -/
structure BeginsTag (P : Text → Prop) : Prop where
  head : ∀ s, P s → ∃ s', s = '<' :: s'
  line : ∀ s, ¬ P ('<' :: '?' :: s)

/-- No tag of a name with the prefix is what is searched. -/
structure SkipsPrefix (P : Text → Prop) (pre : Text) : Prop extends BeginsTag P where
  start : ∀ s, ¬ P ('<' :: (pre ++ ':' :: s))
  close : ∀ s, ¬ P ('<' :: '/' :: (pre ++ ':' :: s))

theorem quiet_declarationLine (h : BeginsTag P) (s : Text) : Quiet P declarationLine s := by
  have hline : declarationLine
      = '<' :: '?' :: "xml version=\"1.0\" encoding=\"UTF-8\"?>\n".toList := by decide
  rw [hline]
  exact ⟨h.line _, Text.quiet_of_head h.head (by decide)⟩

/-- There is no bracket among the declarations of the root. -/
theorem bracket_not_mem_attributes {x : Char} (hx : x = '<' ∨ x = '>') (h : Declares bindings) :
    x ∉ (bindings.map Namespace.attribute).flatMap Attribute.write := by
  have htag : isTagChar x = false := by rcases hx with rfl | rfl <;> decide
  have hplain : x ∉ [' ', '=', '"'] := by rcases hx with rfl | rfl <;> decide
  intro hmem
  obtain ⟨a, ha, hmem⟩ := List.mem_flatMap.mp hmem
  obtain ⟨b, hb, rfl⟩ := List.mem_map.mp ha
  have hname : x ∉ b.declarationName :=
    (Namespace.isTagName_declarationName (h.names b hb)).not_mem htag
  have hvalue : x ∉ escapeValue b.uri :=
    not_mem_escapeValue (hx.imp_right .inl) b.uri
  rw [attribute_write] at hmem
  simp only [List.mem_cons, List.mem_append, List.not_mem_nil, or_false, not_or] at hmem hplain
  rcases hmem with hmem | hmem | hmem | hmem | hmem | hmem
  · exact hplain.1 hmem
  · exact hname hmem
  · exact hplain.2.1 hmem
  · exact hplain.2.2 hmem
  · exact hvalue hmem
  · exact hplain.2.2 hmem

/-! ## §2. Names with a prefix are not found. -/

theorem qualify_eq (hpre : isName pre = true) (name : Text) :
    qualify pre name = pre ++ ':' :: name := by
  simp [qualify, ne_nil_of_isName hpre]

theorem bracket_not_mem_qualify (hpre : isName pre = true) {name : Text} (hname : isName name = true) :
    '<' ∉ qualify pre name :=
  (isTagName_qualify (.inr hpre) hname).not_mem (by decide)

theorem quiet_markupsIn_of_forall (h : ∀ e ∈ es, ∀ s, Quiet P (markupIn pre e) s) (s : Text) :
    Quiet P (markupsIn pre es) s := by
  induction es with
  | nil => trivial
  | cons e es ih =>
      rw [markupsIn, Text.quiet_append]
      exact ⟨h e List.mem_cons_self _, ih fun d hd => h d (List.mem_cons_of_mem e hd)⟩

/-- **A search for a tag passes elements with a prefix.** -/
theorem quiet_markupIn (hP : SkipsPrefix P pre) (hpre : isName pre = true) {e : Element}
    (h : Uniform ns e) : ∀ s, Quiet P (markupIn pre e) s := by
  induction h with
  | @intro name children text hname _ ih =>
      intro s
      have hq := bracket_not_mem_qualify hpre hname
      have hstart : ∀ s, ¬ P ('<' :: (qualify pre name ++ s)) := fun s => by
        rw [qualify_eq hpre, List.append_assoc]
        exact hP.start _
      have hclose : ∀ s, ¬ P ('<' :: '/' :: (qualify pre name ++ s)) := fun s => by
        rw [qualify_eq hpre, List.append_assoc]
        exact hP.close _
      -- a bracket stands at the front of a tag and nowhere else
      cases hc : contentOf text children (markupsIn pre children) with
      | none =>
          have hmarkup : markupIn pre ⟨name, ns, [], [], children, text⟩
              = '<' :: (qualify pre name ++ ['/', '>']) := by
            rw [markupIn, hc]
            simp [markupOf, tagBody]
          rw [hmarkup]
          refine ⟨?_, Text.quiet_of_head hP.head (by simp [hq])⟩
          rw [List.append_assoc]
          exact hstart _
      | some inner =>
          have hmarkup : markupIn pre ⟨name, ns, [], [], children, text⟩
              = '<' :: ((qualify pre name ++ ['>']) ++ (escapeText (text.getD [])
                ++ (markupsIn pre children ++ '<' :: '/' :: (qualify pre name ++ ['>'])))) := by
            rw [Slot.markupIn_eq hc, eq_of_contentOf_eq_some hc]
            simp
          rw [hmarkup]
          refine ⟨?_, ?_⟩
          · rw [List.append_assoc, List.append_assoc]
            exact hstart _
          · have htag : '<' ∉ qualify pre name ++ ['>'] := by simp [hq]
            have hslash : '<' ∉ '/' :: (qualify pre name ++ ['>']) := by simp [hq]
            refine Text.quiet_append.mpr ⟨Text.quiet_of_head hP.head htag,
              Text.quiet_append.mpr ⟨Text.quiet_of_head hP.head (not_mem_escapeText (.inl rfl) _),
                Text.quiet_append.mpr ⟨quiet_markupsIn_of_forall ih _, ?_,
                  Text.quiet_of_head hP.head hslash⟩⟩⟩
            rw [List.cons_append, List.append_assoc]
            exact hclose _

/-- **A search for a tag passes a document of elements with a prefix.** -/
theorem quiet_documentOf (hP : SkipsPrefix P pre) (hpre : isName pre = true)
    (hroot : isName root = true) (hes : ∀ e ∈ es, Uniform ns e) (h : Declares bindings) :
    Quiet P (documentOf (qualify pre root) bindings pre es) [] := by
  have hq := bracket_not_mem_qualify hpre hroot
  have hattrs := bracket_not_mem_attributes (.inl rfl) h
  have hclosing : Quiet P (closing (qualify pre root) pre es) [] := by
    by_cases hempty : es = []
    · subst hempty
      exact Text.quiet_of_head hP.head (by simp [closing])
    · have hcl : closing (qualify pre root) pre es
          = ['>'] ++ (markupsIn pre es ++ '<' :: '/' :: (qualify pre root ++ ['>'])) :=
        closing_of_ne_nil hempty _ _
      rw [hcl, Text.quiet_append, Text.quiet_append]
      refine ⟨Text.quiet_of_head hP.head (by decide),
        quiet_markupsIn_of_forall (fun e he => quiet_markupIn hP hpre (hes e he)) _, ?_,
        Text.quiet_of_head hP.head (by simp [hq])⟩
      rw [List.append_nil, qualify_eq hpre, List.append_assoc]
      exact hP.close _
  rw [documentOf_eq, opening, Text.quiet_append, Text.quiet_append, Text.quiet_append]
  refine ⟨⟨quiet_declarationLine hP.toBeginsTag _, ?_, Text.quiet_of_head hP.head hq⟩,
    Text.quiet_of_head hP.head hattrs, hclosing⟩
  rw [qualify_eq hpre, List.append_assoc]
  exact hP.start _

/-! ## §3. The two searches for the root. -/

/-- What follows the name of a tag that is found is no part of a name. -/
theorem tagRest?_head (h : (tagRest? s).isSome = true) : ∃ c s', s = c :: s' ∧ isTagChar c = false := by
  cases s with
  | nil => exact absurd h Bool.false_ne_true
  | cons c s =>
      refine ⟨c, s, rfl, ?_⟩
      by_contra htag
      rw [Bool.not_eq_false] at htag
      have hbracket : c ≠ '>' := ne_of_isTagChar htag (by decide)
      have hslash : c ≠ '/' := ne_of_isTagChar htag (by decide)
      unfold tagRest? at h
      split at h
      next heq => exact absurd heq (by simp)
      next heq => exact hbracket (List.cons.inj heq).1
      next heq =>
        obtain ⟨rfl, rfl⟩ := List.cons.inj heq
        rw [if_neg (by simp [not_isBlank_of_isTagChar htag, hslash])] at h
        exact absurd h (by decide)

theorem StartsTag.eq_append (h : StartsTag root s) :
    ∃ rest, s = '<' :: (root ++ rest) ∧ (tagRest? rest).isSome = true := by
  unfold StartsTag at h
  cases hafter : Text.after? ('<' :: root) s with
  | none => rw [hafter] at h; exact absurd h (by simp)
  | some rest =>
      rw [hafter] at h
      exact ⟨rest, (List.isPrefixOf?_eq_some_iff_append_eq.mp hafter).symm, h⟩

/-- A name does not begin with a character of no name. -/
theorem ne_cons_of_isName {name rest s : Text} {c : Char} (hname : isName name = true)
    (hc : isTagChar c = false) : name ++ rest ≠ c :: s := by
  cases name with
  | nil => exact absurd hname (by decide)
  | cons d name =>
      intro heq
      have hd := (isTagName_of_isName hname).2 d List.mem_cons_self
      exact ne_of_isTagChar hd hc (List.cons.inj heq).1

theorem beginsTag_start (hroot : isName root = true) : BeginsTag (StartsTag root) where
  head s h := by
    obtain ⟨rest, rfl, -⟩ := h.eq_append
    exact ⟨_, rfl⟩
  line s h := by
    obtain ⟨rest, heq, -⟩ := h.eq_append
    exact ne_cons_of_isName hroot (by decide) (List.cons.inj heq).2.symm

theorem beginsTag_end (root : Text) : BeginsTag (endTag root <+: ·) where
  head s h := by
    obtain ⟨r, rfl⟩ := h
    exact ⟨_, rfl⟩
  line s h := by
    obtain ⟨r, heq⟩ := h
    exact absurd (List.cons.inj (List.cons.inj heq).2).1 (by decide)

theorem skipsPrefix_start (hroot : isName root = true) (hpre : isName pre = true) :
    SkipsPrefix (StartsTag root) pre where
  toBeginsTag := beginsTag_start hroot
  start s h := by
    obtain ⟨rest, heq, hrest⟩ := h.eq_append
    obtain ⟨c, rest', rfl, hc⟩ := tagRest?_head hrest
    obtain ⟨x', hx, hr⟩ := Text.cut_of_not_mem_left (colon_not_mem_of_isName hroot)
      (List.cons.inj heq).2.symm
    -- behind the name stands the colon or a character of the prefix, and neither ends a name
    cases x' with
    | nil =>
        rw [(List.cons.inj hr).1] at hc
        exact absurd hc (by decide)
    | cons d x' =>
        have hd := (isTagName_of_isName hpre).2 d (by rw [hx]; simp)
        rw [(List.cons.inj hr).1, hd] at hc
        exact absurd hc (by decide)
  close s h := by
    obtain ⟨rest, heq, -⟩ := h.eq_append
    exact ne_cons_of_isName hroot (by decide) (List.cons.inj heq).2.symm

theorem skipsPrefix_end (hroot : isName root = true) (hpre : isName pre = true) :
    SkipsPrefix (endTag root <+: ·) pre where
  toBeginsTag := beginsTag_end root
  start s h := by
    obtain ⟨r, heq⟩ := h
    exact ne_cons_of_isName hpre (by decide) (List.cons.inj heq).2.symm
  close s h := by
    obtain ⟨r, heq⟩ := h
    have hcut : (root ++ ['>']) ++ r = pre ++ ':' :: s := (List.cons.inj (List.cons.inj heq).2).2
    have hcolon : ':' ∉ root ++ ['>'] := by
      simp [colon_not_mem_of_isName hroot]
    obtain ⟨x', hx, -⟩ := Text.cut_of_not_mem_left hcolon hcut
    have hmem : '>' ∈ pre := by rw [hx]; simp
    exact (isTagName_of_isName hpre).not_mem (by decide) hmem

/-! ## §4. The tags of the root. -/

/-- The searches by name: the first start tag and the last end tag get another name. -/
def renameTags (old new s : Text) : Text :=
  replaceLast (endTag old) (endTag new) (renameStart old new s)

theorem prefixRoot_eq (root : Text) (ns : Namespace) (s : Text) :
    prefixRoot root ns s = renameTags root (qualify ns.pre root) (moveDeclaration ns s) :=
  rfl

theorem replaceLast_eq_self (h : Quiet (old <+: ·) s []) (hne : old ≠ []) :
    replaceLast old new s = s := by
  unfold replaceLast
  rw [Text.cutLast?_eq_none (Text.not_infix_of_quiet h hne)]

/-- The tags of a root with a prefix stay. -/
theorem rename_of_prefix (hpre : isName pre = true) (hroot : isName root = true)
    (hes : ∀ e ∈ es, Uniform ns e) (h : Declares bindings) :
    renameTags root new (documentOf (qualify pre root) bindings pre es)
      = documentOf (qualify pre root) bindings pre es := by
  have hstart := quiet_documentOf (skipsPrefix_start hroot hpre) hpre hroot hes h
  have hend := quiet_documentOf (skipsPrefix_end hroot hpre) hpre hroot hes h
  have hsame := renameStart_append hstart new
  rw [List.append_nil, renameStart, List.append_nil] at hsame
  rw [renameTags, hsame, replaceLast_eq_self hend (by simp [endTag])]

/-- **The tags of a root without a prefix get it.** -/
theorem rename_of_nil {p : Text} (hp : isName p = true) (hroot : isName root = true)
    (h : Declares bindings) (hne : bindings ≠ []) :
    renameTags root (qualify p root) (documentOf root bindings [] es)
      = documentOf (qualify p root) bindings [] es := by
  have hspace : ∃ attrs', (bindings.map Namespace.attribute).flatMap Attribute.write
      = ' ' :: attrs' := by
    cases bindings with
    | nil => exact absurd rfl hne
    | cons b bs =>
        rw [List.map_cons, List.flatMap_cons, attribute_write]
        exact ⟨_, rfl⟩
  obtain ⟨inner, rest, hrest, heq⟩ := tagRest?_closing hspace
    (bracket_not_mem_attributes (.inr rfl) h) root [] es
  -- the first start tag with the name is that of the root
  have hstart : renameStart root (qualify p root) (documentOf root bindings [] es)
      = opening (qualify p root) ++ ((bindings.map Namespace.attribute).flatMap Attribute.write
        ++ closing root [] es) := by
    rw [documentOf_eq, opening, List.append_assoc,
      renameStart_append (quiet_declarationLine (beginsTag_start hroot) _) _, List.cons_append,
      renameStart_self hrest, heq, opening]
    simp
  rw [renameTags, hstart, documentOf_eq]
  have htag := qualify_eq hp root
  have hnotag : '<' ∉ qualify p root := bracket_not_mem_qualify hp hroot
  by_cases hempty : es = []
  · subst hempty
    refine replaceLast_eq_self ?_ (by simp [endTag])
    have hopening : ∀ s, Quiet (endTag root <+: ·) (opening (qualify p root)) s := by
      intro s
      refine Text.quiet_append.mpr ⟨quiet_declarationLine (beginsTag_end root) _, ?_,
        Text.quiet_of_head (beginsTag_end root).head hnotag⟩
      rw [htag, List.append_assoc]
      exact (skipsPrefix_end hroot hp).start _
    exact Text.quiet_append.mpr ⟨hopening _, Text.quiet_append.mpr
      ⟨Text.quiet_of_head (beginsTag_end root).head (bracket_not_mem_attributes (.inl rfl) h),
        Text.quiet_of_head (beginsTag_end root).head (by simp [closing])⟩⟩
  · have hclosing : ∀ name, closing name [] es = ('>' :: markupsIn [] es) ++ endTag name := by
      intro name
      rw [closing_of_ne_nil hempty]
      simp [endTag]
    -- and the document ends with the end tag of the root
    have hassoc : opening (qualify p root) ++ ((bindings.map Namespace.attribute).flatMap
          Attribute.write ++ closing root [] es)
        = (opening (qualify p root) ++ ((bindings.map Namespace.attribute).flatMap Attribute.write
          ++ '>' :: markupsIn [] es)) ++ endTag root := by
      rw [hclosing]
      simp
    rw [hassoc, replaceLast, Text.cutLast?_append_self, hclosing]
    simp

/-- The prefix of the root in the end: its own one, or else the given one. -/
def finalPrefix (pre p : Text) : Text :=
  if pre = [] then p else pre

/-- **The tags of the root after the searches by name.** -/
theorem rename_documentOf {p : Text} (hp : isName p = true) (hpre : pre = [] ∨ isName pre = true)
    (hroot : isName root = true) (hes : ∀ e ∈ es, Uniform ns e) (h : Declares bindings)
    (hne : bindings ≠ []) :
    renameTags root (qualify p root) (documentOf (qualify pre root) bindings pre es)
      = documentOf (qualify (finalPrefix pre p) root) bindings pre es := by
  unfold finalPrefix
  rcases hpre with rfl | hpre
  · rw [if_pos rfl]
    exact rename_of_nil hp hroot h hne
  · rw [if_neg (ne_nil_of_isName hpre)]
    exact rename_of_prefix hpre hroot hes h

/-- A document with its prefixes declared is read after the searches by name, its root in the
namespace that its prefix is bound to. -/
theorem read_renamed {p : Text} (hp : isName p = true) (hpre : pre = [] ∨ isName pre = true)
    (hroot : isName root = true) (hes : ∀ e ∈ es, Uniform ns e) (h : Declares bindings)
    (hown : pre ≠ [] → pre ∈ bindings.map Namespace.pre)
    (hfinal : pre = [] → p ∈ bindings.map Namespace.pre) :
    ∃ e, read (renameTags root (qualify p root) (documentOf (qualify pre root) bindings pre es))
        = .ok e
      ∧ (∃ b ∈ bindings, b.pre = finalPrefix pre p ∧ e.ns = some b)
      ∧ outline e = { Element.bare root none with children := outlineAll es } := by
  obtain ⟨hname, hbound⟩ : isName (finalPrefix pre p) = true
      ∧ finalPrefix pre p ∈ bindings.map Namespace.pre := by
    unfold finalPrefix
    by_cases hnil : pre = []
    · rw [if_pos hnil]
      exact ⟨hp, hfinal hnil⟩
    · rw [if_neg hnil]
      exact ⟨hpre.resolve_left hnil, hown hnil⟩
  have hne : bindings ≠ [] := by
    rintro rfl
    exact absurd hbound List.not_mem_nil
  obtain ⟨b, hb, hbpre⟩ := List.mem_map.mp hbound
  have hresolve : resolve? bindings.reverse (finalPrefix pre p) = some (some b) := by
    rw [← hbpre]
    exact h.resolve?_of_mem hb
  rw [rename_documentOf hp hpre hroot hes h hne]
  obtain ⟨e, hread, hens, hout⟩ := h.read_documentOf
    (isTagName_qualify (.inr hname) hroot).opensTag
    (splitQualified_qualify (colon_not_mem_of_isName hname) fun _ => colon_not_mem_of_isName hroot)
    hresolve hes (hpre.imp_right fun hname => ⟨hname, hown (ne_nil_of_isName hname)⟩)
  exact ⟨e, hread, ⟨b, hb, hbpre, hens⟩, hout⟩

end Crosswalk.Engine
