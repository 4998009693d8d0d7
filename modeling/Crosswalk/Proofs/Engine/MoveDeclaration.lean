/-
  Crosswalk.Proofs.Engine.MoveDeclaration
  ──────────────────────────────────────
  **WHAT THE SEARCH FOR THE DEFAULT DECLARATION HITS.**

  `moveDeclaration` looks for the text of a default declaration in a whole
  document.  It may stop

    • at the end of the name of a declaration in the root tag,
    • at the end of the value of a declaration in the root tag,
    • in the text of an element below the root.

  In each case the prefix is put in behind the `xmlns` where the search
  stopped, and the result is a document again, with other declarations or
  another text (`Moved`).  `moved_documentOf` says which case it is.
-/
import Crosswalk.Engine.RootPrefix
import Crosswalk.Proofs.Markup.Slot

namespace Crosswalk.Engine

open Markup
open Crosswalk.Text (Quiet)

/-! ## §1. The text that is looked for. -/

/-- How every declaration begins. -/
def mark : Text := "xmlns".toList

/-- The default declaration of a URI, as it is looked for. -/
def needle (uri : Text) : Text :=
  mark ++ '=' :: '"' :: (uri ++ ['"'])

/-- Escaping leaves the URI as it is. -/
def Plain (uri : Text) : Prop :=
  escapeValue uri = uri

variable {final b : Namespace} {uri a p rest s v w y z : Text}

theorem display_default (uri : Text) : Namespace.display ⟨[], uri⟩ = needle uri := by
  simp [Namespace.display, Namespace.declarationName, Namespace.isDefault, needle, mark]

theorem display_eq (h : final.pre ≠ []) :
    final.display = mark ++ ':' :: (final.pre ++ '=' :: '"' :: (final.uri ++ ['"'])) := by
  simp [Namespace.display, Namespace.declarationName, Namespace.isDefault, h, mark]

theorem needle_append (uri s : Text) :
    needle uri ++ s = mark ++ '=' :: '"' :: (uri ++ '"' :: s) := by
  simp [needle]

/-- A search that starts with another character passes. -/
theorem quiet_needle_of_not_mem (h : 'x' ∉ a) : Quiet (needle uri <+: ·) a s := by
  refine Text.quiet_of_head (fun t ht => ?_) h
  obtain ⟨r, rfl⟩ := ht
  exact ⟨_, rfl⟩

/-- A URI that is followed by a quote where its escaped form is followed by one is plain. -/
theorem plain_of_quote (h : uri ++ ['"'] <+: escapeValue uri ++ '"' :: z) : Plain uri := by
  obtain ⟨r, hr⟩ := h
  have hquote : '"' ∉ escapeValue uri := not_mem_escapeValue (.inr (.inr rfl)) uri
  have hr' : escapeValue uri ++ '"' :: z = uri ++ '"' :: r := by
    rw [← hr]
    simp
  obtain ⟨x', hx, -⟩ := Text.cut_of_not_mem_left hquote hr'
  have hlen := length_le_escapeValue uri
  have hnil : x' = [] := by
    have hadd := congrArg List.length hx
    rw [List.length_append] at hadd
    exact List.eq_nil_of_length_eq_zero (by omega)
  rw [hnil, List.append_nil] at hx
  exact hx.symm

/-! ## §2. What is dropped behind the hit. -/

/-- The text without a declaration of the namespace in its first tag. -/
def dropDuplicate (ns : Namespace) (s : Text) : Text :=
  replaceFirst (' ' :: ns.display) [] (s.takeWhile (· != '>')) ++ s.dropWhile (· != '>')

theorem moveDeclaration_of_quiet (h : Quiet (needle final.uri <+: ·) a (needle final.uri ++ rest)) :
    moveDeclaration final (a ++ (needle final.uri ++ rest))
      = a ++ (final.display ++ dropDuplicate final rest) := by
  unfold moveDeclaration
  rw [display_default, Text.cutFirst?_of_quiet h]
  simp only [List.span_eq_takeWhile_dropWhile]
  unfold dropDuplicate
  simp

/-- The search in a text of which the front was passed. -/
theorem move_append (ha : Quiet (needle final.uri <+: ·) a s)
    (hs : s = p ++ (needle final.uri ++ rest))
    (hp : Quiet (needle final.uri <+: ·) p (needle final.uri ++ rest)) :
    moveDeclaration final (a ++ s) = a ++ (p ++ (final.display ++ dropDuplicate final rest)) := by
  subst hs
  rw [← List.append_assoc, moveDeclaration_of_quiet (Text.quiet_append.mpr ⟨ha, hp⟩),
    List.append_assoc]

theorem moveDeclaration_eq_self (h : ¬ needle final.uri <:+: s) : moveDeclaration final s = s := by
  unfold moveDeclaration
  rw [display_default, Text.cutFirst?_eq_none h]

theorem replaceFirst_eq_self {old new : Text} (h : ¬ old <:+: s) : replaceFirst old new s = s := by
  unfold replaceFirst
  rw [Text.cutFirst?_eq_none h]

theorem dropDuplicate_eq_self (h : ¬ ' ' :: final.display <:+: s.takeWhile (· != '>')) :
    dropDuplicate final s = s := by
  unfold dropDuplicate
  rw [replaceFirst_eq_self h, List.takeWhile_append_dropWhile]

/-- A URI with a bracket is not declared before the next bracket. -/
theorem dropDuplicate_of_bracket (h : '>' ∈ final.uri) : dropDuplicate final s = s := by
  refine dropDuplicate_eq_self fun hi => ?_
  have hmem : '>' ∈ s.takeWhile (· != '>') := hi.subset (by simp [Namespace.display, h])
  exact absurd (List.mem_takeWhile_imp hmem) (by simp)

theorem takeWhile_bracket (hw : '>' ∉ w) : (w ++ '>' :: z).takeWhile (· != '>') = w :=
  takeWhile_append_stop (Text.forall_bne_of_not_mem hw) (bne_self_eq_false '>') z

theorem dropWhile_bracket (hw : '>' ∉ w) : (w ++ '>' :: z).dropWhile (· != '>') = '>' :: z :=
  dropWhile_append_stop (Text.forall_bne_of_not_mem hw) (bne_self_eq_false '>') z

/-- Where less than two quotes stand before the next bracket, nothing is dropped. -/
theorem dropDuplicate_of_count (hw : '>' ∉ w) (hc : w.count '"' < 2) :
    dropDuplicate final (w ++ '>' :: z) = w ++ '>' :: z := by
  refine dropDuplicate_eq_self fun hi => ?_
  rw [takeWhile_bracket hw] at hi
  have hle := hi.sublist.count_le '"'
  have htwo : 2 ≤ (' ' :: final.display).count '"' := by
    simp [Namespace.display, List.count_append]
    omega
  omega

/-! ## §3. One declaration of the root tag. -/

theorem attribute_write (b : Namespace) : b.attribute.write
    = ' ' :: (b.declarationName ++ '=' :: '"' :: (escapeValue b.uri ++ ['"'])) :=
  Attribute.write_eq _

/-- The search passes the name of a declaration or stops at its end. -/
theorem quiet_name (uri : Text) {name : Text} (h : '=' ∉ name) (w : Text) :
    Quiet (needle uri <+: ·) name ('=' :: '"' :: w) ∧ ¬ (mark <:+ name ∧ uri ++ ['"'] <+: w)
      ∨ ∃ m, name = m ++ mark ∧ uri ++ ['"'] <+: w
        ∧ Quiet (needle uri <+: ·) m (mark ++ '=' :: '"' :: w) := by
  rcases Text.quiet_or_exists (needle uri <+: ·) name ('=' :: '"' :: w) with
    hq | ⟨m, n, rfl, -, hm, hn⟩
  · refine .inl ⟨hq, fun ⟨⟨m, hm⟩, r, hr⟩ => ?_⟩
    rw [← hm] at hq
    refine (Text.quiet_append.mp hq).2.1 ⟨r, ?_⟩
    rw [needle_append, ← hr, List.append_assoc]
    rfl
  · obtain ⟨heq, hr⟩ := Text.first_mark_of_prefix (fun hmem => h (List.mem_append_right m hmem))
      (by decide) hn
    rw [← heq] at hm ⊢
    exact .inr ⟨m, rfl, (List.prefix_cons_inj '"').mp hr, hm⟩

/-- The search passes the value of a declaration or stops at its end. -/
theorem quiet_value (uri : Text) (h : '"' ∉ v) (z : Text) :
    Quiet (needle uri <+: ·) v ('"' :: z) ∧ ¬ (mark ++ ['='] <:+ v ∧ uri ++ ['"'] <+: z)
      ∨ ∃ u, v = u ++ (mark ++ ['=']) ∧ uri ++ ['"'] <+: z
        ∧ Quiet (needle uri <+: ·) u (mark ++ '=' :: '"' :: z) := by
  rcases Text.quiet_or_exists (needle uri <+: ·) v ('"' :: z) with hq | ⟨u, n, rfl, -, hu, hn⟩
  · refine .inl ⟨hq, fun ⟨⟨u, hu⟩, r, hr⟩ => ?_⟩
    rw [← hu] at hq
    refine (Text.quiet_append.mp hq).2.1 ⟨r, ?_⟩
    rw [needle_append, ← hr, List.append_assoc]
    rfl
  · have hneedle : needle uri = (mark ++ ['=']) ++ '"' :: (uri ++ ['"']) := by simp [needle]
    rw [hneedle] at hn
    obtain ⟨heq, hr⟩ := Text.first_mark_of_prefix (fun hmem => h (List.mem_append_right u hmem))
      (by decide) hn
    rw [← heq] at hu ⊢
    refine .inr ⟨u, rfl, hr, ?_⟩
    rw [List.append_assoc] at hu
    exact hu

/-- The declaration of a binding can be what is looked for: its name ends as every declaration
begins, and its value is the URI. -/
def NameHit (b : Namespace) : Prop :=
  Plain b.uri ∧ mark <:+ b.declarationName

/-- A declaration with `z` behind it can hold what is looked for from the end of its value on: the
value ends as every declaration begins, and the URI follows with a quote. -/
def ValueHit (b : Namespace) (z : Text) : Prop :=
  mark ++ ['='] <:+ escapeValue b.uri ∧ b.uri ++ ['"'] <+: z

theorem declarationName_qualify (b : Namespace) (hpre : p ≠ []) :
    Namespace.declarationName ⟨qualify b.pre p, uri⟩ = b.declarationName ++ ':' :: p := by
  unfold Namespace.declarationName Namespace.isDefault qualify
  cases b.pre with
  | nil => simp [hpre]
  | cons c pre => simp

/-- A prefix put in before the last equals sign of a value. -/
theorem escapeValue_insert (hp : isName p = true) (hv : escapeValue uri = v ++ (mark ++ ['='])) :
    ∃ u, u ≠ [] ∧ u ≠ uri ∧ escapeValue u = v ++ (mark ++ ':' :: (p ++ ['='])) := by
  have hcut : escapeValue uri = (v ++ mark) ++ '=' :: [] := by rw [hv, List.append_assoc]
  obtain ⟨u₁, u₂, -, h₁, -⟩ := escapeValue_cut (by decide) hcut
  have hpast : escapeValue (':' :: (p ++ ['='])) = ':' :: (p ++ ['=']) := by
    refine escapeValue_eq_self fun c hc => ?_
    rw [List.mem_cons, List.mem_append, List.mem_singleton] at hc
    rcases hc with rfl | hc | rfl
    · exact escapeValueChar_eq (by decide)
    · exact escapeValueChar_of_isTagChar ((isTagName_of_isName hp).2 c hc)
    · exact escapeValueChar_eq (by decide)
  have hvalue : escapeValue (u₁ ++ ':' :: (p ++ ['='])) = v ++ (mark ++ ':' :: (p ++ ['='])) := by
    rw [escapeValue_append, h₁, hpast, List.append_assoc]
  refine ⟨u₁ ++ ':' :: (p ++ ['=']), by simp, fun hsame => ?_, hvalue⟩
  rw [hsame, hv] at hvalue
  have hlen := congrArg List.length hvalue
  simp only [List.length_append, List.length_cons, List.length_nil] at hlen
  omega

/-- A search that passes the name and the value of a declaration passes all of it. -/
theorem quiet_attribute
    (hname : Quiet (needle uri <+: ·) b.declarationName ('=' :: '"' :: (escapeValue b.uri ++ '"' :: z)))
    (hvalue : Quiet (needle uri <+: ·) (escapeValue b.uri) ('"' :: z)) :
    Quiet (needle uri <+: ·) b.attribute.write z := by
  have hwrite : b.attribute.write
      = [' '] ++ (b.declarationName ++ (['=', '"'] ++ (escapeValue b.uri ++ ['"']))) := by
    rw [attribute_write]
    rfl
  rw [hwrite, Text.quiet_append, Text.quiet_append, Text.quiet_append, Text.quiet_append]
  refine ⟨quiet_needle_of_not_mem (by decide), ?_, quiet_needle_of_not_mem (by decide), hvalue,
    quiet_needle_of_not_mem (by decide)⟩
  simpa using hname

/-- A search that stops at the end of a name puts the prefix in there. -/
theorem move_attribute_name (hpre : final.pre ≠ []) (huri : b.uri = final.uri) (hplain : Plain b.uri)
    (ha : Quiet (needle final.uri <+: ·) a (b.attribute.write ++ z)) {m : Text}
    (hm : b.declarationName = m ++ mark)
    (hq : Quiet (needle final.uri <+: ·) m (mark ++ '=' :: '"' :: (escapeValue b.uri ++ '"' :: z))) :
    moveDeclaration final (a ++ (b.attribute.write ++ z))
      = a ++ ((Namespace.attribute ⟨qualify b.pre final.pre, b.uri⟩).write
        ++ dropDuplicate final z) := by
  have hsplit : b.attribute.write ++ z = ([' '] ++ m) ++ (needle final.uri ++ z) := by
    rw [attribute_write, hplain, hm, huri, needle_append]
    simp
  have hquiet : Quiet (needle final.uri <+: ·) ([' '] ++ m) (needle final.uri ++ z) := by
    rw [Text.quiet_append, needle_append]
    rw [hplain, huri] at hq
    exact ⟨quiet_needle_of_not_mem (by decide), hq⟩
  rw [move_append ha hsplit hquiet, display_eq hpre, attribute_write, declarationName_qualify b hpre,
    hm, ← huri, hplain]
  simp

/-- A search that stops at the end of a value makes it another value, when nothing is dropped. -/
theorem move_attribute_value (hp : isName final.pre = true)
    (ha : Quiet (needle final.uri <+: ·) a (b.attribute.write ++ z))
    (hname : Quiet (needle final.uri <+: ·) b.declarationName
      ('=' :: '"' :: (escapeValue b.uri ++ '"' :: z)))
    (hv : escapeValue b.uri = v ++ (mark ++ ['=']))
    (hvq : Quiet (needle final.uri <+: ·) v (mark ++ '=' :: '"' :: z))
    (hz : z = final.uri ++ '"' :: rest) (hrest : dropDuplicate final rest = rest) :
    ∃ u, u ≠ [] ∧ u ≠ b.uri ∧ moveDeclaration final (a ++ (b.attribute.write ++ z))
      = a ++ ((Namespace.attribute ⟨b.pre, u⟩).write ++ z) := by
  obtain ⟨u, hu, hne, hesc⟩ := escapeValue_insert hp hv
  refine ⟨u, hu, hne, ?_⟩
  have hsplit : b.attribute.write ++ z
      = ([' '] ++ (b.declarationName ++ (['=', '"'] ++ v))) ++ (needle final.uri ++ rest) := by
    rw [attribute_write, hv, needle_append, hz]
    simp
  have hquiet : Quiet (needle final.uri <+: ·)
      ([' '] ++ (b.declarationName ++ (['=', '"'] ++ v))) (needle final.uri ++ rest) := by
    rw [Text.quiet_append, Text.quiet_append, Text.quiet_append, needle_append, ← hz]
    refine ⟨quiet_needle_of_not_mem (by decide), ?_, quiet_needle_of_not_mem (by decide), hvq⟩
    rw [hv] at hname
    simpa using hname
  have hsame : Namespace.declarationName ⟨b.pre, u⟩ = b.declarationName := rfl
  rw [move_append ha hsplit hquiet, hrest, display_eq (ne_nil_of_isName hp), attribute_write, hesc,
    hsame, hz]
  simp

/-- **One declaration in the root tag**: the search passes it, or it stops at the end of its name
and puts the prefix in there, or it stops at the end of its value. -/
theorem move_attribute (hp : isName final.pre = true) (huri : b.uri = final.uri)
    (hb : b.pre = [] ∨ IsTagName b.pre)
    (ha : Quiet (needle final.uri <+: ·) a (b.attribute.write ++ z)) :
    (Quiet (needle final.uri <+: ·) (a ++ b.attribute.write) z ∧ ¬ NameHit b ∧ ¬ ValueHit b z)
      ∨ (NameHit b ∧ moveDeclaration final (a ++ (b.attribute.write ++ z))
          = a ++ ((Namespace.attribute ⟨qualify b.pre final.pre, b.uri⟩).write
            ++ dropDuplicate final z))
      ∨ (¬ NameHit b ∧ mark ++ ['='] <:+ escapeValue b.uri ∧ ∃ rest, z = b.uri ++ '"' :: rest
          ∧ (dropDuplicate final rest = rest → ∃ u, u ≠ [] ∧ u ≠ b.uri
            ∧ moveDeclaration final (a ++ (b.attribute.write ++ z))
              = a ++ ((Namespace.attribute ⟨b.pre, u⟩).write ++ z))) := by
  have hname : IsTagName b.declarationName := Namespace.isTagName_declarationName hb
  have heq : '=' ∉ b.declarationName := hname.not_mem (by decide)
  have hquote : '"' ∉ escapeValue b.uri := not_mem_escapeValue (.inr (.inr rfl)) b.uri
  rcases quiet_name final.uri heq (escapeValue b.uri ++ '"' :: z) with ⟨hq, hno⟩ | ⟨m, hm, hw, hq⟩
  · have hmiss : ¬ NameHit b := by
      rintro ⟨hplain, hsuffix⟩
      refine hno ⟨hsuffix, z, ?_⟩
      rw [hplain, huri, List.append_assoc]
      rfl
    rcases quiet_value final.uri hquote z with ⟨hvq, hnone⟩ | ⟨v, hv, ⟨rest, hz⟩, hvq⟩
    · refine .inl ⟨Text.quiet_append.mpr ⟨ha, quiet_attribute hq hvq⟩, hmiss, ?_⟩
      rw [← huri] at hnone
      exact hnone
    · have hz' : z = final.uri ++ '"' :: rest := by
        rw [← hz]
        simp
      refine .inr (.inr ⟨hmiss, ⟨v, hv.symm⟩, rest, ?_, fun hrest => ?_⟩)
      · rw [huri]
        exact hz'
      · exact move_attribute_value hp ha hq hv hvq hz' hrest
  · -- what is looked for goes up to the quote behind the value, so the value is the plain URI
    have hplain : Plain b.uri := plain_of_quote (by rw [huri] at hw ⊢; exact hw)
    refine .inr (.inl ⟨⟨hplain, m, hm.symm⟩, ?_⟩)
    exact move_attribute_name (ne_nil_of_isName hp) huri hplain ha hm hq

/-! ## §4. A text below the root. -/

variable {ns : Option Namespace} {pre tag : Text} {es : List Element}

/-- Of a text that a tag follows, a declaration is dropped or nothing. -/
theorem dropDuplicate_escapeText (final : Namespace) (hs : Slot.StartsWithTag s) (t : Text) :
    ∃ t', dropDuplicate final (escapeText t ++ s) = escapeText t' ++ s
      ∧ ((escapeText t').length = (escapeText t).length
        ∨ (escapeText t').length + final.display.length + 1 = (escapeText t).length) := by
  obtain ⟨w, r, rfl, hwbracket, hwquote⟩ := hs.exists_tag
  have hbracket : '>' ∉ escapeText t ++ '<' :: w := by
    simp [not_mem_escapeText (.inr rfl) t, hwbracket]
  have hquote : '"' ∉ '<' :: w := by simp [hwquote]
  have hassoc : escapeText t ++ '<' :: (w ++ '>' :: r)
      = (escapeText t ++ '<' :: w) ++ '>' :: r := by simp
  by_cases hi : ' ' :: final.display <:+: escapeText t ++ '<' :: w
  · -- the declaration ends in a quote, so it stands in the text and not in the tag
    obtain ⟨x, y, hxy, hq⟩ := Text.exists_quiet_of_infix hi
    have hcut : escapeText t ++ '<' :: w
        = (x ++ ' ' :: (final.declarationName ++ "=\"".toList ++ final.uri)) ++ '"' :: y := by
      rw [hxy, Namespace.display]
      simp
    obtain ⟨y', rfl, htext⟩ := Text.cut_of_not_mem_right hquote hcut
    obtain ⟨t₁, t₂, -, h₁, h₂⟩ := escapeText_cut (by decide) htext
    obtain ⟨t₃, t₄, -, h₃, -⟩ := escapeText_cut (by decide) h₁
    refine ⟨t₃ ++ t₂, ?_, .inr ?_⟩
    · unfold dropDuplicate
      rw [hassoc, takeWhile_bracket hbracket, dropWhile_bracket hbracket, hxy, replaceFirst,
        Text.cutFirst?_of_quiet hq, escapeText_append, h₃, h₂]
      simp
    · rw [htext, escapeText_append, h₃, h₂, Namespace.display]
      simp
      omega
  · refine ⟨t, dropDuplicate_eq_self ?_, .inl rfl⟩
    rw [hassoc, takeWhile_bracket hbracket]
    exact hi

/-- A hit in uniform markup begins in a text, and what follows its equals sign begins there. -/
theorem slot_of_needle (hpre : pre = [] ∨ isName pre = true) (hes : ∀ e ∈ es, Uniform ns e)
    (h : markupsIn pre es = y ++ (needle uri ++ z)) :
    ∃ (slot : Slot) (t₁ t₂ : Text), slot.fill ns (t₁ ++ '=' :: t₂) = es
      ∧ y ++ mark = slot.before pre ++ escapeText t₁
      ∧ '"' :: (uri ++ '"' :: z) = escapeText t₂ ++ slot.after pre := by
  have hcut : markupsIn pre es = (y ++ mark) ++ '=' :: '"' :: (uri ++ '"' :: z) := by
    rw [h, needle_append, List.append_assoc]
  exact hasSlots_of_forall (fun e he => exists_slot hpre (hes e he)) _ _ hcut

/-- The mark before a hit in a text belongs to that text. -/
theorem mem_of_mark {slot : Slot} {t : Text} (h : y ++ mark = slot.before pre ++ escapeText t) :
    'x' ∈ t := by
  obtain ⟨b, hb⟩ := Slot.before_eq pre slot
  have hcut : slot.before pre ++ escapeText t = y ++ 'x' :: "mlns".toList := h.symm
  rcases Text.cut_append hcut with ⟨y', hy, hbefore⟩ | ⟨x', -, htext⟩
  · -- the text before ends in a bracket, so no part of the mark can stand in it
    rw [hb] at hbefore
    obtain ⟨y'', rfl, -⟩ := Text.cut_of_not_mem_right (by decide) hbefore
    have hmem : '>' ∈ "mlns".toList := by
      rw [hy]
      simp
    exact absurd hmem (by decide)
  · obtain ⟨t₁, t₂, rfl, -, -⟩ := escapeText_cut (by decide) htext
    simp

/-- What is dropped behind a hit in a text is dropped from that text. -/
theorem dropDuplicate_slot {t after : Text} (hafter : Slot.StartsWithTag after)
    (h : '"' :: (final.uri ++ '"' :: rest) = escapeText t ++ after) (s : Text) :
    ∃ t', '"' :: (final.uri ++ '"' :: dropDuplicate final (rest ++ s))
        = escapeText t' ++ (after ++ s)
      ∧ ((escapeText t').length = (escapeText t).length
        ∨ (escapeText t').length + final.display.length + 1 = (escapeText t).length) := by
  by_cases hbracket : '>' ∈ final.uri
  · refine ⟨t, ?_, .inl rfl⟩
    rw [dropDuplicate_of_bracket hbracket, ← List.append_assoc, ← h]
    simp
  · -- without a bracket in it the URI cannot reach over the tag behind the text
    have hcut : escapeText t ++ after = ('"' :: final.uri) ++ '"' :: rest := h.symm
    rcases Text.cut_append hcut with ⟨r, rfl, htext⟩ | ⟨x', hx, htag⟩
    · obtain ⟨t₁, t₂, rfl, h₁, rfl⟩ := escapeText_cut (by decide) htext
      obtain ⟨t₃, hdrop, hlen⟩ := dropDuplicate_escapeText final (hafter.append s) t₂
      have hone : escapeTextChar '"' = ['"'] := escapeTextChar_eq (by decide)
      have hsplit : ∀ u, escapeText (t₁ ++ '"' :: u) = '"' :: (final.uri ++ '"' :: escapeText u) := by
        intro u
        rw [escapeText_append, h₁]
        show _ ++ (escapeTextChar '"' ++ escapeText u) = _
        rw [hone]
        rfl
      refine ⟨t₁ ++ '"' :: t₃, ?_, ?_⟩
      · rw [List.append_assoc, hdrop, hsplit]
        simp
      · rw [hsplit, hsplit]
        simp only [List.length_cons, List.length_append]
        omega
    · obtain ⟨w, r, hw, -, hwquote⟩ := hafter.exists_tag
      have hquote : '"' ∉ '<' :: (w ++ ['>']) := by simp [hwquote]
      have hassoc : '<' :: (w ++ ['>']) ++ r = x' ++ '"' :: rest := by
        rw [← htag, hw]
        simp
      obtain ⟨x₂, rfl, -⟩ := Text.cut_of_not_mem_left hquote hassoc
      have hmem : '>' ∈ '"' :: final.uri := by
        rw [hx]
        simp
      rcases List.mem_cons.mp hmem with hmem | hmem
      · exact absurd hmem (by decide)
      · exact absurd hmem hbracket

theorem blank_eq_false {t : Text} (h : 'x' ∈ t) : Text.blank t = false := by
  rw [Text.blank, List.all_eq_false]
  exact ⟨'x', h, by decide⟩

/-- The text before the end tag of the root, in which a declaration cannot end. -/
theorem quote_not_mem_close (htag : IsTagName tag) : '"' ∉ '<' :: '/' :: (tag ++ ['>']) := by
  intro hmem
  simp only [List.mem_cons, List.mem_append, List.not_mem_nil, or_false] at hmem
  rcases hmem with hmem | hmem | hmem | hmem
  · exact absurd hmem (by decide)
  · exact absurd hmem (by decide)
  · exact htag.not_mem (by decide) hmem
  · exact absurd hmem (by decide)

/-- A text with the prefix put in, and possibly a declaration dropped, has another length. -/
theorem escapeText_insert (t₁ : Text) {t₂ t₃ : Text} (hp : isName final.pre = true)
    (hlen : (escapeText t₃).length = (escapeText t₂).length
      ∨ (escapeText t₃).length + final.display.length + 1 = (escapeText t₂).length) :
    escapeText (t₁ ++ ':' :: (final.pre ++ '=' :: t₃))
        = escapeText t₁ ++ ':' :: (final.pre ++ '=' :: escapeText t₃)
      ∧ t₁ ++ ':' :: (final.pre ++ '=' :: t₃) ≠ t₁ ++ '=' :: t₂ := by
  have hcolon : escapeTextChar ':' = [':'] := escapeTextChar_eq (by decide)
  have hequals : escapeTextChar '=' = ['='] := escapeTextChar_eq (by decide)
  have hname : escapeText final.pre = final.pre :=
    escapeText_eq_self fun c hc => escapeTextChar_of_isTagChar ((isTagName_of_isName hp).2 c hc)
  have hcons : ∀ (c : Char) (u : Text), escapeText (c :: u) = escapeTextChar c ++ escapeText u :=
    fun _ _ => rfl
  have heq : escapeText (t₁ ++ ':' :: (final.pre ++ '=' :: t₃))
      = escapeText t₁ ++ ':' :: (final.pre ++ '=' :: escapeText t₃) := by
    rw [escapeText_append, hcons, escapeText_append, hcons, hcolon, hequals, hname]
    rfl
  refine ⟨heq, fun hsame => ?_⟩
  have hescaped := congrArg (fun t => (escapeText t).length) hsame
  rw [heq, escapeText_append, hcons, hequals] at hescaped
  have hdisplay := congrArg List.length (display_eq (ne_nil_of_isName hp))
  simp only [List.length_append, List.length_cons, List.length_nil] at hescaped hdisplay
  omega

/-- A search that stops below the root changes one text there. -/
theorem move_below (hp : isName final.pre = true) (hpre : pre = [] ∨ isName pre = true)
    (hne : es ≠ []) (hes : ∀ e ∈ es, Uniform ns e)
    (ha : Quiet (needle final.uri <+: ·) a (closing tag pre es))
    (hmarkup : markupsIn pre es = y ++ (needle final.uri ++ z))
    (hy : Quiet (needle final.uri <+: ·) y
      (needle final.uri ++ (z ++ '<' :: '/' :: (tag ++ ['>'])))) :
    ∃ es', (∀ e ∈ es', Uniform ns e) ∧ outlineAll es' ≠ outlineAll es
      ∧ moveDeclaration final (a ++ closing tag pre es) = a ++ closing tag pre es' := by
  obtain ⟨slot, t₁, t₂, rfl, hbefore, hafter⟩ := slot_of_needle hpre hes hmarkup
  have htagged : Slot.StartsWithTag (slot.after pre) := Slot.startsWithTag_after hpre hes
  obtain ⟨t₃, hdrop, hlen⟩ := dropDuplicate_slot htagged hafter ('<' :: '/' :: (tag ++ ['>']))
  obtain ⟨hescape, htext⟩ := escapeText_insert t₁ hp hlen
  have hx : 'x' ∈ t₁ := mem_of_mark hbefore
  refine ⟨slot.fill ns (t₁ ++ ':' :: (final.pre ++ '=' :: t₃)), Slot.uniform_fill hes,
    fun hout => ?_, ?_⟩
  · exact htext (Slot.eq_of_outlineAll_eq (blank_eq_false (by simp [hx]))
      (blank_eq_false (by simp [hx])) hout)
  · have hsplit : closing tag pre (slot.fill ns (t₁ ++ '=' :: t₂)) = (['>'] ++ y)
        ++ (needle final.uri ++ (z ++ '<' :: '/' :: (tag ++ ['>']))) := by
      rw [closing_of_ne_nil hne, hmarkup]
      simp
    have hquiet : Quiet (needle final.uri <+: ·) (['>'] ++ y)
        (needle final.uri ++ (z ++ '<' :: '/' :: (tag ++ ['>']))) :=
      Text.quiet_append.mpr ⟨quiet_needle_of_not_mem (by decide), hy⟩
    -- the text before the hit stays, with the mark at its end
    have hfilled : markupsIn pre (slot.fill ns (t₁ ++ ':' :: (final.pre ++ '=' :: t₃)))
        = (y ++ mark) ++ ':' :: (final.pre ++ '=' :: (escapeText t₃ ++ slot.after pre)) := by
      rw [slot.markupsIn_fill, hescape, hbefore]
      simp
    rw [move_append ha hsplit hquiet, display_eq (ne_nil_of_isName hp),
      closing_of_ne_nil (Slot.fill_ne_nil _ slot), hfilled]
    simp [← hdrop]

/-- **Below the root** either there is nothing to hit, or one text becomes another. -/
theorem move_closing (hp : isName final.pre = true) (hpre : pre = [] ∨ isName pre = true)
    (htag : IsTagName tag) (hes : ∀ e ∈ es, Uniform ns e)
    (ha : Quiet (needle final.uri <+: ·) a (closing tag pre es)) :
    (¬ needle final.uri <:+: markupsIn pre es
        ∧ moveDeclaration final (a ++ closing tag pre es) = a ++ closing tag pre es)
      ∨ (needle final.uri <:+: markupsIn pre es
        ∧ ∃ es', (∀ e ∈ es', Uniform ns e) ∧ outlineAll es' ≠ outlineAll es
          ∧ moveDeclaration final (a ++ closing tag pre es) = a ++ closing tag pre es') := by
  have hend : '"' ∈ needle final.uri := by simp [needle]
  have hclose := quote_not_mem_close htag
  have hstay : Quiet (needle final.uri <+: ·) (closing tag pre es) [] →
      moveDeclaration final (a ++ closing tag pre es) = a ++ closing tag pre es := by
    intro hquiet
    have hall : Quiet (needle final.uri <+: ·) (a ++ closing tag pre es) [] := by
      rw [Text.quiet_append, List.append_nil]
      exact ⟨ha, hquiet⟩
    exact moveDeclaration_eq_self (Text.not_infix_of_quiet hall (by simp [needle]))
  by_cases hempty : es = []
  · subst hempty
    refine .inl ⟨fun hi => ?_, hstay (quiet_needle_of_not_mem (by simp [closing]))⟩
    exact absurd (hi.subset hend) (by simp [markupsIn])
  rcases Text.quiet_or_exists (needle final.uri <+: ·) (markupsIn pre es)
      ('<' :: '/' :: (tag ++ ['>'])) with hq | ⟨y, n, hyn, -, hy, r, hr⟩
  · refine .inl ⟨Text.not_infix_of_quiet hq (by simp [needle]), hstay ?_⟩
    have hlast : Quiet (needle final.uri <+: ·) ('<' :: '/' :: (tag ++ ['>'])) [] :=
      Text.quiet_of_not_mem hend hclose (by simp)
    have hcl : closing tag pre es
        = ['>'] ++ (markupsIn pre es ++ '<' :: '/' :: (tag ++ ['>'])) := closing_of_ne_nil hempty _ _
    rw [hcl, Text.quiet_append, Text.quiet_append]
    refine ⟨quiet_needle_of_not_mem (by decide), ?_, hlast⟩
    rw [List.append_nil]
    exact hq
  · -- a hit ends in a quote, so it ends before the end tag of the root
    have hcut : n ++ '<' :: '/' :: (tag ++ ['>'])
        = (mark ++ '=' :: '"' :: final.uri) ++ '"' :: r := by
      rw [← hr, needle_append]
      simp
    obtain ⟨z, rfl, hn⟩ := Text.cut_of_not_mem_right hclose hcut
    have hmarkup : markupsIn pre es = y ++ (needle final.uri ++ z) := by
      rw [hyn, hn, needle_append]
      simp
    rw [← hr] at hy
    exact .inr ⟨⟨y, z, by rw [hmarkup, List.append_assoc]⟩,
      move_below hp hpre hempty hes ha hmarkup hy⟩

/-! ## §5. The whole document. -/

/-- The declarations of the root: its own, and the prefix it gets in the end unless it has it. -/
def rootBindings (pre : Text) (final : Namespace) : List Namespace :=
  ⟨pre, final.uri⟩ :: (if final.pre = pre then [] else [final])

/-- The root declares two prefixes, or the one that it has. -/
theorem declares_rootBindings (hp : isName final.pre = true) (huri : final.uri ≠ [])
    (hpre : pre = [] ∨ isName pre = true) : Declares (rootBindings pre final) := by
  have hvalid : pre = [] ∨ IsTagName pre := hpre.imp_right isTagName_of_isName
  unfold rootBindings
  by_cases hsame : final.pre = pre
  · rw [if_pos hsame]
    exact declares_singleton hvalid huri
  · rw [if_neg hsame]
    exact declares_pair hvalid (.inr (isTagName_of_isName hp)) huri huri (Ne.symm hsame)

theorem mem_rootBindings (pre : Text) (final : Namespace) : final ∈ rootBindings pre final := by
  unfold rootBindings
  by_cases hsame : final.pre = pre
  · rw [← hsame]
    exact List.mem_cons_self
  · rw [if_neg hsame]
    exact List.mem_cons_of_mem _ (List.mem_singleton_self final)

/-- What moving the declaration makes of a document. -/
inductive Moved (ns : Option Namespace) (tag pre : Text) (final : Namespace) (es : List Element) :
    Text → Prop
  /-- The own declaration of the root gets the prefix; the other one goes. -/
  | own (hit : NameHit ⟨pre, final.uri⟩) :
      Moved ns tag pre final es (documentOf tag [⟨qualify pre final.pre, final.uri⟩] pre es)
  /-- Other declarations of the root, if anything, are changed; the prefix keeps its URI unless the
  search stops at the end of the value of its declaration. -/
  | kept (miss : ¬ NameHit ⟨pre, final.uri⟩) {bindings : List Namespace}
      (declares : Declares bindings) (own : pre ∈ bindings.map Namespace.pre)
      (root : pre = [] → final.pre ∈ bindings.map Namespace.pre)
      (bound : pre = [] ∨ pre = final.pre →
        (final ∈ bindings ↔ ¬ ValueHit final (closing tag pre es)))
      (cause : NameHit final ∨ ¬ needle final.uri <:+: markupsIn pre es) :
      Moved ns tag pre final es (documentOf tag bindings pre es)
  /-- A text below the root is changed. -/
  | altered (miss : ¬ NameHit ⟨pre, final.uri⟩) (miss_final : ¬ NameHit final)
      (hit : needle final.uri <:+: markupsIn pre es) {es' : List Element}
      (uniform : ∀ e ∈ es', Uniform ns e) (outlines : outlineAll es' ≠ outlineAll es) :
      Moved ns tag pre final es (documentOf tag (rootBindings pre final) pre es')

theorem quiet_opening (htag : IsTagName tag) (s : Text) :
    Quiet (needle uri <+: ·) (opening tag) (' ' :: s) := by
  have hline : declarationLine
      = "<?xml".toList ++ (' ' :: "version=\"1.0\" encoding=\"UTF-8\"?>\n".toList) := by decide
  have hneedle : needle uri = "xml".toList ++ 'n' :: ('s' :: '=' :: '"' :: (uri ++ ['"'])) := rfl
  -- the xml of the first line does not go on with an n, and no name with an equals sign
  rw [opening, hline, List.append_assoc, Text.quiet_append, Text.quiet_append]
  refine ⟨?_, quiet_needle_of_not_mem (by decide), ?_⟩
  · rw [hneedle]
    exact Text.quiet_of_stop (by decide) (by decide) (by decide)
  · refine Text.quiet_of_stop (fun hmem => ?_) (by decide) (by decide)
    rcases List.mem_cons.mp hmem with hmem | hmem
    · exact absurd hmem (by decide)
    · exact htag.not_mem (by decide) hmem

/-- What follows the declarations goes up to a bracket, with no quote before it. -/
theorem closing_eq (tag pre : Text) (es : List Element) :
    ∃ w z, closing tag pre es = w ++ '>' :: z ∧ '>' ∉ w ∧ '"' ∉ w := by
  unfold closing
  split
  next => exact ⟨['/'], [], rfl, by decide, by decide⟩
  next => exact ⟨[], _, rfl, by decide, by decide⟩

/-- A tag that only ends has nothing to drop. -/
theorem dropDuplicate_closing (final : Namespace) (tag pre : Text) (es : List Element) :
    dropDuplicate final (closing tag pre es) = closing tag pre es := by
  obtain ⟨w, z, hcl, hbracket, hquote⟩ := closing_eq tag pre es
  rw [hcl]
  refine dropDuplicate_of_count hbracket ?_
  rw [List.count_eq_zero.mpr hquote]
  exact Nat.zero_lt_two

/-- A second declaration of the prefix is dropped when the URI is plain. -/
theorem dropDuplicate_attribute (hp : isName final.pre = true) (hplain : Plain final.uri)
    (tag pre : Text) (es : List Element) :
    dropDuplicate final (final.attribute.write ++ closing tag pre es) = closing tag pre es := by
  obtain ⟨w, z, hcl, hbracket, -⟩ := closing_eq tag pre es
  have hwrite : final.attribute.write = ' ' :: final.display := by
    rw [attribute_write, hplain, Namespace.display]
    simp
  have hname := Namespace.isTagName_declarationName (.inr (isTagName_of_isName hp))
  have hdisplay : '>' ∉ ' ' :: final.display := by
    have huri : '>' ∉ final.uri := by
      rw [← hplain]
      exact not_mem_escapeValue (.inr (.inl rfl)) final.uri
    have hdecl : '>' ∉ final.declarationName := hname.not_mem (by decide)
    simp [Namespace.display, huri, hdecl]
  have hpast : '>' ∉ ' ' :: final.display ++ w := by
    rw [List.mem_append, not_or]
    exact ⟨hdisplay, hbracket⟩
  rw [hwrite, hcl, ← List.append_assoc]
  unfold dropDuplicate
  rw [takeWhile_bracket hpast, dropWhile_bracket hpast, replaceFirst, Text.cutFirst?_self_append]
  rfl

/-- A hit that reaches from the value of one declaration into the next one needs a URI that is that
declaration up to its value. -/
theorem nameHit_of_attribute {r : Text} (hp : isName final.pre = true)
    (hvalue : mark ++ ['='] <:+ escapeValue final.uri)
    (h : final.attribute.write ++ closing tag pre es = final.uri ++ '"' :: r) :
    NameHit final ∧ dropDuplicate final r = r := by
  have hname := Namespace.isTagName_declarationName (.inr (isTagName_of_isName hp))
  have hquote : '"' ∉ ' ' :: (final.declarationName ++ ['=']) := by
    have hdecl : '"' ∉ final.declarationName := hname.not_mem (by decide)
    simp [hdecl]
  have hquote' : '"' ∉ escapeValue final.uri := not_mem_escapeValue (.inr (.inr rfl)) _
  have hcut : ' ' :: (final.declarationName ++ ['='])
      ++ '"' :: (escapeValue final.uri ++ '"' :: closing tag pre es) = final.uri ++ '"' :: r := by
    rw [← h, attribute_write]
    simp
  obtain ⟨x', hx, hrest⟩ := Text.cut_of_not_mem_left hquote hcut
  -- the quote behind the URI is the first one in the tag, or the URI would be longer than itself
  cases x' with
  | cons c x' =>
      obtain ⟨x'', rfl, -⟩ := Text.cut_of_not_mem_left hquote' (List.cons.inj hrest).2
      have hlen := congrArg List.length hx
      have hle := length_le_escapeValue final.uri
      simp only [List.length_append, List.length_cons, List.length_nil] at hlen
      omega
  | nil =>
      rw [List.append_nil] at hx
      have hplain : Plain final.uri := by
        unfold Plain
        rw [hx]
        refine escapeValue_eq_self fun c hc => ?_
        simp only [List.mem_cons, List.mem_append, List.not_mem_nil, or_false] at hc
        rcases hc with rfl | hc | rfl
        · exact escapeValueChar_eq (by decide)
        · exact escapeValueChar_of_isTagChar (hname.2 c hc)
        · exact escapeValueChar_eq (by decide)
      have hsuffix : mark <:+ final.declarationName := by
        rw [hplain, hx] at hvalue
        obtain ⟨y, hy⟩ := hvalue
        have hy' : (y ++ mark) ++ ['='] = (' ' :: final.declarationName) ++ ['='] := by
          rw [List.append_assoc]
          exact hy
        have hmark : mark <:+ ' ' :: final.declarationName := ⟨y, List.append_cancel_right hy'⟩
        rcases List.suffix_cons_iff.mp hmark with heq | hsuffix
        · exact absurd (List.cons.inj heq).1 (by decide)
        · exact hsuffix
      refine ⟨⟨hplain, hsuffix⟩, ?_⟩
      obtain ⟨w, z, hcl, hbracket, hw⟩ := closing_eq tag pre es
      have hr : r = (escapeValue final.uri ++ '"' :: w) ++ '>' :: z := by
        rw [← (List.cons.inj hrest).2, hcl]
        simp
      rw [hr]
      refine dropDuplicate_of_count ?_ ?_
      · simp [hbracket, not_mem_escapeValue (.inr (.inl rfl)) final.uri]
      · rw [List.count_append, List.count_cons_self, List.count_eq_zero.mpr hquote',
          List.count_eq_zero.mpr hw]
        exact Nat.one_lt_two

/-- A hit that reaches from the tag of the root into what follows needs a URI that begins with a
bracket; such a URI is not hit below the root. -/
theorem bracket_of_closing {r : Text} (hpre : pre = [] ∨ isName pre = true)
    (hes : ∀ e ∈ es, Uniform ns e) (hne : uri ≠ []) (h : closing tag pre es = uri ++ '"' :: r) :
    '>' ∈ uri ∧ ¬ needle uri <:+: markupsIn pre es := by
  obtain ⟨u, rfl⟩ : ∃ u, uri = '>' :: u := by
    cases uri with
    | nil => exact absurd rfl hne
    | cons c u =>
        unfold closing at h
        split at h
        next =>
          have hmem : '"' ∈ ['/', '>'] := by rw [h]; simp
          exact absurd hmem (by decide)
        next => exact ⟨u, by rw [(List.cons.inj h).1]⟩
  refine ⟨by simp, fun hi => ?_⟩
  obtain ⟨y, z, hyz, -⟩ := Text.exists_quiet_of_infix hi
  obtain ⟨slot, t₁, t₂, hfill, -, hafter⟩ := slot_of_needle hpre hes hyz
  rw [← hfill] at hes
  obtain ⟨w, r', hw, -, -⟩ := (Slot.startsWithTag_after hpre hes).exists_tag
  rw [hw] at hafter
  -- the quote is in the text, and neither a text nor a tag begins with the bracket
  cases t₂ with
  | nil => exact absurd (List.cons.inj hafter).1 (by decide)
  | cons c t₂ =>
      have hcut : escapeText (c :: t₂) ++ '<' :: (w ++ '>' :: r') = ['"'] ++ '>' :: (u ++ '"' :: z) :=
        hafter.symm
      obtain ⟨x', hx, htag⟩ := Text.cut_of_not_mem_left (not_mem_escapeText (.inr rfl) (c :: t₂)) hcut
      cases x' with
      | nil => exact absurd (List.cons.inj htag).1 (by decide)
      | cons d x' =>
          have hlen := congrArg List.length hx
          have hpos : escapeText (c :: t₂) ≠ [] := fun hnil => by
            exact absurd (escapeText_eq_nil.mp hnil) (by simp)
          have hpos' := List.length_pos_iff.mpr hpos
          simp only [List.length_append, List.length_cons, List.length_nil] at hlen
          omega

/-- A search that passed the tag of the root leaves the document as it is or changes one text. -/
theorem moved_of_quiet {front : Text} (hp : isName final.pre = true) (huri : final.uri ≠ [])
    (hpre : pre = [] ∨ isName pre = true) (htag : IsTagName tag) (hes : ∀ e ∈ es, Uniform ns e)
    (hdoc : ∀ es', documentOf tag (rootBindings pre final) pre es' = front ++ closing tag pre es')
    (hfront : Quiet (needle final.uri <+: ·) front (closing tag pre es))
    (hown : ¬ NameHit ⟨pre, final.uri⟩) (hfinal : ¬ NameHit final)
    (hvalue : ¬ ValueHit final (closing tag pre es)) :
    Moved ns tag pre final es
      (moveDeclaration final (documentOf tag (rootBindings pre final) pre es)) := by
  rcases move_closing hp hpre htag hes hfront with
    ⟨hmiss, hmove⟩ | ⟨hhit, es', hes', hout, hmove⟩
  · rw [hdoc, hmove, ← hdoc]
    exact .kept hown (declares_rootBindings hp huri hpre) (by simp [rootBindings])
      (fun _ => List.mem_map_of_mem (mem_rootBindings pre final))
      (fun _ => iff_of_true (mem_rootBindings pre final) hvalue) (.inr hmiss)
  · rw [hdoc, hmove, ← hdoc]
    exact .altered hown hfinal hhit hes' hout

theorem quiet_opening_attribute (htag : IsTagName tag) (b : Namespace) (s : Text) :
    Quiet (needle uri <+: ·) (opening tag) (b.attribute.write ++ s) := by
  rw [attribute_write]
  exact quiet_opening htag _

/-- The root has the prefix from the start, so it has one declaration. -/
theorem moved_singleton (hp : isName final.pre = true) (huri : final.uri ≠ [])
    (htag : IsTagName tag) (hes : ∀ e ∈ es, Uniform ns e) :
    Moved ns tag final.pre final es
      (moveDeclaration final (documentOf tag (rootBindings final.pre final) final.pre es)) := by
  have hvalid : final.pre = [] ∨ IsTagName final.pre := .inr (isTagName_of_isName hp)
  have hbindings : rootBindings final.pre final = [final] := by
    rw [rootBindings, if_pos rfl]
  have hdoc := documentOf_singleton tag
  rcases move_attribute hp rfl hvalid (quiet_opening_attribute htag final
      (closing tag final.pre es)) with
    ⟨hq, hmiss, hvalue⟩ | ⟨hhit, hmove⟩ | ⟨hmiss, hends, r, hr, hmove⟩
  · refine moved_of_quiet hp huri (.inr hp) htag hes (fun es' => ?_) hq hmiss hmiss hvalue
    rw [hbindings, hdoc, List.append_assoc]
  · rw [hbindings, hdoc, hmove, dropDuplicate_closing, ← hdoc]
    exact .own hhit
  · obtain ⟨hbracket, hbody⟩ := bracket_of_closing (.inr hp) hes huri hr
    obtain ⟨u, hu, hne, hmoved⟩ := hmove (dropDuplicate_of_bracket hbracket)
    rw [hbindings, hdoc, hmoved, ← hdoc]
    refine .kept hmiss (declares_singleton hvalid hu) (by simp) (by simp) (fun _ => ?_) (.inr hbody)
    refine iff_of_false (fun hmem => ?_) (fun hnone => hnone ⟨hends, r, by simp [hr]⟩)
    exact hne (congrArg Namespace.uri (List.mem_singleton.mp hmem)).symm

/-- The root has another prefix, so it has two declarations. -/
theorem moved_pair (hp : isName final.pre = true) (huri : final.uri ≠ [])
    (hpre : pre = [] ∨ isName pre = true) (hne : pre ≠ final.pre) (htag : IsTagName tag)
    (hes : ∀ e ∈ es, Uniform ns e) :
    Moved ns tag pre final es
      (moveDeclaration final (documentOf tag (rootBindings pre final) pre es)) := by
  have htagp : IsTagName final.pre := isTagName_of_isName hp
  have hvalid : pre = [] ∨ IsTagName pre := hpre.imp_right isTagName_of_isName
  have hbindings : rootBindings pre final = [⟨pre, final.uri⟩, final] := by
    rw [rootBindings, if_neg (Ne.symm hne)]
  have hdoc := documentOf_pair tag
  -- first the own declaration of the root, then the other one, then what is below
  rcases move_attribute (b := ⟨pre, final.uri⟩) hp rfl hvalid (quiet_opening_attribute htag _
      (final.attribute.write ++ closing tag pre es)) with
    ⟨hq, hmiss, -⟩ | ⟨hhit, hmove⟩ | ⟨hmiss, hvalue, r, hr, hmove⟩
  · rcases move_attribute hp rfl (.inr htagp) hq with
      ⟨hq', hmiss', hvalue⟩ | ⟨hhit, hmove⟩ | ⟨-, hends, r, hr, hmove⟩
    · refine moved_of_quiet hp huri hpre htag hes (fun es' => ?_) hq' hmiss hmiss' hvalue
      rw [hbindings, hdoc, List.append_assoc, List.append_assoc]
    · -- the prefix is put behind itself, which binds a prefix that no tag has
      have hqual : qualify final.pre final.pre = final.pre ++ ':' :: final.pre := by
        simp [qualify, ne_nil_of_isName hp]
      have hnepre : pre ≠ qualify final.pre final.pre := by
        rw [hqual]
        rintro rfl
        rcases hpre with h | h
        · exact absurd h (by simp)
        · exact colon_not_mem_of_isName h (by simp)
      have htagq : IsTagName (qualify final.pre final.pre) := by
        rw [hqual]
        exact htagp.colon htagp
      have hnil : pre ≠ [] := by
        rintro rfl
        exact hmiss ⟨hhit.1, [], rfl⟩
      rw [dropDuplicate_closing, List.append_assoc, List.append_assoc] at hmove
      rw [hbindings, hdoc, hmove, ← hdoc]
      exact .kept hmiss (declares_pair hvalid (.inr htagq) huri huri hnepre) (by simp)
        (fun h => absurd h hnil) (fun h => absurd h (not_or_intro hnil hne)) (.inl hhit)
    · obtain ⟨hbracket, hbody⟩ := bracket_of_closing hpre hes huri hr
      obtain ⟨u, hu, hneuri, hmoved⟩ := hmove (dropDuplicate_of_bracket hbracket)
      rw [List.append_assoc, List.append_assoc] at hmoved
      rw [hbindings, hdoc, hmoved, ← hdoc]
      refine .kept hmiss (declares_pair hvalid (.inr htagp) huri hu hne) (by simp) (by simp)
        (fun _ => ?_) (.inr hbody)
      refine iff_of_false (fun hmem => ?_) (fun hnone => hnone ⟨hends, r, by simp [hr]⟩)
      rcases List.mem_pair.mp hmem with heq | heq
      · exact hne (congrArg Namespace.pre heq).symm
      · exact hneuri (congrArg Namespace.uri heq).symm
  · rw [hbindings, hdoc, hmove, dropDuplicate_attribute hp hhit.1, ← documentOf_singleton]
    exact .own hhit
  · obtain ⟨hfinal, hdrop⟩ := nameHit_of_attribute hp hvalue hr
    obtain ⟨u, hu, -, hmoved⟩ := hmove hdrop
    have hnil : pre ≠ [] := by
      rintro rfl
      exact hmiss ⟨hfinal.1, [], rfl⟩
    rw [hbindings, hdoc, hmoved, ← hdoc]
    exact .kept hmiss (declares_pair hvalid (.inr htagp) hu huri hne) (by simp) (by simp)
      (fun h => absurd h (not_or_intro hnil hne)) (.inl hfinal)

/-- **MOVING THE DECLARATION, IN ALL CASES.** -/
theorem moved_documentOf (hp : isName final.pre = true) (huri : final.uri ≠ [])
    (hpre : pre = [] ∨ isName pre = true) (htag : IsTagName tag) (hes : ∀ e ∈ es, Uniform ns e) :
    Moved ns tag pre final es
      (moveDeclaration final (documentOf tag (rootBindings pre final) pre es)) := by
  by_cases hne : pre = final.pre
  · rw [hne]
    exact moved_singleton hp huri htag hes
  · exact moved_pair hp huri hpre hne htag hes

end Crosswalk.Engine
