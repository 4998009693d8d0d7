/-
  Crosswalk.Proofs.Markup.Tag
  ──────────────────────────────────────
  **WRITTEN TAGS AND THEIR PIECES.**

  A written start tag is a name and attributes with escaped values
  (`tagBody`).  Its quotes are balanced and hide every bracket (`Sealed`), so
  the scanner cuts it where the writer ended it, and the attributes are read
  back in order.  That asks little of the name of the tag (`OpensTag`) and of
  the names of the attributes (`IsKey`); the names of the writer (`IsTagName`)
  are such names:

    • `scan_startTag`, `scan_emptyTag`, `scan_endTag`, `scan_text`: the piece
      at the front of what was written,
    • `tagName_tagBody`, `tagAttributes_tagBody`: what is read in a tag.
-/
import Mathlib.Data.List.TakeWhile
import Crosswalk.Proofs.Markup.Escape
import Crosswalk.Markup.Tag
import Crosswalk.Markup.Writer

namespace Crosswalk.Markup

/-! ## §1. Characters of names. -/

/-- A character that may stand in the name of a tag or an attribute. -/
def isTagChar (c : Char) : Bool :=
  isNameChar c || c == ':'

/-- A text that can be the name of a tag or an attribute. -/
def IsTagName (s : Text) : Prop :=
  s ≠ [] ∧ ∀ c ∈ s, isTagChar c = true

theorem ne_of_isTagChar {c x : Char} (hc : isTagChar c = true) (hx : isTagChar x = false) :
    c ≠ x := by
  rintro rfl
  rw [hc] at hx
  exact absurd hx (by decide)

/-- A character of no name is in no name. -/
theorem IsTagName.not_mem {s : Text} (hs : IsTagName s) {x : Char} (hx : isTagChar x = false) :
    x ∉ s := by
  intro hmem
  exact ne_of_isTagChar (hs.2 x hmem) hx rfl

theorem not_mem_of_isTagChar {c : Char} (hc : isTagChar c = true) {s : Text}
    (hs : s.all (fun x => !isTagChar x) = true) : c ∉ s := by
  intro hmem
  have hnot := List.all_eq_true.mp hs c hmem
  rw [hc] at hnot
  exact absurd hnot (by decide)

theorem escapeTextChar_of_isTagChar {c : Char} (hc : isTagChar c = true) : escapeTextChar c = [c] :=
  escapeTextChar_eq (not_mem_of_isTagChar hc (by decide))

theorem escapeValueChar_of_isTagChar {c : Char} (hc : isTagChar c = true) :
    escapeValueChar c = [c] :=
  escapeValueChar_eq (not_mem_of_isTagChar hc (by decide))

theorem not_isSpace_of_isTagChar {c : Char} (hc : isTagChar c = true) : isSpace c = false := by
  have h₁ := ne_of_isTagChar hc (x := ' ') (by decide)
  have h₂ := ne_of_isTagChar hc (x := '\t') (by decide)
  have h₃ := ne_of_isTagChar hc (x := '\n') (by decide)
  have h₄ := ne_of_isTagChar hc (x := '\r') (by decide)
  simp [isSpace, h₁, h₂, h₃, h₄]

/-- The code points of white space. -/
def blankCodes : List Nat :=
  List.range' 0x09 5 ++ List.range' 0x2000 11
    ++ [0x20, 0x85, 0xA0, 0x1680, 0x2028, 0x2029, 0x202F, 0x205F, 0x3000]

theorem not_isBlank_of_isTagChar {c : Char} (hc : isTagChar c = true) : Text.isBlank c = false := by
  -- no name character is blank: the blanks are few, the letters are not
  have hcodes : ∀ n ∈ blankCodes, isTagChar (Char.ofNat n) = false := by decide +kernel
  by_contra hblank
  rw [Bool.not_eq_false] at hblank
  have hmem : c.toNat ∈ blankCodes := by
    simp only [Text.isBlank, Bool.or_eq_true, Bool.and_eq_true, decide_eq_true_eq, beq_iff_eq]
      at hblank
    simp only [blankCodes, List.mem_append, List.mem_range'_1, List.mem_cons, List.not_mem_nil,
      or_false]
    omega
  have hfalse := hcodes _ hmem
  rw [Char.ofNat_toNat, hc] at hfalse
  exact absurd hfalse (by decide)

theorem isNameChar_of_isLetter {c : Char} (hc : Text.isLetter c = true) : isNameChar c = true := by
  have h : Text.isLetterOrDigit c = true := by
    unfold Text.isLetter at hc
    unfold Text.isLetterOrDigit
    split at hc
    next hlt => rw [if_pos hlt, Char.isAlphanum, hc, Bool.true_or]
    next hlt => rw [if_neg hlt, hc, Bool.true_or]
  simp [isNameChar, h]

/-- All characters of a name are name characters. -/
theorem isNameChar_of_mem {s : Text} (hs : isName s = true) : ∀ c ∈ s, isNameChar c = true := by
  cases s with
  | nil => exact absurd hs (by decide)
  | cons c cs =>
      simp only [isName, Bool.and_eq_true, Bool.or_eq_true, beq_iff_eq, List.all_eq_true] at hs
      obtain ⟨hc, hcs⟩ := hs
      intro x hx
      rcases List.mem_cons.mp hx with rfl | hx
      · rcases hc with hc | rfl
        · exact isNameChar_of_isLetter hc
        · decide
      · exact hcs x hx

theorem ne_nil_of_isName {s : Text} (hs : isName s = true) : s ≠ [] := by
  rintro rfl
  exact absurd hs (by decide)

theorem colon_not_mem_of_isName {s : Text} (hs : isName s = true) : ':' ∉ s := fun h =>
  absurd (isNameChar_of_mem hs ':' h) (by decide)

theorem isTagName_of_isName {s : Text} (hs : isName s = true) : IsTagName s :=
  ⟨ne_nil_of_isName hs, fun c hc => by simp [isTagChar, isNameChar_of_mem hs c hc]⟩

theorem IsTagName.colon {p s : Text} (hp : IsTagName p) (hs : IsTagName s) :
    IsTagName (p ++ ':' :: s) := by
  refine ⟨by simp, fun c hc => ?_⟩
  rcases List.mem_append.mp hc with hc | hc
  · exact hp.2 c hc
  · rcases List.mem_cons.mp hc with rfl | hc
    · decide
    · exact hs.2 c hc

/-! ## §2. What the reader asks of the names in a tag. -/

/-- A character that neither ends a name in a tag nor hides or ends the tag. -/
def isPlain (c : Char) : Bool :=
  !isSpace c && c != '>' && c != '"' && c != '\''

/-- A text that is read as the name of a tag when it stands behind a bracket. -/
structure OpensTag (s : Text) : Prop where
  plain : ∀ c ∈ s, isPlain c = true
  nonempty : s ≠ []
  head : ∀ c ∈ s.head?, c ∉ ['!', '?', '/']
  last : s.getLast? ≠ some '/'

/-- A text that is read as the name of an attribute. -/
structure IsKey (s : Text) : Prop where
  plain : ∀ c ∈ s, isPlain c = true
  nonempty : s ≠ []
  tail : '=' ∉ s.tail

theorem not_isSpace_of_isPlain {c : Char} (hc : isPlain c = true) : isSpace c = false := by
  unfold isPlain at hc
  simp only [Bool.and_eq_true, Bool.not_eq_eq_eq_not, Bool.not_true] at hc
  exact hc.1.1.1

theorem isPlain_of_isTagChar {c : Char} (hc : isTagChar c = true) : isPlain c = true := by
  simp [isPlain, not_isSpace_of_isTagChar hc, ne_of_isTagChar hc (x := '>') (by decide),
    ne_of_isTagChar hc (x := '"') (by decide), ne_of_isTagChar hc (x := '\'') (by decide)]

theorem IsTagName.opensTag {s : Text} (hs : IsTagName s) : OpensTag s where
  plain c hc := isPlain_of_isTagChar (hs.2 c hc)
  nonempty := hs.1
  head c hc := by
    have hall := not_mem_of_isTagChar (hs.2 c (List.mem_of_head? hc)) (s := ['!', '?', '/'])
    exact hall (by decide)
  last h := hs.not_mem (by decide) (List.mem_of_getLast? h)

theorem IsTagName.isKey {s : Text} (hs : IsTagName s) : IsKey s where
  plain c hc := isPlain_of_isTagChar (hs.2 c hc)
  nonempty := hs.1
  tail h := hs.not_mem (x := '=') (by decide) (List.mem_of_mem_tail h)

/-! ## §3. Start tags and attributes as they are written. -/

/-- An attribute after a space, with its value escaped. -/
def Attribute.write (a : Attribute) : Text :=
  writeAttribute a.name a.value

/-- A start tag without its brackets. -/
def tagBody (tag : Text) (attrs : List Attribute) : Text :=
  tag ++ attrs.flatMap Attribute.write

theorem Attribute.write_eq (a : Attribute) :
    a.write = ' ' :: (a.name ++ '=' :: '"' :: (escapeValue a.value ++ ['"'])) := by
  simp [Attribute.write, writeAttribute]

/-! ## §4. Where a tag ends. -/

/-- Outside quotes before and behind it, and with no bracket outside quotes in it: a tag goes on
behind such a text as if it began there. -/
def Sealed (a : Text) : Prop :=
  ∀ s, cutTag none (a ++ s) = (cutTag none s).map (fun (body, rest) => (a ++ body, rest))

theorem sealed_nil : Sealed [] := by
  intro s
  cases h : cutTag none s <;> simp [h]

theorem Sealed.append {a b : Text} (ha : Sealed a) (hb : Sealed b) : Sealed (a ++ b) := by
  intro s
  rw [List.append_assoc, ha, hb, Option.map_map]
  congr 1
  funext p
  simp

theorem sealed_singleton {c : Char} (h₁ : c ≠ '>') (h₂ : c ≠ '"') (h₃ : c ≠ '\'') :
    Sealed [c] := by
  intro s
  rw [List.singleton_append, cutTag, if_neg (by simp [h₁])]
  simp [h₂, h₃]

theorem sealed_of_plain : ∀ {a : Text}, (∀ c ∈ a, c ≠ '>' ∧ c ≠ '"' ∧ c ≠ '\'') → Sealed a
  | [], _ => sealed_nil
  | c :: a, h => by
      obtain ⟨h₁, h₂, h₃⟩ := h c List.mem_cons_self
      have ha : Sealed a := sealed_of_plain (fun x hx => h x (List.mem_cons_of_mem c hx))
      exact (sealed_singleton h₁ h₂ h₃).append ha

theorem sealed_of_isPlain {s : Text} (hs : ∀ c ∈ s, isPlain c = true) : Sealed s := by
  apply sealed_of_plain
  intro c hc
  have h := hs c hc
  unfold isPlain at h
  simp only [Bool.and_eq_true, bne_iff_ne] at h
  exact ⟨h.1.1.2, h.1.2, h.2⟩

/-- Inside double quotes everything up to the next one belongs to the tag. -/
theorem cutTag_quoted : ∀ {v : Text}, '"' ∉ v → ∀ (s : Text),
    cutTag (some '"') (v ++ '"' :: s)
      = (cutTag none s).map (fun (body, rest) => (v ++ '"' :: body, rest))
  | [], _, s => by
      rw [List.nil_append, cutTag, if_neg (by simp)]
      rfl
  | c :: v, hv, s => by
      have hc : c ≠ '"' := fun h => hv (h ▸ List.mem_cons_self)
      have hv' : '"' ∉ v := fun h => hv (List.mem_cons_of_mem c h)
      rw [List.cons_append, cutTag, if_neg (by simp)]
      simp only [if_neg hc]
      rw [cutTag_quoted hv' s, Option.map_map]
      rfl

theorem sealed_quoted {v : Text} (hv : '"' ∉ v) : Sealed ('"' :: (v ++ ['"'])) := by
  intro s
  rw [List.cons_append, List.append_assoc, List.singleton_append, cutTag, if_neg (by decide)]
  show (cutTag (some '"') (v ++ '"' :: s)).map _ = _
  rw [cutTag_quoted hv s, Option.map_map]
  congr 1
  funext p
  simp

theorem Attribute.sealed_write {a : Attribute} (ha : IsKey a.name) : Sealed a.write := by
  have hq : '"' ∉ escapeValue a.value := not_mem_escapeValue (.inr (.inr rfl)) a.value
  have h := (sealed_singleton (c := ' ') (by decide) (by decide) (by decide)).append
    ((sealed_of_isPlain ha.plain).append ((sealed_singleton (c := '=') (by decide) (by decide) (by decide)).append
      (sealed_quoted hq)))
  rw [a.write_eq]
  exact h

theorem sealed_flatMap_write : ∀ {attrs : List Attribute}, (∀ a ∈ attrs, IsKey a.name) →
    Sealed (attrs.flatMap Attribute.write)
  | [], _ => sealed_nil
  | a :: attrs, h => by
      rw [List.flatMap_cons]
      exact (Attribute.sealed_write (h a List.mem_cons_self)).append
        (sealed_flatMap_write (fun b hb => h b (List.mem_cons_of_mem a hb)))

theorem sealed_tagBody {tag : Text} {attrs : List Attribute} (ht : OpensTag tag)
    (ha : ∀ a ∈ attrs, IsKey a.name) : Sealed (tagBody tag attrs) :=
  (sealed_of_isPlain ht.plain).append (sealed_flatMap_write ha)

/-- A sealed text with the bracket behind it is a whole tag. -/
theorem Sealed.cutTag_eq {a : Text} (ha : Sealed a) (rest : Text) :
    cutTag none (a ++ '>' :: rest) = some (a, rest) := by
  rw [ha, cutTag, if_pos (by simp)]
  simp

/-! ## §5. The piece at the front of a written text. -/

theorem scan_cons {c : Char} (hc : c ≠ '<') (s : Text) :
    scan (c :: s) = .token (.text (c :: s.takeWhile (· != '<'))) (s.dropWhile (· != '<')) := by
  rw [scan, if_neg hc]

/-- A run of text reaches up to the next bracket. -/
theorem scan_text {t : Text} (hne : t ≠ []) (ht : '<' ∉ t) (rest : Text) :
    scan (t ++ '<' :: rest) = .token (.text t) ('<' :: rest) := by
  cases t with
  | nil => exact absurd rfl hne
  | cons c t =>
      have hc : c ≠ '<' := fun h => ht (h ▸ List.mem_cons_self)
      have hp : ∀ x ∈ t, (x != '<') = true :=
        Text.forall_bne_of_not_mem fun h => ht (List.mem_cons_of_mem c h)
      rw [List.cons_append, scan_cons hc, List.takeWhile_append_of_pos hp,
        List.dropWhile_append_of_pos hp]
      simp

/-- A run of text without a bracket behind it reaches up to the end. -/
theorem scan_text_end {t : Text} (hne : t ≠ []) (ht : '<' ∉ t) : scan t = .token (.text t) [] := by
  cases t with
  | nil => exact absurd rfl hne
  | cons c t =>
      have hc : c ≠ '<' := fun h => ht (h ▸ List.mem_cons_self)
      have hp : ∀ x ∈ t, (x != '<') = true :=
        Text.forall_bne_of_not_mem fun h => ht (List.mem_cons_of_mem c h)
      rw [scan_cons hc, List.takeWhile_eq_self_iff.mpr hp, List.dropWhile_eq_nil_iff.mpr hp]

/-- A bracket with the character of a name behind it begins a start tag or an empty element. -/
theorem scanMarkup_cons {c : Char} (hc : c ∉ ['!', '?', '/']) (s : Text) :
    scanMarkup (c :: s) = match cutTag none (c :: s) with
      | none => .fault .unclosedTag ('<' :: c :: s)
      | some (inner, rest) =>
        if inner.getLast? = some '/' then .token (.empty inner.dropLast) rest
        else .token (.start inner) rest := by
  have h₁ : c ≠ '!' := fun h => hc (by simp [h])
  have h₂ : c ≠ '?' := fun h => hc (by simp [h])
  have h₃ : c ≠ '/' := fun h => hc (by simp [h])
  unfold scanMarkup
  split
  next h => exact absurd h (by simp)
  next h => exact absurd (List.cons.inj h).1 h₁
  next h => exact absurd (List.cons.inj h).1 h₂
  next h => exact absurd (List.cons.inj h).1 h₃
  next => rfl

theorem Attribute.getLast?_write (a : Attribute) : a.write.getLast? = some '"' := by
  unfold Attribute.write writeAttribute
  exact List.getLast?_concat

/-- A written start tag does not end in a slash. -/
theorem getLast?_tagBody_ne {tag : Text} {attrs : List Attribute} (ht : OpensTag tag) :
    (tagBody tag attrs).getLast? ≠ some '/' := by
  unfold tagBody
  -- it ends in a character of its name or in the quote of its last attribute
  rcases List.eq_nil_or_concat' attrs with rfl | ⟨init, a, rfl⟩
  · rw [List.flatMap_nil, List.append_nil]
    exact ht.last
  · rw [List.flatMap_append, ← List.append_assoc, List.flatMap_singleton, List.getLast?_append,
      a.getLast?_write]
    simp

/-- A text that is the body of one tag when it stands between brackets. -/
structure IsBody (s : Text) : Prop where
  sealed : Sealed s
  nonempty : s ≠ []
  head : ∀ c ∈ s.head?, c ∉ ['!', '?', '/']
  last : s.getLast? ≠ some '/'

section

variable {s : Text}

/-- A tag that is neither an end tag nor one of the other pieces: that of an empty element when it
ends in a slash, and a start tag otherwise. -/
theorem scan_of_cutTag {inner rest : Text} (hhead : ∀ c ∈ s.head?, c ∉ ['!', '?', '/'])
    (hcut : cutTag none s = some (inner, rest)) :
    scan ('<' :: s)
      = if inner.getLast? = some '/' then .token (.empty inner.dropLast) rest
        else .token (.start inner) rest := by
  cases s with
  | nil => cases hcut
  | cons c s => rw [scan, if_pos rfl, scanMarkup_cons (hhead c rfl), hcut]

/-- A sealed text between brackets is one piece. -/
theorem scan_sealed (hs : Sealed s) (hne : s ≠ []) (hhead : ∀ c ∈ s.head?, c ∉ ['!', '?', '/'])
    (rest : Text) :
    scan ('<' :: (s ++ '>' :: rest))
      = if s.getLast? = some '/' then .token (.empty s.dropLast) rest
        else .token (.start s) rest := by
  refine scan_of_cutTag ?_ (hs.cutTag_eq rest)
  obtain ⟨c, s, rfl⟩ := List.exists_cons_of_ne_nil hne
  exact hhead

theorem IsBody.scan_start (h : IsBody s) (rest : Text) :
    scan ('<' :: (s ++ '>' :: rest)) = .token (.start s) rest := by
  rw [scan_sealed h.sealed h.nonempty h.head, if_neg h.last]

theorem IsBody.scan_empty (h : IsBody s) (rest : Text) :
    scan ('<' :: (s ++ '/' :: '>' :: rest)) = .token (.empty s) rest := by
  -- the slash is cut with the tag and taken off it afterwards
  have hs : Sealed (s ++ ['/']) :=
    h.sealed.append (sealed_singleton (by decide) (by decide) (by decide))
  have hhead : (s ++ ['/']).head? = s.head? := by
    cases s with
    | nil => exact absurd rfl h.nonempty
    | cons c s => rfl
  have hassoc : s ++ '/' :: '>' :: rest = (s ++ ['/']) ++ '>' :: rest := by simp
  rw [hassoc, scan_sealed hs (by simp) (by rw [hhead]; exact h.head)]
  simp

end

/-- A written start tag is the body of a tag. -/
theorem OpensTag.isBody {tag : Text} {attrs : List Attribute} (ht : OpensTag tag)
    (ha : ∀ a ∈ attrs, IsKey a.name) : IsBody (tagBody tag attrs) where
  sealed := sealed_tagBody ht ha
  nonempty h := ht.nonempty (List.append_eq_nil_iff.mp h).1
  head := by
    have hhead : (tagBody tag attrs).head? = tag.head? := by
      unfold tagBody
      cases tag with
      | nil => exact absurd rfl ht.nonempty
      | cons c tag => rfl
    rw [hhead]
    exact ht.head
  last := getLast?_tagBody_ne ht

/-- **A written start tag is one piece.** -/
theorem scan_startTag {tag : Text} {attrs : List Attribute} (ht : OpensTag tag)
    (ha : ∀ a ∈ attrs, IsKey a.name) (rest : Text) :
    scan ('<' :: (tagBody tag attrs ++ '>' :: rest)) = .token (.start (tagBody tag attrs)) rest :=
  (ht.isBody ha).scan_start rest

/-- **The written tag of an empty element is one piece.** -/
theorem scan_emptyTag {tag : Text} {attrs : List Attribute} (ht : OpensTag tag)
    (ha : ∀ a ∈ attrs, IsKey a.name) (rest : Text) :
    scan ('<' :: (tagBody tag attrs ++ '/' :: '>' :: rest))
      = .token (.empty (tagBody tag attrs)) rest :=
  (ht.isBody ha).scan_empty rest

/-- What begins with a bracket and a slash is an end tag, as far as it goes. -/
theorem scan_close (s : Text) : scan ('<' :: '/' :: s) = match cutTag none s with
    | none => .fault .unclosedTag ('<' :: '/' :: s)
    | some (inner, rest) => .token (.close inner) rest := rfl

/-- **A written end tag is one piece.** -/
theorem scan_endTag {tag : Text} (ht : OpensTag tag) (rest : Text) :
    scan ('<' :: '/' :: (tag ++ '>' :: rest)) = .token (.close tag) rest := by
  rw [scan_close, (sealed_of_isPlain ht.plain).cutTag_eq]

/-! ## §6. What is read in a start tag. -/

theorem takeWhile_append_stop {p : Char → Bool} {a : Text} (ha : ∀ c ∈ a, p c = true) {c : Char}
    (hc : p c = false) (s : Text) : (a ++ c :: s).takeWhile p = a := by
  rw [List.takeWhile_append_of_pos ha, List.takeWhile_cons_of_neg (by simp [hc]), List.append_nil]

theorem dropWhile_append_stop {p : Char → Bool} {a : Text} (ha : ∀ c ∈ a, p c = true) {c : Char}
    (hc : p c = false) (s : Text) : (a ++ c :: s).dropWhile p = c :: s := by
  rw [List.dropWhile_append_of_pos ha, List.dropWhile_cons_of_neg (by simp [hc])]

/-- A written attribute is found with its value still escaped, unless its name came before. -/
theorem nextAttribute_write {a : Attribute} (ha : IsKey a.name) (seen : List (Text × Nat))
    (size : Nat) (rest : Text) :
    ∃ pos, nextAttribute size seen (a.write ++ rest)
      = match seen.find? (·.1 = a.name) with
        | some (_, previous) => .fault (.duplicate pos previous)
        | none => .found a.name pos (escapeValue a.value) rest := by
  obtain ⟨name, value⟩ := a
  cases name with
  | nil => exact absurd rfl ha.nonempty
  | cons c name =>
      have hc : isSpace c = false := not_isSpace_of_isPlain (ha.plain c List.mem_cons_self)
      have hname : ∀ x ∈ name, (x != '=' && !isSpace x) = true := by
        intro x hx
        have hx' := not_isSpace_of_isPlain (ha.plain x (List.mem_cons_of_mem c hx))
        have hne : x ≠ '=' := fun h => ha.tail (h ▸ hx)
        simp [hx', hne]
      have hq : ∀ x ∈ escapeValue value, (x != '"') = true :=
        Text.forall_bne_of_not_mem (not_mem_escapeValue (.inr (.inr rfl)) value)
      refine ⟨size - Text.byteSize
        (c :: (name ++ '=' :: '"' :: (escapeValue value ++ '"' :: rest))), ?_⟩
      rw [Attribute.write_eq]
      unfold nextAttribute
      simp only [List.cons_append, List.append_assoc]
      rw [List.dropWhile_cons_of_pos (by decide), List.dropWhile_cons_of_neg (by simp [hc])]
      simp only
      rw [takeWhile_append_stop hname (by decide), dropWhile_append_stop hname (by decide),
        List.dropWhile_cons_of_neg (by decide)]
      simp only
      cases seen.find? (·.1 = c :: name) with
      | some p => rfl
      | none =>
          rw [List.dropWhile_cons_of_neg (by decide)]
          simp only [List.nil_append]
          rw [takeWhile_append_stop hq (by decide), dropWhile_append_stop hq (by decide)]
          simp only [true_or, if_true]

/-- **Written attributes with different names are read back.** -/
theorem readAttributes_write (size : Nat) : ∀ (attrs : List Attribute) (seen : List (Text × Nat)),
    (∀ a ∈ attrs, IsKey a.name) → (attrs.map Attribute.name).Nodup →
    (∀ a ∈ attrs, a.name ∉ seen.map Prod.fst) →
    readAttributes size seen (attrs.flatMap Attribute.write) = .ok attrs
  | [], seen, _, _, _ => by
      have hnil : nextAttribute size seen [] = .done := rfl
      rw [List.flatMap_nil, readAttributes]
      split <;> simp_all
  | a :: attrs, seen, ha, hd, hs => by
      -- where the attribute stands is only kept to report a second one of its name
      obtain ⟨pos, hnext⟩ := nextAttribute_write (ha a List.mem_cons_self) seen size
        (attrs.flatMap Attribute.write)
      have hseen : seen.find? (·.1 = a.name) = none := by
        rw [List.find?_eq_none]
        intro p hp heq
        exact hs a List.mem_cons_self (List.mem_map.mpr ⟨p, hp, by simpa using heq⟩)
      rw [hseen] at hnext
      obtain ⟨hfresh, hd'⟩ := List.nodup_cons.mp hd
      have ih := readAttributes_write size attrs ((a.name, pos) :: seen)
        (fun b hb => ha b (List.mem_cons_of_mem a hb)) hd' (by
          intro b hb hmem
          rcases List.mem_cons.mp hmem with heq | hmem
          · have heq' : b.name = a.name := heq
            exact hfresh (heq' ▸ List.mem_map_of_mem hb)
          · exact hs b (List.mem_cons_of_mem a hb) hmem)
      rw [List.flatMap_cons, readAttributes]
      split
      next h => rw [hnext] at h; exact absurd h (by simp)
      next h => rw [hnext] at h; exact absurd h (by simp)
      next name pos' raw rest h =>
        rw [hnext] at h
        simp only [AttributeScan.found.injEq] at h
        obtain ⟨rfl, rfl, rfl, rfl⟩ := h
        rw [unescape_escapeValue]
        simp only
        rw [ih]
        rfl

/-- When written attributes can be read at all, they are read as they were. -/
theorem eq_of_readAttributes_write {size : Nat} : ∀ {attrs read : List Attribute}
    {seen : List (Text × Nat)}, (∀ a ∈ attrs, IsKey a.name) →
    readAttributes size seen (attrs.flatMap Attribute.write) = .ok read → read = attrs
  | [], read, seen, _, h => by
      have hnil : nextAttribute size seen [] = .done := rfl
      rw [List.flatMap_nil, readAttributes] at h
      split at h <;> simp_all
  | a :: attrs, read, seen, ha, h => by
      obtain ⟨pos, hnext⟩ := nextAttribute_write (ha a List.mem_cons_self) seen size
        (attrs.flatMap Attribute.write)
      rw [List.flatMap_cons, readAttributes] at h
      split at h
      next hdone =>
        rw [hnext] at hdone
        split at hdone <;> exact absurd hdone (by simp)
      next => exact absurd h (by simp)
      next name pos' raw rest hfound =>
        rw [hnext] at hfound
        split at hfound
        next => exact absurd hfound (by simp)
        next =>
          obtain ⟨rfl, rfl, rfl, rfl⟩ := AttributeScan.found.inj hfound
          rw [unescape_escapeValue] at h
          simp only at h
          cases hrest : readAttributes size ((a.name, pos) :: seen)
              (attrs.flatMap Attribute.write) with
          | error f =>
              rw [hrest] at h
              exact absurd h (by simp [Except.map])
          | ok others =>
              rw [hrest] at h
              obtain rfl := Except.ok.inj h
              rw [eq_of_readAttributes_write (fun b hb => ha b (List.mem_cons_of_mem a hb)) hrest]

/-- What follows the name in a written start tag is empty or begins with a space. -/
theorem cutName_tagBody {tag : Text} (ht : OpensTag tag) (attrs : List Attribute) :
    (tagBody tag attrs).takeWhile (fun c => !isSpace c) = tag
      ∧ (tagBody tag attrs).dropWhile (fun c => !isSpace c) = attrs.flatMap Attribute.write := by
  have hp : ∀ c ∈ tag, (!isSpace c) = true := by
    intro c hc
    simp [not_isSpace_of_isPlain (ht.plain c hc)]
  unfold tagBody
  cases attrs with
  | nil =>
      rw [List.flatMap_nil, List.append_nil]
      exact ⟨List.takeWhile_eq_self_iff.mpr hp, List.dropWhile_eq_nil_iff.mpr hp⟩
  | cons a attrs =>
      rw [List.flatMap_cons, a.write_eq, List.cons_append]
      exact ⟨takeWhile_append_stop hp (by decide) _, dropWhile_append_stop hp (by decide) _⟩

/-- **The name of a written start tag.** -/
theorem tagName_tagBody {tag : Text} (ht : OpensTag tag) (attrs : List Attribute) :
    tagName (tagBody tag attrs) = tag :=
  (cutName_tagBody ht attrs).1

/-- **The attributes of a written start tag.** -/
theorem tagAttributes_tagBody {tag : Text} (ht : OpensTag tag) {attrs : List Attribute}
    (ha : ∀ a ∈ attrs, IsKey a.name) (hd : (attrs.map Attribute.name).Nodup) :
    tagAttributes (tagBody tag attrs) = .ok attrs := by
  unfold tagAttributes
  rw [(cutName_tagBody ht attrs).2]
  exact readAttributes_write _ attrs [] ha hd (by simp)

/-- The name in an end tag that ends in no white space. -/
theorem closeName_of_getLast? {s : Text} (h : ∀ c ∈ s.getLast?, isSpace c = false) :
    closeName s = s := by
  unfold closeName
  split
  next => rfl
  next =>
    cases hs : s.reverse with
    | nil => rw [List.dropWhile_nil, ← hs, List.reverse_reverse]
    | cons c cs =>
        have hc : c ∈ s.getLast? := by rw [← List.head?_reverse, hs]; rfl
        rw [List.dropWhile_cons_of_neg (by simp [h c hc]), ← hs, List.reverse_reverse]

/-- The name in a written end tag. -/
theorem closeName_of_opensTag {tag : Text} (ht : OpensTag tag) : closeName tag = tag :=
  closeName_of_getLast? fun c hc => not_isSpace_of_isPlain (ht.plain c (List.mem_of_getLast? hc))

end Crosswalk.Markup
