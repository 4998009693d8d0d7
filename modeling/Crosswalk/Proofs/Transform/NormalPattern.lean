/-
  Crosswalk.Proofs.Transform.NormalPattern
  ──────────────────────────────────────
  **THE LETTERS OF A DATE BETWEEN QUOTES.**

  A pattern with a time is normalized: every `T` is put between quotes, and so
  is a letter for the zone at the end.  Between these letters stand its groups
  of fields.  A letter between quotes prints itself, and a group prints what
  it prints on its own.  But where a group between two letters is empty, the
  quotes of the letters are next to each other, and are a doubled one:

    • `format_group`, `format_letter`, `format_letters`: groups and letters,
    • `normalizePattern_eq`: the groups and letters of a normalized pattern,
    • `format_behind`, `format_normalized`: what it prints,
    • `format_normalizePattern`: when that is the groups and the letters.
-/
import Mathlib.Data.List.Forall2
import Crosswalk.Proofs.Calendar.Pattern
import Crosswalk.Proofs.Text.Search
import Crosswalk.Proofs.Text.Steps
import Crosswalk.Transform.Evaluate

namespace Crosswalk.Transform

open Calendar

variable {t : Instant} {p q group : Text} {c : Char} {groups : List Text}

/-! ## §1. Groups of fields, and letters between quotes. -/

/-- A pattern without quotes does not end inside of them. -/
theorem unterminated_not_mem_parts : ∀ {p : Text}, '\'' ∉ p →
    Part.unterminated ∉ parts false p := by
  intro p
  induction p with
  | nil => intro _; simp [parts]
  | cons c p ih =>
      intro hquote hmem
      obtain ⟨hc, hp⟩ := List.ne_and_not_mem_of_not_mem_cons hquote
      by_cases hletter : c.isAlpha = true
      · rw [parts_letter hletter] at hmem
        exact ih hp ((unterminated_mem_grow c _).mp hmem)
      · rw [parts_sign hc.symm hletter] at hmem
        rcases List.mem_cons.mp hmem with h | h
        · unfold Part.ofSign at h
          split at h
          · cases h
          · split at h <;> cases h
        · exact ih hp h

/-- **A group prints what it prints on its own**, before a quote and at the end. -/
theorem format_group (hgroup : '\'' ∉ group) (hq : q = [] ∨ q.head? = some '\'') :
    format t (group ++ q) = do
      let front ← format t group
      let back ← format t q
      return front ++ back := by
  have hseparate : Separate group q := by
    intro c hlast hhead
    rcases hq with rfl | hq
    · cases hhead
    · rw [hq] at hhead
      obtain rfl := Option.some.inj hhead
      exact hgroup (List.mem_of_getLast? hlast)
  unfold format
  rw [parts_append (unterminated_not_mem_parts hgroup) hseparate, writeParts_append]

/-- **A letter between quotes prints itself.** -/
theorem format_letter (hc : c ≠ '\'') (hq : q.head? ≠ some '\'') :
    format t ('\'' :: c :: '\'' :: q) = (format t q).map (c :: ·) := by
  unfold format
  rw [parts_quote (by simpa using hc), Bool.not_false, parts_quoted hc, parts_quote hq,
    Bool.not_true]
  cases h : writeParts t (parts false q) <;> simp [writeParts, Part.write, h] <;> rfl

/-- **Next to another letter between quotes it prints a quote behind it.** -/
theorem format_letters (hc : c ≠ '\'') (hq : q.head? ≠ some '\'') :
    format t ('\'' :: c :: '\'' :: '\'' :: q)
      = (format t ('\'' :: q)).map (fun back => c :: '\'' :: back) := by
  unfold format
  rw [parts_quote (by simpa using hc), Bool.not_false, parts_quoted hc, parts_doubled,
    parts_quote hq, Bool.not_false]
  cases h : writeParts t (parts true q) <;> simp [writeParts, Part.write, h] <;> rfl

/-! ## §2. The groups of a pattern. -/

/-- The pattern ends with a letter for the zone. -/
def endsInZone (p : Text) : Bool :=
  p.getLast? == some 'Z' || p.getLast? == some 'z'

/-- The pattern before the letter for the zone. -/
def beforeZone (p : Text) : Text :=
  if endsInZone p then p.dropLast else p

/-- The groups of fields of a pattern, between its letters `T`. -/
def fieldGroups (p : Text) : List Text :=
  (beforeZone p).splitOn 'T'

/-- The letter for the zone, when there is one. -/
def zoneText (zoned : Bool) : Text :=
  if zoned then ['Z'] else []

/-- The same between quotes. -/
def quotedZone (zoned : Bool) : Text :=
  if zoned then "'Z'".toList else []

/-- Groups behind letters between quotes, and the letter for the zone behind them. -/
def behindLetters (zoned : Bool) (groups : List Text) : Text :=
  groups.flatMap ("'T'".toList ++ ·) ++ quotedZone zoned

theorem endsInZone_concat (p : Text) (c : Char) :
    endsInZone (p ++ [c]) = (c == 'Z' || c == 'z') := by
  unfold endsInZone
  rw [List.getLast?_concat]
  rfl

theorem quoteFinalZone_eq (p : Text) :
    quoteFinalZone p = beforeZone p ++ quotedZone (endsInZone p) := by
  rcases List.eq_nil_or_concat p with rfl | ⟨b, c, rfl⟩
  · rfl
  · unfold quoteFinalZone beforeZone quotedZone
    rw [List.concat_eq_append, endsInZone_concat, List.getLast?_concat]
    by_cases hc : c = 'Z' ∨ c = 'z'
    · simp [hc]
    · simp [hc]

/-- Quotes around every `T` leave the letter for the zone where it is, and bring none. -/
theorem quoteT_zone (p : Text) : endsInZone (quoteT p) = endsInZone p
    ∧ beforeZone (quoteT p) = quoteT (beforeZone p) := by
  rcases List.eq_nil_or_concat p with rfl | ⟨b, c, rfl⟩
  · exact ⟨rfl, rfl⟩
  · rw [List.concat_eq_append]
    have hquoted : quoteT (b ++ [c]) = quoteT b ++ quoteT [c] := List.flatMap_append
    by_cases hT : c = 'T'
    · subst hT
      have hzone : endsInZone (quoteT (b ++ ['T'])) = false := by
        rw [hquoted, show quoteT ['T'] = "'T".toList ++ ['\''] from rfl, ← List.append_assoc,
          endsInZone_concat]
        decide
      have hzone' : endsInZone (b ++ ['T']) = false := endsInZone_concat b 'T'
      simp [beforeZone, hzone, hzone']
    · have hone : quoteT [c] = [c] := by simp [quoteT, hT]
      rw [hone] at hquoted
      unfold beforeZone
      rw [hquoted, endsInZone_concat, endsInZone_concat]
      refine ⟨rfl, ?_⟩
      split
      · rw [List.dropLast_concat, List.dropLast_concat]
      · exact hquoted.symm

/-- Between its quoted letters a pattern has the groups that it had between the letters. -/
theorem quoteT_eq : ∀ p : Text, ∃ first rest, p.splitOn 'T' = first :: rest
    ∧ quoteT p = first ++ rest.flatMap ("'T'".toList ++ ·) := by
  intro p
  induction p with
  | nil => exact ⟨[], [], rfl, rfl⟩
  | cons c p ih =>
      obtain ⟨first, rest, hsplit, hquoted⟩ := ih
      rw [List.splitOn_cons_eq_if_modifyHead, hsplit]
      by_cases hT : c = 'T'
      · subst hT
        refine ⟨[], first :: rest, by simp, ?_⟩
        show "'T'".toList ++ quoteT p = _
        rw [hquoted]
        simp
      · refine ⟨c :: first, rest, by simp [hT], ?_⟩
        show (if c = 'T' then "'T'".toList else [c]) ++ quoteT p = _
        rw [if_neg hT, hquoted]
        simp

/-- The pattern has a letter between date and time. -/
def HasTime (p : Text) : Prop :=
  ∃ mark ∈ ["THH", "Tmm", "Tss"], mark.toList <:+: p

instance {p : Text} : Decidable (HasTime p) :=
  inferInstanceAs (Decidable (∃ mark ∈ ["THH", "Tmm", "Tss"], mark.toList <:+: p))

/-- **A normalized pattern** is its groups with letters between quotes before them. -/
theorem normalizePattern_eq (htime : HasTime p) : ∃ first rest, fieldGroups p = first :: rest
    ∧ normalizePattern p = first ++ behindLetters (endsInZone p) rest := by
  obtain ⟨first, rest, hsplit, hquoted⟩ := quoteT_eq (beforeZone p)
  have hany : ["THH", "Tmm", "Tss"].any (fun mark => Text.contains mark.toList p) = true := by
    obtain ⟨mark, hmark, hinfix⟩ := htime
    exact List.any_eq_true.mpr ⟨mark, hmark, Text.contains_of_infix hinfix⟩
  refine ⟨first, rest, hsplit, ?_⟩
  unfold normalizePattern behindLetters
  simp only [hany, if_true]
  rw [quoteFinalZone_eq, (quoteT_zone p).1, (quoteT_zone p).2, hquoted, List.append_assoc]

/-! ## §3. What is printed. -/

/-- The groups behind a letter as they are read: an empty one before another letter is a doubled
quote. -/
def readBehind (zoned : Bool) : List Text → List Text
  | [] => []
  | group :: rest =>
    (if group = [] ∧ (rest ≠ [] ∨ zoned = true) then "''".toList else group)
      :: readBehind zoned rest

/-- The groups of a pattern as they are read. -/
def readGroups (zoned : Bool) : List Text → List Text
  | [] => []
  | first :: rest => first :: readBehind zoned rest

/-- What stands behind a group begins with a letter between quotes, or it is nothing. -/
theorem behindLetters_cases (zoned : Bool) (groups : List Text) :
    (groups = [] ∧ zoned = false ∧ behindLetters zoned groups = [])
      ∨ (groups ≠ [] ∨ zoned = true) ∧ ∃ q, behindLetters zoned groups = '\'' :: q
        ∧ q.head? ≠ some '\'' := by
  cases groups with
  | nil =>
      cases zoned with
      | false => exact .inl ⟨rfl, rfl, rfl⟩
      | true => exact .inr ⟨.inr rfl, _, rfl, by decide⟩
  | cons group rest =>
      refine .inr ⟨.inl (List.cons_ne_nil group rest), _, rfl, ?_⟩
      show some 'T' ≠ some '\''
      decide

theorem behindLetters_head (zoned : Bool) (groups : List Text) :
    behindLetters zoned groups = [] ∨ (behindLetters zoned groups).head? = some '\'' := by
  rcases behindLetters_cases zoned groups with ⟨-, -, hnil⟩ | ⟨-, q, hq, -⟩
  · exact .inl hnil
  · exact .inr (by rw [hq]; rfl)

/-- **What the groups behind a letter print.**  The fault of the first one that cannot be printed is
that of them all. -/
theorem format_behind (zoned : Bool) : ∀ groups : List Text, (∀ g ∈ groups, '\'' ∉ g) →
    format t (behindLetters zoned groups) = do
      let texts ← (readBehind zoned groups).mapM (format t)
      return texts.flatMap ('T' :: ·) ++ zoneText zoned := by
  intro groups
  induction groups with
  | nil =>
      intro _
      cases zoned <;> rfl
  | cons group rest ih =>
      intro hquote
      have hrest := ih fun g hg => hquote g (List.mem_cons_of_mem group hg)
      have hgroup := hquote group List.mem_cons_self
      have hbehind : behindLetters zoned (group :: rest)
          = '\'' :: 'T' :: '\'' :: (group ++ behindLetters zoned rest) := by
        simp [behindLetters]
      have hcases := behindLetters_cases zoned rest
      rw [hbehind, readBehind, List.mapM_cons]
      by_cases hgap : group = [] ∧ (rest ≠ [] ∨ zoned = true)
      · -- the quotes of two letters are next to each other
        rw [if_pos hgap]
        obtain ⟨rfl, hmore⟩ := hgap
        obtain ⟨q, hq, hhead⟩ : ∃ q, behindLetters zoned rest = '\'' :: q
            ∧ q.head? ≠ some '\'' := by
          rcases hcases with ⟨hnil, hzoned, -⟩ | ⟨-, hq⟩
          · rcases hmore with hmore | hmore
            · exact absurd hnil hmore
            · rw [hzoned] at hmore
              cases hmore
          · exact hq
        have hdoubled : format t "''".toList = .ok ['\''] := rfl
        rw [List.nil_append, hq, format_letters (by decide) hhead, ← hq, hrest, hdoubled]
        cases (readBehind zoned rest).mapM (format t) <;> rfl
      · rw [if_neg hgap]
        have hhead : (group ++ behindLetters zoned rest).head? ≠ some '\'' := by
          cases group with
          | cons c group =>
              intro h
              exact hgroup (by simp_all)
          | nil =>
              rcases hcases with ⟨-, -, hnil⟩ | ⟨hmore, -⟩
              · rw [hnil]
                nofun
              · exact absurd ⟨rfl, hmore⟩ hgap
        rw [format_letter (by decide) hhead, format_group hgroup (behindLetters_head zoned rest),
          hrest]
        cases format t group with
        | error f => rfl
        | ok text =>
            cases (readBehind zoned rest).mapM (format t) with
            | error f => rfl
            | ok texts =>
                show Except.ok _ = Except.ok _
                simp

/-- Texts of some patterns one by one. -/
theorem mapM_eq_ok_iff : ∀ {groups texts : List Text}, groups.mapM (format t) = .ok texts
    ↔ List.Forall₂ (fun group text => format t group = .ok text) groups texts := by
  intro groups
  induction groups with
  | nil =>
      intro texts
      rw [List.forall₂_nil_left_iff, List.mapM_nil]
      exact ⟨fun h => (Except.ok.inj h).symm, fun h => congrArg Except.ok h.symm⟩
  | cons group groups ih =>
      intro texts
      rw [List.mapM_cons, List.forall₂_cons_left_iff]
      constructor
      · intro h
        cases hgroup : format t group with
        | error f =>
            rw [hgroup] at h
            cases h
        | ok text =>
            rw [hgroup] at h
            cases hrest : groups.mapM (format t) with
            | error f =>
                rw [hrest] at h
                cases h
            | ok others =>
                rw [hrest] at h
                exact ⟨text, others, rfl, ih.mp hrest, (Except.ok.inj h).symm⟩
      · rintro ⟨text, others, hgroup, hrest, rfl⟩
        rw [hgroup, ih.mpr hrest]
        rfl

theorem exists_mapM_iff : ∀ {groups : List Text}, (∃ texts, groups.mapM (format t) = .ok texts)
    ↔ ∀ group ∈ groups, ∃ text, format t group = .ok text := by
  intro groups
  induction groups with
  | nil => exact ⟨fun _ => nofun, fun _ => ⟨[], rfl⟩⟩
  | cons group groups ih =>
      rw [List.forall_mem_cons, ← ih]
      simp only [mapM_eq_ok_iff, List.forall₂_cons_left_iff]
      constructor
      · rintro ⟨-, text, others, hgroup, hrest, rfl⟩
        exact ⟨⟨text, hgroup⟩, others, hrest⟩
      · rintro ⟨⟨text, hgroup⟩, others, hrest⟩
        exact ⟨_, text, others, hgroup, hrest, rfl⟩

/-- **What a normalized pattern prints**: its groups as they are read, and the letters. -/
theorem format_normalized (hquote : '\'' ∉ p) (htime : HasTime p) :
    format t (normalizePattern p) = do
      let texts ← (readGroups (endsInZone p) (fieldGroups p)).mapM (format t)
      return ['T'].intercalate texts ++ zoneText (endsInZone p) := by
  obtain ⟨first, rest, hgroups, hpattern⟩ := normalizePattern_eq htime
  have hquotes : ∀ group ∈ first :: rest, '\'' ∉ group := by
    intro group hgroup hmem
    rw [← hgroups] at hgroup
    refine hquote ?_
    have hbefore : '\'' ∈ beforeZone p := Text.mem_of_mem_splitOn hgroup hmem
    unfold beforeZone at hbefore
    split at hbefore
    · exact List.mem_of_mem_dropLast hbefore
    · exact hbefore
  rw [hgroups, hpattern,
    format_group (hquotes first List.mem_cons_self) (behindLetters_head _ rest),
    format_behind _ rest fun g hg => hquotes g (List.mem_cons_of_mem first hg), readGroups,
    List.mapM_cons]
  cases format t first with
  | error f => rfl
  | ok text =>
      cases (readBehind (endsInZone p) rest).mapM (format t) with
      | error f => rfl
      | ok texts =>
          show Except.ok _ = Except.ok _
          rw [Text.intercalate_cons, List.append_assoc]

/-! ## §4. Letters next to each other. -/

/-- Every group between two quoted letters has something in it. -/
def LettersApart (p : Text) : Prop :=
  ∀ front back, fieldGroups p = front ++ [] :: back →
    front = [] ∨ (back = [] ∧ endsInZone p = false)

/-- Behind a letter the groups are read as they are when none before another letter is empty. -/
theorem readBehind_eq_self_iff (zoned : Bool) : ∀ {groups : List Text},
    readBehind zoned groups = groups
      ↔ ∀ front back, groups = front ++ [] :: back → back = [] ∧ zoned = false := by
  intro groups
  induction groups with
  | nil => simp [readBehind]
  | cons group rest ih =>
      rw [readBehind, List.cons.injEq, ih]
      constructor
      · rintro ⟨hgroup, hrest⟩ front back hcut
        cases front with
        | nil =>
            obtain ⟨rfl, rfl⟩ := List.cons.inj hcut
            by_contra hgap
            have hmore := (not_and_or.mp hgap).imp_right eq_true_of_ne_false
            rw [if_pos ⟨rfl, hmore⟩] at hgroup
            cases hgroup
        | cons g front => exact hrest front back (List.cons.inj hcut).2
      · intro h
        refine ⟨?_, fun front back hcut => h (group :: front) back (by rw [hcut]; rfl)⟩
        rw [ite_eq_right_iff]
        rintro ⟨rfl, hmore⟩
        obtain ⟨rfl, hzoned⟩ := h [] rest rfl
        simp [hzoned] at hmore

/-- **The groups of a pattern are read as they are exactly when its letters are apart.** -/
theorem readGroups_eq_self_iff :
    readGroups (endsInZone p) (fieldGroups p) = fieldGroups p ↔ LettersApart p := by
  unfold LettersApart
  cases hgroups : fieldGroups p with
  | nil => simp [readGroups]
  | cons first rest =>
      rw [readGroups, List.cons.injEq, and_iff_right rfl, readBehind_eq_self_iff]
      constructor
      · intro h front back hcut
        cases front with
        | nil => exact .inl rfl
        | cons g front => exact .inr (h front back (List.cons.inj hcut).2)
      · intro h front back hcut
        rcases h (first :: front) back (by rw [hcut]; rfl) with hnil | hback
        · cases hnil
        · exact hback

instance {p : Text} : Decidable (LettersApart p) :=
  decidable_of_iff _ readGroups_eq_self_iff

/-- The groups can be printed as they are read exactly when they can be printed. -/
theorem readBehind_printed (zoned : Bool) : ∀ groups : List Text,
    (∀ group ∈ readBehind zoned groups, ∃ text, format t group = .ok text)
      ↔ ∀ group ∈ groups, ∃ text, format t group = .ok text := by
  intro groups
  induction groups with
  | nil => exact Iff.rfl
  | cons group rest ih =>
      rw [readBehind, List.forall_mem_cons, List.forall_mem_cons, ih]
      refine and_congr_left fun _ => ?_
      split
      next hgap =>
        -- neither nothing nor a doubled quote can fail
        rw [hgap.1]
        exact iff_of_true ⟨['\''], rfl⟩ ⟨[], rfl⟩
      next => exact Iff.rfl

/-- **A quote more is printed for every empty group between letters.** -/
theorem length_readBehind (zoned : Bool) : ∀ {groups texts texts' : List Text},
    List.Forall₂ (fun group text => format t group = .ok text) groups texts →
    List.Forall₂ (fun group text => format t group = .ok text) (readBehind zoned groups) texts' →
      (texts.flatMap ('T' :: ·)).length ≤ (texts'.flatMap ('T' :: ·)).length
        ∧ ((texts.flatMap ('T' :: ·)).length = (texts'.flatMap ('T' :: ·)).length →
          readBehind zoned groups = groups) := by
  intro groups texts texts' h
  induction h generalizing texts' with
  | nil =>
      intro _
      exact ⟨Nat.zero_le _, fun _ => rfl⟩
  | @cons group text rest others hgroup hrest ih =>
      intro h'
      rw [readBehind] at h' ⊢
      obtain ⟨text', others', hgroup', hrest', rfl⟩ := List.forall₂_cons_left_iff.mp h'
      obtain ⟨hle, heq⟩ := ih hrest'
      simp only [List.flatMap_cons, List.length_append, List.length_cons]
      by_cases hgap : group = [] ∧ (rest ≠ [] ∨ zoned = true)
      · -- here a quote is printed in place of nothing
        rw [if_pos hgap] at hgroup'
        rw [hgap.1] at hgroup
        have htext : text = [] := (Except.ok.inj hgroup).symm
        have htext' : text' = ['\''] := (Except.ok.inj hgroup').symm
        rw [htext, htext']
        simp only [List.length_nil, List.length_singleton]
        exact ⟨by omega, fun h => by omega⟩
      · rw [if_neg hgap] at hgroup' ⊢
        have htext : text' = text := Except.ok.inj (hgroup'.symm.trans hgroup)
        rw [htext]
        exact ⟨by omega, fun h => by rw [heq (by omega)]⟩

/-- **Groups that print the same as they are read** are read as they are. -/
theorem readGroups_eq_self {zoned : Bool} {texts texts' : List Text}
    (h : List.Forall₂ (fun group text => format t group = .ok text) groups texts)
    (h' : List.Forall₂ (fun group text => format t group = .ok text) (readGroups zoned groups) texts')
    (hsame : ['T'].intercalate texts = ['T'].intercalate texts') :
    readGroups zoned groups = groups := by
  cases groups with
  | nil => rfl
  | cons first rest =>
      rw [readGroups] at h' ⊢
      obtain ⟨text, others, hfirst, hothers, rfl⟩ := List.forall₂_cons_left_iff.mp h
      obtain ⟨text', others', hfirst', hothers', rfl⟩ := List.forall₂_cons_left_iff.mp h'
      obtain rfl : text' = text := Except.ok.inj (hfirst'.symm.trans hfirst)
      rw [Text.intercalate_cons, Text.intercalate_cons, List.append_cancel_left_eq] at hsame
      rw [(length_readBehind zoned hothers hothers').2 (by rw [hsame])]

/-- **LETTERS OF A DATE BETWEEN QUOTES.**  A pattern without quotes, but with a time, prints what its
groups of fields print, as they are read between the letters, and the letters; it fails exactly when
one of its groups fails.  When the groups can be printed, their texts with the letters between and
behind them are what is printed exactly when no two letters are next to each other; a quote more is
printed between any two that are. -/
theorem format_normalizePattern (hquote : '\'' ∉ p) (htime : HasTime p) :
    (format t (normalizePattern p) = do
        let texts ← (readGroups (endsInZone p) (fieldGroups p)).mapM (format t)
        return ['T'].intercalate texts ++ zoneText (endsInZone p))
      ∧ ((∃ out, format t (normalizePattern p) = .ok out)
        ↔ ∀ group ∈ fieldGroups p, ∃ text, format t group = .ok text)
      ∧ ∀ texts, List.Forall₂ (fun group text => format t group = .ok text) (fieldGroups p) texts →
        (format t (normalizePattern p) = .ok (['T'].intercalate texts ++ zoneText (endsInZone p))
          ↔ LettersApart p) := by
  have hprinted := format_normalized (t := t) hquote htime
  obtain ⟨first, rest, hgroups, -⟩ := normalizePattern_eq htime
  refine ⟨hprinted, ?_, ?_⟩
  · have hread : (∃ out, format t (normalizePattern p) = .ok out)
        ↔ ∃ texts, (readGroups (endsInZone p) (fieldGroups p)).mapM (format t) = .ok texts := by
      rw [hprinted]
      cases (readGroups (endsInZone p) (fieldGroups p)).mapM (format t) with
      | error f => exact iff_of_false nofun nofun
      | ok texts => exact iff_of_true ⟨_, rfl⟩ ⟨_, rfl⟩
    rw [hread, exists_mapM_iff, hgroups, readGroups, List.forall_mem_cons, List.forall_mem_cons,
      readBehind_printed]
  · intro texts htexts
    rw [← readGroups_eq_self_iff]
    constructor
    · intro hout
      rw [hprinted] at hout
      cases hread : (readGroups (endsInZone p) (fieldGroups p)).mapM (format t) with
      | error f =>
          rw [hread] at hout
          cases hout
      | ok texts' =>
          rw [hread] at hout
          exact readGroups_eq_self htexts (mapM_eq_ok_iff.mp hread)
            (List.append_cancel_right (Except.ok.inj hout)).symm
    · intro hself
      rw [hprinted, hself, mapM_eq_ok_iff.mpr htexts]
      rfl

/-- Letters that are apart, and a letter next to that of the zone. -/
theorem format_normalizePattern_adjacent :
    LettersApart "yyyyMMddTHHmmZ".toList
      ∧ format afternoon (normalizePattern "yyyyMMddTHHmmZ".toList) = .ok "20240307T1405Z".toList
      ∧ ¬ LettersApart "THHTZ".toList
      ∧ format afternoon (normalizePattern "THHTZ".toList) ≠ .ok "T14TZ".toList := by
  have hapart : LettersApart "yyyyMMddTHHmmZ".toList := by decide
  have hnext : ¬ LettersApart "THHTZ".toList := by decide
  have hgroups : fieldGroups "yyyyMMddTHHmmZ".toList = ["yyyyMMdd".toList, "HHmm".toList] := by
    decide
  have hgroups' : fieldGroups "THHTZ".toList = [[], "HH".toList, []] := by decide
  have htexts : List.Forall₂ (fun group text => format afternoon group = .ok text)
      (fieldGroups "yyyyMMddTHHmmZ".toList) ["20240307".toList, "1405".toList] := by
    rw [hgroups]
    exact .cons rfl (.cons rfl .nil)
  have htexts' : List.Forall₂ (fun group text => format afternoon group = .ok text)
      (fieldGroups "THHTZ".toList) [[], "14".toList, []] := by
    rw [hgroups']
    exact .cons rfl (.cons rfl (.cons rfl .nil))
  exact ⟨hapart, ((format_normalizePattern (by decide) (by decide)).2.2 _ htexts).mpr hapart, hnext,
    fun h => hnext (((format_normalizePattern (by decide) (by decide)).2.2 _ htexts').mp h)⟩

/-- The quote between the letters. -/
example : format afternoon (normalizePattern "THHTZ".toList) = .ok "T14T'Z".toList := by
  rfl

end Crosswalk.Transform
