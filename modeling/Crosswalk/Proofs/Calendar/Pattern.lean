/-
  Crosswalk.Proofs.Calendar.Pattern
  ──────────────────────────────────────
  **PATTERNS ONE BEHIND THE OTHER.**

  A field is a run of one letter, and two quotes are one character of a text:
  nothing else reaches from one character of a pattern to the next.  A pattern
  is cut wherever two different characters meet outside of quotes.

    • `parts_append`: the parts of two patterns one behind the other,
    • `writeParts_append`: what two lists of parts print,
    • `format_append`: what the patterns print.
-/
import Crosswalk.Calendar.Pattern

namespace Crosswalk.Calendar

variable {t : Instant} {p q : Text} {c : Char} {inside : Bool} {ps qs : List Part}

/-! ## §1. The parts of a pattern, character by character. -/

theorem parts_doubled (inside : Bool) (p : Text) :
    parts inside ('\'' :: '\'' :: p) = .literal '\'' :: parts inside p := rfl

/-- A quote that is not doubled opens or closes. -/
theorem parts_quote (hp : p.head? ≠ some '\'') :
    parts inside ('\'' :: p) = parts (!inside) p := by
  rw [parts]
  · rfl
  · rintro rest - rfl
    exact hp rfl

theorem parts_quoted (hc : c ≠ '\'') (p : Text) :
    parts true (c :: p) = .literal c :: parts true p := by
  rw [parts, if_neg hc, if_pos rfl]
  rintro rest rfl -
  exact hc rfl

theorem ne_quote_of_isAlpha (hc : c.isAlpha = true) : c ≠ '\'' := by
  rintro rfl
  exact absurd hc (by decide)

theorem parts_letter (hc : c.isAlpha = true) (p : Text) :
    parts false (c :: p) = Part.grow c (parts false p) := by
  have hquote := ne_quote_of_isAlpha hc
  rw [parts, if_neg hquote, if_neg (by decide), if_pos hc]
  rintro rest rfl -
  exact hquote rfl

theorem parts_sign (hquote : c ≠ '\'') (hc : ¬ c.isAlpha = true) (p : Text) :
    parts false (c :: p) = Part.ofSign c :: parts false p := by
  rw [parts, if_neg hquote, if_neg (by decide), if_neg hc]
  rintro rest rfl -
  exact hquote rfl

/-! ## §2. Two patterns. -/

/-- The letter of the field that a pattern begins with. -/
def leading? : List Part → Option Char
  | .field c _ :: _ => some c
  | _ => none

/-- A letter joins the field before which it stands, and no other part. -/
theorem grow_append (c : Char) (h : ps = [] → leading? qs ≠ some c) :
    Part.grow c (ps ++ qs) = Part.grow c ps ++ qs := by
  cases ps with
  | nil =>
      cases qs with
      | nil => rfl
      | cons q qs =>
          cases q with
          | field d width =>
              have hne : c ≠ d := by
                rintro rfl
                exact h rfl rfl
              show (if c = d then _ else _) = _
              rw [if_neg hne]
              rfl
          | _ => rfl
  | cons p ps =>
      cases p with
      | field d width =>
          show (if c = d then _ else _) = (if c = d then _ else _) ++ qs
          split <;> rfl
      | _ => rfl

theorem grow_ne_nil (c : Char) (ps : List Part) : Part.grow c ps ≠ [] := by
  unfold Part.grow
  split
  · split <;> exact List.cons_ne_nil _ _
  · exact List.cons_ne_nil _ _

theorem leading?_grow (c : Char) (ps : List Part) : leading? (Part.grow c ps) = some c := by
  unfold Part.grow
  split
  · split
    · simp_all [leading?]
    · rfl
  · rfl

theorem leading?_ofSign (c : Char) (ps : List Part) : leading? (Part.ofSign c :: ps) = none := by
  unfold Part.ofSign
  split
  · rfl
  · split <;> rfl

/-- Behind a quote that opens, a pattern begins with a literal or has no end. -/
theorem parts_opened (hp : p.head? ≠ some '\'') :
    parts true p ≠ [] ∧ leading? (parts true p) = none := by
  cases p with
  | nil => exact ⟨by simp [parts], rfl⟩
  | cons c p =>
      rw [parts_quoted (by simpa using hp)]
      exact ⟨List.cons_ne_nil _ _, rfl⟩

/-- **The first field of a pattern begins with its first character**, and only an empty pattern has
no parts. -/
theorem leading?_parts (p : Text) :
    (p ≠ [] → parts false p ≠ []) ∧ ∀ c, leading? (parts false p) = some c → p.head? = some c := by
  cases p with
  | nil => exact ⟨fun h => absurd rfl h, fun c h => by simp [parts, leading?] at h⟩
  | cons d p =>
      by_cases hquote : d = '\''
      · subst hquote
        by_cases hdoubled : p.head? = some '\''
        · obtain ⟨rest, rfl⟩ := List.head?_eq_some_iff.mp hdoubled
          rw [parts_doubled]
          exact ⟨fun _ => List.cons_ne_nil _ _, fun c h => by simp [leading?] at h⟩
        · rw [parts_quote hdoubled]
          obtain ⟨hne, hnone⟩ := parts_opened hdoubled
          refine ⟨fun _ => hne, fun c h => ?_⟩
          rw [Bool.not_false, hnone] at h
          cases h
      · by_cases hletter : d.isAlpha = true
        · rw [parts_letter hletter]
          refine ⟨fun _ => grow_ne_nil _ _, fun c h => ?_⟩
          rw [leading?_grow] at h
          exact h
        · rw [parts_sign hquote hletter]
          refine ⟨fun _ => List.cons_ne_nil _ _, fun c h => ?_⟩
          rw [leading?_ofSign] at h
          cases h

theorem unterminated_mem_grow (c : Char) (ps : List Part) :
    Part.unterminated ∈ Part.grow c ps ↔ Part.unterminated ∈ ps := by
  unfold Part.grow
  split
  · split <;> simp
  · simp

/-- Two patterns stay apart one behind the other: the character at the end of the first one is not
the one at the beginning of the second. -/
def Separate (p q : Text) : Prop :=
  ∀ c, p.getLast? = some c → q.head? ≠ some c

theorem Separate.tail (h : Separate (c :: p) q) : Separate p q := by
  intro d hd
  exact h d (by rw [List.getLast?_cons, hd]; rfl)

theorem Separate.head?_append (h : Separate (c :: p) q) (hp : p.head? ≠ some c) :
    (p ++ q).head? ≠ some c := by
  cases p with
  | nil => exact h c rfl
  | cons d p => exact hp

/-- **The parts of two patterns one behind the other**, when the first one ends outside of quotes. -/
theorem parts_append (hp : Part.unterminated ∉ parts inside p) (hpq : Separate p q) :
    parts inside (p ++ q) = parts inside p ++ parts false q := by
  -- the induction follows the scan of the first pattern, with what is left of it before the second
  induction inside, p using parts.induct with
  | case1 => simp [parts] at hp
  | case2 inside hinside =>
      rw [Bool.not_eq_true] at hinside
      subst hinside
      rfl
  | case3 inside p ih =>
      rw [parts_doubled] at hp
      have hrest := ih (fun h => hp (List.mem_cons_of_mem _ h)) hpq.tail.tail
      show parts inside ('\'' :: '\'' :: (p ++ q)) = _
      rw [parts_doubled, parts_doubled, hrest]
      rfl
  | case4 inside p hdoubled ih =>
      have hhead : p.head? ≠ some '\'' := by
        intro h
        obtain ⟨rest, rfl⟩ := List.head?_eq_some_iff.mp h
        exact hdoubled rest rfl rfl
      -- the last quote of the first pattern is not doubled by the second one
      rw [parts_quote hhead] at hp ⊢
      show parts inside ('\'' :: (p ++ q)) = _
      rw [parts_quote (hpq.head?_append hhead), ih hp hpq.tail]
  | case5 c p hdoubled hquote ih =>
      rw [parts_quoted hquote] at hp ⊢
      have hrest := ih (fun h => hp (List.mem_cons_of_mem _ h)) hpq.tail
      show parts true (c :: (p ++ q)) = _
      rw [parts_quoted hquote, hrest]
      rfl
  | case6 inside c p hdoubled hquote hinside hletter ih =>
      rw [Bool.not_eq_true] at hinside
      subst hinside
      rw [parts_letter hletter] at hp ⊢
      have hrest := ih (fun h => hp ((unterminated_mem_grow c _).mpr h)) hpq.tail
      show parts false (c :: (p ++ q)) = _
      rw [parts_letter hletter, hrest]
      -- the field at the end of the first pattern would grow only with the same letter
      refine grow_append c fun hnil hlead => ?_
      obtain rfl : p = [] := Decidable.byContradiction fun hne => (leading?_parts p).1 hne hnil
      exact hpq c rfl ((leading?_parts q).2 c hlead)
  | case7 inside c p hdoubled hquote hinside hletter ih =>
      rw [Bool.not_eq_true] at hinside
      subst hinside
      rw [parts_sign hquote hletter] at hp ⊢
      have hrest := ih (fun h => hp (List.mem_cons_of_mem _ h)) hpq.tail
      show parts false (c :: (p ++ q)) = _
      rw [parts_sign hquote hletter, hrest]
      rfl

/-! ## §3. What they print. -/

/-- **Parts one after the other.** -/
theorem writeParts_append (t : Instant) (ps qs : List Part) :
    writeParts t (ps ++ qs) = do
      let front ← writeParts t ps
      let back ← writeParts t qs
      return front ++ back := by
  induction ps with
  | nil =>
      show writeParts t qs = (writeParts t qs >>= fun back => pure back)
      exact (bind_pure _).symm
  | cons p ps ih =>
      simp only [List.cons_append, writeParts, ih, bind_assoc, pure_bind, List.append_assoc]

/-- What is printed ends outside of quotes. -/
theorem unterminated_not_mem {a : Text} (h : writeParts t ps = .ok a) : Part.unterminated ∉ ps := by
  intro hmem
  obtain ⟨front, back, rfl⟩ := List.append_of_mem hmem
  rw [writeParts_append] at h
  cases hfront : writeParts t front with
  | error f =>
      rw [hfront] at h
      cases h
  | ok b =>
      rw [hfront] at h
      cases h

/-- **PATTERNS ARE PRINTED ONE BEHIND THE OTHER.**  A pattern that can be printed is followed by
another one, which begins with another character than the first one ends with.  Together they print
what the first one prints and, behind it, what the second one prints; they fail exactly when the
second one fails, and with the same fault. -/
theorem format_append {a : Text} (hp : p ≠ []) (hq : q ≠ []) (hpq : p.getLast hp ≠ q.head hq)
    (ha : format t p = .ok a) :
    (∀ b, format t (p ++ q) = .ok (a ++ b) ↔ format t q = .ok b)
      ∧ ∀ f, format t (p ++ q) = .error f ↔ format t q = .error f := by
  have hseparate : Separate p q := by
    intro c hlast hhead
    rw [List.getLast?_eq_some_getLast hp] at hlast
    rw [List.head?_eq_some_head hq] at hhead
    exact hpq (Option.some.inj (hlast.trans hhead.symm))
  have hparts : format t (p ++ q) = (do
      let front ← format t p
      let back ← format t q
      return front ++ back) := by
    unfold format
    rw [parts_append (unterminated_not_mem ha) hseparate, writeParts_append]
  rw [ha] at hparts
  cases hb : format t q with
  | error f =>
      rw [hb] at hparts
      have hfail : format t (p ++ q) = .error f := hparts
      rw [hfail]
      simp
  | ok b =>
      rw [hb] at hparts
      have hprinted : format t (p ++ q) = .ok (a ++ b) := hparts
      rw [hprinted]
      simp

/-- A moment in the afternoon. -/
def afternoon : Instant :=
  ⟨⟨2024, 3, 7⟩, 14, 5, 9, 42000000⟩

/-- A quote at the end of one pattern, a letter at the beginning of the other, and a fault in a
third. -/
theorem format_append_quoted :
    format afternoon "h 'o''clock'a".toList = .ok "2 o'clockPM".toList
      ∧ format afternoon "h 'o''clock'ddd".toList = .error (.field (.tooMany 'd')) := by
  have hfirst : format afternoon "h 'o''clock'".toList = .ok "2 o'clock".toList := by rfl
  have hsecond : format afternoon "a".toList = .ok "PM".toList := by rfl
  have hthird : format afternoon "ddd".toList = .error (.field (.tooMany 'd')) := by rfl
  exact ⟨((format_append (by decide) (by decide) (by decide) hfirst).1 _).mpr hsecond,
    ((format_append (by decide) (by decide) (by decide) hfirst).2 _).mpr hthird⟩

end Crosswalk.Calendar
