/-
  Crosswalk.Proofs.Transform.StampOrder
  ──────────────────────────────────────
  **STAMPS IN THE ORDER OF TIME.**

  A stamp holds the fields of an instant from the year on, each in a fixed
  width, so of two stamps the first field that differs decides, as it does
  between the instants.  Years need four digits for that, and leap seconds
  are left out because they print as the second before them:

    • `Ordinary`: these instants, and `fixed_year`,
    • `format_compact`, `compact_digits`: the stamp without signs,
    • `compare_fields`: two instants, field by field,
    • `compare_compact`, `compare_full`: two stamps,
    • `stamps_sorted`: two stamps and their instants.
-/
import Crosswalk.Proofs.Calendar.Order
import Crosswalk.Proofs.Transform.Stamp

namespace Crosswalk.Transform

open Calendar

/-! ## §1. Stamps of a fixed width. -/

/-- An instant outside of leap seconds, in a year that has four digits. -/
structure Ordinary (t : Instant) : Prop extends t.IsInstant where
  noLeap : t.inLeapSecond = false
  first : 0 ≤ t.date.year
  last : t.date.year ≤ 9999

theorem ordinary_iff {t : Instant} : Ordinary t ↔ t.IsInstant ∧ t.inLeapSecond = false
    ∧ 0 ≤ t.date.year ∧ t.date.year ≤ 9999 :=
  ⟨fun h => ⟨h.toIsInstant, h.noLeap, h.first, h.last⟩, fun h => ⟨h.1, h.2.1, h.2.2.1, h.2.2.2⟩⟩

instance {t : Instant} : Decidable (Ordinary t) :=
  decidable_of_iff _ ordinary_iff.symm

variable {s t : Instant}

/-- The digits of a year. -/
theorem fixed_year (h : Ordinary t) :
    Text.Fixed 4 (padded 4 t.date.year) t.date.year.toNat := by
  have hfirst := h.first
  have hlast := h.last
  have hyear : (t.date.year.toNat : Int) = t.date.year := Int.toNat_of_nonneg hfirst
  have hdigits : Text.Fixed 4 (padded 4 (t.date.year.toNat : Int)) t.date.year.toNat :=
    fixed_padded (by decide) (by omega)
  rwa [hyear] at hdigits

theorem format_compact (t : Instant) : format t compactStamp = .ok (padded 4 t.date.year
    ++ padded 2 t.date.month ++ padded 2 t.date.day ++ padded 2 t.hour ++ padded 2 t.minute
    ++ padded 2 t.second) := by
  have hparts : parts false compactStamp = [.field 'y' 4, .field 'M' 2, .field 'd' 2,
      .field 'H' 2, .field 'm' 2, .field 's' 2] := by decide
  unfold format
  rw [hparts]
  simp [writeParts, Part.write, fieldText?, yearField, monthField, numberUpTo]
  rfl

/-- **The stamp without signs has fourteen digits.** -/
theorem compact_digits (h : Ordinary t) {text : Text} (htext : format t compactStamp = .ok text) :
    text.length = 14 ∧ ∀ c ∈ text, c.isDigit = true := by
  have hfields := hasFields h.toIsInstant
  rw [format_compact] at htext
  obtain rfl := Except.ok.inj htext
  have hall := (((((fixed_year h).toDecimal.append hfields.month.toDecimal).append
    hfields.day.toDecimal).append hfields.hour.toDecimal).append hfields.minute.toDecimal).append
      hfields.second.toDecimal
  refine ⟨?_, hall.digits⟩
  simp only [List.length_append, (fixed_year h).length, hfields.month.length, hfields.day.length,
    hfields.hour.length, hfields.minute.length, hfields.second.length]

/-! ## §2. Two stamps. -/

/-- **The full seconds of two instants**, field by field. -/
theorem compare_fields (hs : Ordinary s) (ht : Ordinary t) :
    compare s.wholeSeconds t.wholeSeconds
      = (compare s.date.year.toNat t.date.year.toNat).then
        ((compare s.date.month t.date.month).then ((compare s.date.day t.date.day).then
          ((compare s.hour t.hour).then ((compare s.minute t.minute).then
            (compare s.second t.second))))) := by
  have hyear : compare s.date.year t.date.year
      = compare s.date.year.toNat t.date.year.toNat := by
    rw [← Text.compare_natCast, Int.toNat_of_nonneg hs.first, Int.toNat_of_nonneg ht.first]
  rw [Instant.compare_wholeSeconds hs.toIsInstant ht.toIsInstant hs.noLeap ht.noLeap,
    Date.compare_toDays hs.date ht.date, hyear]
  simp only [Ordering.then_assoc]

/-- **Two stamps without signs.** -/
theorem compare_compact (hs : Ordinary s) (ht : Ordinary t) {a b : Text}
    (ha : format s compactStamp = .ok a) (hb : format t compactStamp = .ok b) :
    compare a b = compare s.wholeSeconds t.wholeSeconds := by
  have hfields := hasFields hs.toIsInstant
  have hfields' := hasFields ht.toIsInstant
  have hsecond := hfields.second.compare_append hfields'.second [] []
  rw [List.append_nil, List.append_nil] at hsecond
  rw [format_compact] at ha hb
  obtain rfl := Except.ok.inj ha
  obtain rfl := Except.ok.inj hb
  simp only [List.append_assoc]
  rw [(fixed_year hs).compare_append (fixed_year ht), hfields.month.compare_append hfields'.month,
    hfields.day.compare_append hfields'.day, hfields.hour.compare_append hfields'.hour,
    hfields.minute.compare_append hfields'.minute, hsecond, compare_fields hs ht]
  simp only [show compare ([] : Text) [] = .eq from rfl, Ordering.then_eq]

/-- **Two full stamps.**  The signs between the fields are the same in both. -/
theorem compare_full (hs : Ordinary s) (ht : Ordinary t) {a b : Text}
    (ha : format s fullStamp = .ok a) (hb : format t fullStamp = .ok b) :
    compare a b = compare s.wholeMilliseconds t.wholeMilliseconds := by
  have hfields := hasFields hs.toIsInstant
  have hfields' := hasFields ht.toIsInstant
  rw [format_full] at ha hb
  obtain rfl := Except.ok.inj ha
  obtain rfl := Except.ok.inj hb
  simp only [List.append_assoc, List.cons_append]
  rw [(fixed_year hs).compare_append (fixed_year ht), Text.compare_cons_self,
    hfields.month.compare_append hfields'.month, Text.compare_cons_self,
    hfields.day.compare_append hfields'.day, Text.compare_cons_self,
    hfields.hour.compare_append hfields'.hour, Text.compare_cons_self,
    hfields.minute.compare_append hfields'.minute, Text.compare_cons_self,
    hfields.second.compare_append hfields'.second, Text.compare_cons_self,
    hfields.milli.compare_append hfields'.milli,
    Instant.compare_wholeMilliseconds hs.noLeap ht.noLeap, compare_fields hs ht]
  simp only [show compare ['Z'] ['Z'] = .eq from rfl, Ordering.then_eq, Ordering.then_assoc]

/-- **STAMPS IN THE ORDER OF TIME.**  The full stamps of two instants are in the order of the
instants, cut off after the milliseconds.  Their stamps without signs have fourteen digits and are in
the order of the instants, cut off after the seconds. -/
theorem stamps_sorted (hs : Ordinary s) (ht : Ordinary t) :
    (∃ a b, format s fullStamp = .ok a ∧ format t fullStamp = .ok b
        ∧ compare a b = compare s.wholeMilliseconds t.wholeMilliseconds)
      ∧ ∃ a b, format s compactStamp = .ok a ∧ format t compactStamp = .ok b
        ∧ (a.length = 14 ∧ ∀ c ∈ a, c.isDigit = true)
        ∧ (b.length = 14 ∧ ∀ c ∈ b, c.isDigit = true)
        ∧ compare a b = compare s.wholeSeconds t.wholeSeconds :=
  ⟨⟨_, _, format_full s, format_full t, compare_full hs ht (format_full s) (format_full t)⟩,
    _, _, format_compact s, format_compact t, compact_digits hs (format_compact s),
    compact_digits ht (format_compact t),
    compare_compact hs ht (format_compact s) (format_compact t)⟩

/-- The last nanosecond of a century. -/
def centuryEnd : Instant :=
  ⟨⟨1999, 12, 31⟩, 23, 59, 59, 999999999⟩

/-- The first nanosecond of the next one. -/
def centuryStart : Instant :=
  ⟨⟨2000, 1, 1⟩, 0, 0, 0, 0⟩

/-- Every field but the year is smaller afterwards. -/
theorem stamps_sorted_century : Ordinary centuryEnd ∧ Ordinary centuryStart
    ∧ (∃ a b, format centuryEnd fullStamp = .ok a ∧ format centuryStart fullStamp = .ok b
      ∧ compare a b = .lt)
    ∧ ∃ a b, format centuryEnd compactStamp = .ok a ∧ format centuryStart compactStamp = .ok b
      ∧ compare a b = .lt := by
  have hend : Ordinary centuryEnd := by decide
  have hstart : Ordinary centuryStart := by decide
  obtain ⟨⟨a, b, ha, hb, hfull⟩, c, d, hc, hd, -, -, hcompact⟩ := stamps_sorted hend hstart
  have hmilliseconds : compare centuryEnd.wholeMilliseconds centuryStart.wholeMilliseconds = .lt := by
    decide
  have hseconds : compare centuryEnd.wholeSeconds centuryStart.wholeSeconds = .lt := by
    decide
  exact ⟨hend, hstart, ⟨a, b, ha, hb, hfull.trans hmilliseconds⟩, c, d, hc, hd,
    hcompact.trans hseconds⟩

end Crosswalk.Transform
