/-
  Crosswalk.Proofs.Json.RoundTrip
  ──────────────────────────────────────
  **READING UNDOES WRITING.**

  What the reader takes from the front of a text it gives back with the rest,
  so each lemma is about a written part with any text behind it.

    • `readString_escapeChar`, `readString_write`: strings, character by
      character,
    • `readMembers_write`: the members of an object behind the first; written
      in ascending order of their keys, each is put in behind the others,
    • `readValue_write`: a value of texts and objects, by induction on it,
    • `read_textMembers`: an object of texts.
-/
import Crosswalk.Json.Reader
import Crosswalk.Json.Writer
import Crosswalk.Proofs.Json.Members

namespace Crosswalk

theorem Text.length_le_byteSize (s : Text) : s.length ≤ Text.byteSize s := by
  have hsum : ∀ (s : Text) (n : Nat), n + s.length ≤ (s.map Char.utf8Size).foldl (· + ·) n := by
    intro s
    induction s with
    | nil => intro n; exact Nat.le_refl n
    | cons c s ih =>
        intro n
        have hrest := ih (n + c.utf8Size)
        have hone := c.utf8Size_pos
        rw [List.length_cons, List.map_cons, List.foldl_cons]
        omega
  have h := hsum s 0
  rwa [Nat.zero_add] at h

namespace Json

/-! ## §1. Strings. -/

/-- The result with one more character in front. -/
def push (c : Char) (r : Except Stop (Text × Text)) : Except Stop (Text × Text) :=
  r.map (fun p => (c :: p.1, p.2))

theorem readString_plain {c : Char} (hquote : c ≠ '"') (hback : c ≠ '\\') (hc : ¬ c.toNat < 32)
    (s : Text) : readString (c :: s) = push c (readString s) := by
  rw [readString, if_neg hquote, if_neg hback, if_neg hc]
  rfl

theorem readString_escape {c : Char} {s rest : Text} (h : readEscape s = .ok (c, rest)) :
    readString ('\\' :: s) = push c (readString rest) := by
  rw [readString, if_neg (by decide), if_pos rfl]
  split
  next e he =>
    rw [h] at he
    exact absurd he (by simp)
  next d rest' he =>
    rw [h] at he
    obtain ⟨rfl, rfl⟩ := Prod.mk.inj (Except.ok.inj he)
    rfl

/-- The four digits of a control character. -/
theorem readHex_control {n : Nat} (hn : n < 32) (s : Text) :
    readHex ('0' :: '0' :: Nat.digitChar (n / 16) :: Nat.digitChar (n % 16) :: s) = .ok (n, s) := by
  have hdigits : ∀ n < 32, Text.natural? 16
      ['0', '0', Nat.digitChar (n / 16), Nat.digitChar (n % 16)] = some n := by decide
  have hsize : ¬ Text.byteSize
      ('0' :: '0' :: Nat.digitChar (n / 16) :: Nat.digitChar (n % 16) :: s) < 4 := by
    have hlength := Text.length_le_byteSize
      ('0' :: '0' :: Nat.digitChar (n / 16) :: Nat.digitChar (n % 16) :: s)
    simp only [List.length_cons] at hlength
    omega
  unfold readHex
  rw [if_neg hsize]
  simp only [hdigits n hn]

theorem readUnicode_control {n : Nat} (hn : n < 32) (s : Text) :
    readUnicode ('0' :: '0' :: Nat.digitChar (n / 16) :: Nat.digitChar (n % 16) :: s)
      = .ok (charOf n, s) := by
  -- no control character is a surrogate
  have hlow : ¬ (0xDC00 ≤ n ∧ n ≤ 0xDFFF) := by omega
  have hhigh : n < 0xD800 ∨ 0xDBFF < n := by omega
  unfold readUnicode
  rw [readHex_control hn]
  simp only [bind, Except.bind, if_neg hlow, if_pos hhigh]
  rfl

/-- **One character is read as it was written**, escaped or not. -/
theorem readString_escapeChar (c : Char) (s : Text) :
    readString (escapeChar c ++ s) = push c (readString s) := by
  have hcode : ∀ {n : Nat}, c.toNat = n → c = charOf n := by
    rintro n rfl
    exact (Char.ofNat_toNat c).symm
  unfold escapeChar
  split
  next h =>
    rcases h with rfl | rfl
    · exact readString_escape rfl
    · exact readString_escape rfl
  next hmark =>
    obtain ⟨hquote, hback⟩ := not_or.mp hmark
    split
    next h => subst h; exact readString_escape rfl
    split
    next h => subst h; exact readString_escape rfl
    split
    next h => subst h; exact readString_escape rfl
    split
    next h => rw [hcode h]; exact readString_escape rfl
    split
    next h => rw [hcode h]; exact readString_escape rfl
    split
    next h =>
      refine readString_escape (s := 'u' :: '0' :: '0' :: Nat.digitChar (c.toNat / 16)
        :: Nat.digitChar (c.toNat % 16) :: s) ?_
      show readUnicode _ = _
      rw [readUnicode_control h, ← hcode rfl]
    next h => exact readString_plain hquote hback h s

/-- **A string is read as it was written.** -/
theorem readString_write (t rest : Text) :
    readString (t.flatMap escapeChar ++ '"' :: rest) = .ok (t, rest) := by
  induction t with
  | nil => rw [List.flatMap_nil, List.nil_append, readString, if_pos rfl]
  | cons c t ih =>
      rw [List.flatMap_cons, List.append_assoc, readString_escapeChar, ih]
      rfl

/-! ## §2. Members. -/

theorem skipSpace_cons {c : Char} (hc : isSpace c = false) (s : Text) :
    skipSpace (c :: s) = c :: s := by
  unfold skipSpace
  rw [List.dropWhile_cons_of_neg (by simp [hc])]

/-- The value, written before any other text, is what `item` takes from the front. -/
structure ReadBy (item : Text → Except Stop (Json × Text)) (v : Json) : Prop where
  front : ∃ c s, v.write = c :: s ∧ isSpace c = false
  read : ∀ rest, item (v.write ++ rest) = .ok (v, rest)

/-- Members as they are written behind another. -/
def writeMore (members : List (Text × Json)) : Text :=
  members.flatMap (fun m => ',' :: (writeString m.1 ++ ':' :: m.2.write))

theorem writeMembers_cons (m : Text × Json) (members : List (Text × Json)) :
    writeMembers (m :: members) = writeString m.1 ++ ':' :: (m.2.write ++ writeMore members) := by
  induction members generalizing m with
  | nil => simp [writeMembers, writeMore]
  | cons n members ih =>
      rw [writeMembers, ih n]
      simp [writeMore]

theorem length_le_writeMore (members : List (Text × Json)) :
    members.length ≤ (writeMore members).length := by
  induction members with
  | nil => exact Nat.le_refl 0
  | cons m members ih =>
      have hcons : writeMore (m :: members)
          = ',' :: (writeString m.1 ++ ':' :: m.2.write) ++ writeMore members := rfl
      rw [hcons, List.length_append, List.length_cons, List.length_cons]
      omega

section

variable {item : Text → Except Stop (Json × Text)}

theorem readMember_write {m : Text × Json} (hm : ReadBy item m.2) (rest : Text) :
    readMember item (m.1.flatMap escapeChar ++ '"' :: ':' :: (m.2.write ++ rest))
      = .ok (m, rest) := by
  have hitem : item (skipSpace (m.2.write ++ rest)) = .ok (m.2, rest) := by
    obtain ⟨c, s, hwrite, hc⟩ := hm.front
    have hread := hm.read rest
    rw [hwrite] at hread ⊢
    rw [List.cons_append, skipSpace_cons hc]
    exact hread
  unfold readMember
  rw [readString_write]
  simp only [bind, Except.bind, skipSpace_cons (c := ':') (by decide), hitem]
  rfl

/-- **Members in ascending order are put in one behind the other.** -/
theorem readMembers_write {rest : Text} : ∀ (members : List (Text × Json))
    (before : List (Text × Json)) (fuel : Nat), members.length < fuel → Sorted (before ++ members) →
    (∀ m ∈ members, ReadBy item m.2) →
    readMembers item fuel before (writeMore members ++ '\x7d' :: rest)
      = .ok (before ++ members, rest) := by
  intro members
  induction members with
  | nil =>
      intro before fuel hfuel _ _
      obtain ⟨fuel, rfl⟩ := Nat.exists_eq_succ_of_ne_zero (Nat.ne_of_gt hfuel)
      rw [List.append_nil]
      rfl
  | cons m members ih =>
      intro before fuel hfuel hsorted hread
      obtain ⟨fuel, rfl⟩ := Nat.exists_eq_succ_of_ne_zero (Nat.ne_of_gt (Nat.zero_lt_of_lt hfuel))
      -- the key comes behind all keys before it, so its member is put in at the end
      have hlast : insert m.1 m.2 before = before ++ [m] :=
        insert_last _ _ fun n hn => (List.pairwise_append.mp hsorted).2.2 n hn m List.mem_cons_self
      have hshift : before ++ m :: members = before ++ [m] ++ members :=
        List.append_cons before m members
      have hrest : readMembers item fuel (before ++ [m]) (writeMore members ++ '\x7d' :: rest)
          = .ok (before ++ m :: members, rest) := by
        rw [hshift] at hsorted ⊢
        exact ih (before ++ [m]) fuel (Nat.lt_of_succ_lt_succ hfuel) hsorted
          fun n hn => hread n (List.mem_cons_of_mem m hn)
      have htext : writeMore (m :: members) ++ '\x7d' :: rest
          = ',' :: '"' :: (m.1.flatMap escapeChar ++ '"' :: ':' ::
              (m.2.write ++ (writeMore members ++ '\x7d' :: rest))) := by
        simp [writeMore, writeString]
      rw [htext, readMembers, skipSpace_cons (by decide)]
      simp only [skipSpace_cons (c := '"') (by decide), bind, Except.bind,
        readMember_write (hread m List.mem_cons_self), hlast]
      exact hrest

theorem readObject_write {members : List (Text × Json)} (hsorted : Sorted members)
    (hread : ∀ m ∈ members, ReadBy item m.2) (rest : Text) :
    readObject item (writeMembers members ++ '\x7d' :: rest) = .ok (members, rest) := by
  cases members with
  | nil => rfl
  | cons m members =>
      have htext : writeMembers (m :: members) ++ '\x7d' :: rest
          = '"' :: (m.1.flatMap escapeChar ++ '"' :: ':' ::
              (m.2.write ++ (writeMore members ++ '\x7d' :: rest))) := by
        rw [writeMembers_cons]
        simp [writeString]
      -- the reader counts the characters ahead, and each member takes at least one
      have hlength : members.length < (writeMore members ++ '\x7d' :: rest).length.succ := by
        have hpieces := length_le_writeMore members
        rw [List.length_append]
        omega
      unfold readObject
      rw [htext, skipSpace_cons (by decide)]
      simp only [bind, Except.bind, readMember_write (hread m List.mem_cons_self)]
      exact readMembers_write members [m] _ hlength hsorted
        fun n hn => hread n (List.mem_cons_of_mem m hn)

end

/-! ## §3. Values. -/

/-- A value of texts and objects in which at most `depth` objects stand in each other, and the keys
of each are in ascending order. -/
inductive Plain : (depth : Nat) → Json → Prop
  | string {depth : Nat} (s : Text) : Plain depth (.string s)
  | object {depth : Nat} {members : List (Text × Json)} (sorted : Sorted members)
      (values : ∀ m ∈ members, Plain depth m.2) : Plain (depth + 1) (.object members)

theorem readScalar_write (s rest : Text) :
    readScalar (writeString s ++ rest) = .ok (.string s, rest) := by
  have htext : writeString s ++ rest = '"' :: (s.flatMap escapeChar ++ '"' :: rest) := by
    simp [writeString]
  rw [htext, readScalar, if_neg (by decide), if_neg (by decide), if_neg (by decide),
    if_neg (by decide), if_neg (by decide), if_pos rfl, readString_write]
  rfl

/-- **A value of texts and objects is read as it was written**, whatever stands behind it. -/
theorem readValue_write {depth : Nat} {v : Json} (h : Plain depth v) :
    ReadBy (readValue depth) v := by
  induction h with
  | @string depth s =>
      refine ⟨⟨'"', s.flatMap escapeChar ++ ['"'], by rw [write, writeString, List.cons_append],
        by decide⟩, fun rest => ?_⟩
      have hspace : skipSpace (writeString s ++ rest) = writeString s ++ rest :=
        skipSpace_cons (by decide) _
      rw [write]
      cases depth with
      | zero =>
          rw [readValue, hspace]
          exact readScalar_write s rest
      | succ depth =>
          rw [readValue, hspace]
          exact readScalar_write s rest
  | @object depth members sorted values ih =>
      refine ⟨⟨'\x7b', writeMembers members ++ ['\x7d'], by rw [write, List.cons_append], by decide⟩,
        fun rest => ?_⟩
      rw [write, List.cons_append, List.cons_append, List.append_assoc, readValue,
        skipSpace_cons (by decide)]
      show (readObject (readValue depth) (writeMembers members ++ '\x7d' :: rest)).map _ = _
      rw [readObject_write sorted ih]
      rfl

/-- **A text of a value of texts and objects is read as that value**, down to the deepest nesting
that is read. -/
theorem read_plain {v : Json} (h : Plain deepest v) : read v.write = .ok v := by
  have hread := (readValue_write h).read []
  rw [List.append_nil] at hread
  unfold read
  rw [hread]
  rfl

/-- An object of texts is read as it was written. -/
theorem read_textMembers (fields : List (Text × Text)) :
    read (Json.object (textMembers fields)).write = .ok (.object (textMembers fields)) := by
  refine read_plain (.object (sorted_textMembers fields) ?_)
  intro m hm
  obtain ⟨f, -, rfl⟩ := mem_textMembers fields hm
  exact .string f.2

end Json

end Crosswalk
