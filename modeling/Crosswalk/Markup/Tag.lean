/-
  Crosswalk.Markup.Tag
  ──────────────────────────────────────
  **WHAT A START TAG SAYS.**

  The body of a start tag is a name and attributes.  `nextAttribute` takes
  one attribute at a time, so the first fault from the left counts, whether
  it lies in the form of an attribute or in a reference of its value.  Places
  are byte offsets in the body.
-/
import Crosswalk.Markup.Element
import Crosswalk.Markup.Escape
import Crosswalk.Markup.Token

namespace Crosswalk.Markup

/-! ## §1. Faults. -/

/-- What is wrong with the form of an attribute. -/
inductive AttributeFault
  /-- The name is not followed by `=`. -/
  | expectedEquals (pos : Nat)
  /-- Nothing follows the `=`. -/
  | expectedValue (pos : Nat)
  /-- The value does not start with a quote. -/
  | unquotedValue (pos : Nat)
  /-- The quote that opens the value is not closed. -/
  | unclosedValue (pos : Nat) (quote : Char)
  /-- The name was used before. -/
  | duplicate (pos previous : Nat)
  deriving DecidableEq, Repr

/-- The wording of an ill-formed attribute. -/
def AttributeFault.message : AttributeFault → Text
  | expectedEquals pos =>
    place pos ++ "attribute key must be directly followed by `=` or space".toList
  | expectedValue pos => place pos ++ "`=` must be followed by an attribute value".toList
  | unquotedValue pos => place pos ++ "attribute value must be enclosed in `\"` or `'`".toList
  | unclosedValue pos quote =>
    place pos ++ "missing closing quote `".toList ++ quote :: "` in attribute value".toList
  | duplicate pos previous =>
    place pos ++ "duplicated attribute, previous declaration at position ".toList
      ++ Text.ofNat previous
where
  place (pos : Nat) : Text := "position ".toList ++ Text.ofNat pos ++ ": ".toList

/-- What is wrong with a start tag. -/
inductive TagFault
  | form (f : AttributeFault)
  | reference (f : ReferenceFault)
  deriving DecidableEq, Repr

/-- The wording of a faulty start tag. -/
def TagFault.message : TagFault → Text
  | form f => f.message
  | reference f => f.message

/-! ## §2. One attribute. -/

/-- What stands at the front of the attributes of a tag. -/
inductive AttributeScan
  | done
  /-- An attribute whose name starts at `pos`. -/
  | found (name : Text) (pos : Nat) (raw rest : Text)
  | fault (f : AttributeFault)
  deriving DecidableEq, Repr

/-- The attribute at the front of `s`, the end of a body of `size` bytes; `seen` holds the names
before it and their places. -/
def nextAttribute (size : Nat) (seen : List (Text × Nat)) (s : Text) : AttributeScan :=
  match s.dropWhile isSpace with
  | [] => .done
  | c :: cs =>
    let pos := size - Text.byteSize (c :: cs)
    let name := c :: cs.takeWhile (fun c => c != '=' && !isSpace c)
    match (cs.dropWhile (fun c => c != '=' && !isSpace c)).dropWhile isSpace with
    | '=' :: value =>
      match seen.find? (·.1 = name) with
      | some (_, previous) => .fault (.duplicate pos previous)
      | none =>
        match value.dropWhile isSpace with
        | [] => .fault (.expectedValue size)
        | q :: content =>
          if q = '"' ∨ q = '\'' then
            match content.dropWhile (· != q) with
            | [] => .fault (.unclosedValue size q)
            | _ :: rest => .found name pos (content.takeWhile (· != q)) rest
          else .fault (.unquotedValue (size - Text.byteSize (q :: content)))
    | ahead => .fault (.expectedEquals (size - Text.byteSize ahead))

theorem length_dropWhile_le (p : Char → Bool) (s : Text) :
    (s.dropWhile p).length ≤ s.length :=
  (List.dropWhile_sublist p).length_le

/-- What is left behind an attribute is shorter. -/
theorem length_lt_of_nextAttribute {size pos : Nat} {seen : List (Text × Nat)}
    {s name raw rest : Text} (h : nextAttribute size seen s = .found name pos raw rest) :
    rest.length < s.length := by
  unfold nextAttribute at h
  have h₀ := length_dropWhile_le isSpace s
  split at h
  · exact AttributeScan.noConfusion h
  · rename_i c cs hs
    have h₁ := length_dropWhile_le (fun c => c != '=' && !isSpace c) cs
    have h₂ := length_dropWhile_le isSpace (cs.dropWhile (fun c => c != '=' && !isSpace c))
    simp only at h
    split at h
    · rename_i value hv
      have h₃ := length_dropWhile_le isSpace value
      split at h
      · exact AttributeScan.noConfusion h
      · split at h
        · exact AttributeScan.noConfusion h
        · rename_i q content hq
          have h₄ := length_dropWhile_le (· != q) content
          split at h
          · split at h
            · exact AttributeScan.noConfusion h
            · rename_i r hr
              simp only [AttributeScan.found.injEq] at h
              obtain ⟨_, _, _, rfl⟩ := h
              simp only [hs, hv, hq, hr, List.length_cons] at *
              omega
          · exact AttributeScan.noConfusion h
    · exact AttributeScan.noConfusion h

/-! ## §3. All attributes. -/

/-- The attributes in `s`, the end of a body of `size` bytes, with their values unescaped. -/
def readAttributes (size : Nat) (seen : List (Text × Nat)) (s : Text) :
    Except TagFault (List Attribute) :=
  match h : nextAttribute size seen s with
  | .done => .ok []
  | .fault f => .error (.form f)
  | .found name pos raw rest =>
    match unescape raw with
    | .error f => .error (.reference f)
    | .ok value =>
      have := length_lt_of_nextAttribute h
      (readAttributes size ((name, pos) :: seen) rest).map (⟨name, value⟩ :: ·)
termination_by s.length

/-- The name at the front of the body of a tag. -/
def tagName (body : Text) : Text :=
  body.takeWhile (fun c => !isSpace c)

/-- The attributes of a tag. -/
def tagAttributes (body : Text) : Except TagFault (List Attribute) :=
  readAttributes (Text.byteSize body) [] (body.dropWhile (fun c => !isSpace c))

/-- The binding that an attribute declares, if it declares one. -/
def Attribute.binding? (a : Attribute) : Option Namespace :=
  if a.name = "xmlns".toList then some ⟨[], a.value⟩
  else (Text.after? "xmlns:".toList a.name).map (⟨·, a.value⟩)

end Crosswalk.Markup
