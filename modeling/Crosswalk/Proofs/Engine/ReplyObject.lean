/-
  Crosswalk.Proofs.Engine.ReplyObject
  ──────────────────────────────────────
  **OBJECTS THAT ARE BUILT PATH BY PATH.**

  A path of keys may lead through objects that are missing.  `putInPlace`
  changes the object on its way: it makes a missing object before it looks at
  the next key, and keeps what it made when a later key holds something else.
  It never comes to that, because behind an object that was just made there
  is nothing to be in conflict with:

    • `putInPlace_fst`: one key of the way, and then the rest,
    • `plain_putInPlace`: the keys stay in order at every depth,
    • `putInPlace_eq`: a conflict leaves the object as it is, so the walk in
      place is `putMember`,
    • `lookup_putInPlace`, `lookup_putInPlace_of_not_prefix`: what is found at
      a path after a text was put there, and after one was put elsewhere,
    • `putInPlace_comm`: two texts at paths of which none leads to the other.
-/
import Crosswalk.Engine.Reply
import Crosswalk.Proofs.Json.RoundTrip

namespace Crosswalk.Engine

/-! ## §1. The walk in place. -/

/-- The members of a value that a path leads through: a missing value is an empty object, and any
value but an object has none. -/
def membersOf? : Option Json → Option Members
  | none => some []
  | some (.object inner) => some inner
  | some _ => none

/-- Puts a text at the end of a path of keys, in the object itself.  Gives the object, and the key
of the first value on the way that is no object. -/
def putInPlace (value : Text) : List Text → Members → Members × Option Text
  | [], members => (members, none)
  | [key], members => (Json.insert key (.string value) members, none)
  | key :: next :: rest, members =>
    match membersOf? (Json.member? key members) with
    | some inner =>
      let (inner, conflict) := putInPlace value (next :: rest) inner
      (Json.insert key (.object inner) members, conflict)
    | none => (members, some key)

/-- What becomes of the value of a key when a text is put behind it; none when there is a
conflict at this key. -/
def changed? (value : Text) (rest : List Text) (old : Option Json) : Option Json :=
  match rest with
  | [] => some (.string value)
  | next :: rest =>
    (membersOf? old).map (fun inner => .object (putInPlace value (next :: rest) inner).1)

section

variable {value other key next : Text} {rest keys p q : List Text} {members inner : Members}

theorem putInPlace_of_members (h : membersOf? (Json.member? key members) = some inner) :
    putInPlace value (key :: next :: rest) members
      = (Json.insert key (.object (putInPlace value (next :: rest) inner).1) members,
          (putInPlace value (next :: rest) inner).2) := by
  rw [putInPlace, h]

theorem putInPlace_of_none (h : membersOf? (Json.member? key members) = none) :
    putInPlace value (key :: next :: rest) members = (members, some key) := by
  rw [putInPlace, h]

theorem membersOf?_eq_some {old : Option Json} :
    membersOf? old = some inner ↔ old = none ∧ inner = [] ∨ old = some (.object inner) := by
  cases old with
  | none => simp [membersOf?, eq_comm]
  | some v => cases v <;> simp [membersOf?]

/-- **One key of the way**: its value changes, or the object stays as it is. -/
theorem putInPlace_fst (value key : Text) (rest : List Text) (members : Members) :
    (putInPlace value (key :: rest) members).1
      = match changed? value rest (Json.member? key members) with
        | some v => Json.insert key v members
        | none => members := by
  cases rest with
  | nil => rfl
  | cons next rest =>
      rw [changed?]
      cases h : membersOf? (Json.member? key members) with
      | none =>
          rw [putInPlace_of_none h]
          rfl
      | some inner =>
          rw [putInPlace_of_members h]
          rfl

/-- An empty object is in conflict with no path. -/
theorem putInPlace_nil (value : Text) : ∀ keys : List Text, (putInPlace value keys []).2 = none := by
  intro keys
  induction keys with
  | nil => rfl
  | cons key rest ih =>
      cases rest with
      | nil => rfl
      | cons next rest => exact ih

/-! ## §2. The order of the keys. -/

theorem plain_of_member? {depth : Nat} {v : Json} (h : Json.Plain (depth + 1) (.object members))
    (hv : Json.member? key members = some v) : Json.Plain depth v := by
  cases h with
  | object _ values => exact values _ (Json.mem_of_member? hv)

theorem sorted_of_plain {depth : Nat} (h : Json.Plain depth (.object members)) :
    Json.Sorted members := by
  cases h with
  | object sorted _ => exact sorted

theorem plain_nil (depth : Nat) : Json.Plain (depth + 1) (.object []) :=
  .object List.Pairwise.nil nofun

theorem plain_insert {depth : Nat} {v : Json} (h : Json.Plain (depth + 1) (.object members))
    (hv : Json.Plain depth v) : Json.Plain (depth + 1) (.object (Json.insert key v members)) := by
  cases h with
  | object sorted values =>
      refine .object (Json.sorted_insert key v sorted) fun m hm => ?_
      rcases Json.mem_insert key v hm with rfl | hm
      · exact hv
      · exact values m hm

/-- **The keys stay in order at every depth**, and the objects lie no deeper than the path. -/
theorem plain_putInPlace (value : Text) : ∀ {keys : List Text} {depth : Nat} {members : Members},
    Json.Plain (depth + 1) (.object members) → keys.length ≤ depth + 1 →
    Json.Plain (depth + 1) (.object (putInPlace value keys members).1) := by
  intro keys
  induction keys with
  | nil => intro depth members h _; exact h
  | cons key rest ih =>
      intro depth members h hlength
      cases rest with
      | nil => exact plain_insert h (.string value)
      | cons next rest =>
          cases hinner : membersOf? (Json.member? key members) with
          | none =>
              rw [putInPlace_of_none hinner]
              exact h
          | some inner =>
              rw [putInPlace_of_members hinner]
              -- there is room for the object of the key, since the path goes on behind it
              cases depth with
              | zero => exact absurd hlength (by simp)
              | succ depth =>
                  have hplain : Json.Plain (depth + 1) (.object inner) := by
                    rcases membersOf?_eq_some.mp hinner with ⟨-, rfl⟩ | hobject
                    · exact plain_nil depth
                    · exact plain_of_member? h hobject
                  exact plain_insert h (ih hplain (Nat.le_of_succ_le_succ hlength))

/-! ## §3. Conflicts. -/

theorem putMember_of_members (h : membersOf? (Json.member? key members) = some inner) :
    putMember value (key :: next :: rest) members
      = (putMember value (next :: rest) inner).map (fun m => Json.insert key (.object m) members) := by
  rw [putMember]
  rcases membersOf?_eq_some.mp h with ⟨hv, rfl⟩ | hv
  · rw [hv]
  · rw [hv]

theorem putMember_of_none (h : membersOf? (Json.member? key members) = none) :
    putMember value (key :: next :: rest) members = .error key := by
  rw [putMember]
  cases hv : Json.member? key members with
  | none =>
      rw [hv] at h
      exact absurd h nofun
  | some v =>
      rw [hv] at h
      cases v with
      | object inner => exact absurd h nofun
      | _ => rfl

/-- **A conflict leaves the object as it is**, because it lies in an object that was there before:
what the walk in place did until then changes nothing, so it is `putMember`. -/
theorem putInPlace_eq (value : Text) : ∀ {keys : List Text} {depth : Nat} {members : Members},
    Json.Plain depth (.object members) → putInPlace value keys members
      = match putMember value keys members with
        | .ok next => (next, none)
        | .error part => (members, some part) := by
  intro keys
  induction keys with
  | nil => intro depth members _; rfl
  | cons key rest ih =>
      intro depth members hplain
      cases rest with
      | nil => rfl
      | cons next rest =>
          cases hinner : membersOf? (Json.member? key members) with
          | none => rw [putInPlace_of_none hinner, putMember_of_none hinner]
          | some inner =>
              rw [putInPlace_of_members hinner, putMember_of_members hinner]
              rcases membersOf?_eq_some.mp hinner with ⟨-, rfl⟩ | hobject
              · -- the object was just made, and a walk into it succeeds
                have hnew := ih (plain_nil 0)
                cases hput : putMember value (next :: rest) [] with
                | ok m =>
                    rw [hput] at hnew
                    rw [hnew]
                    rfl
                | error part =>
                    rw [hput] at hnew
                    exact absurd (hnew ▸ putInPlace_nil value (next :: rest)) nofun
              · cases depth with
                | zero => exact absurd hplain nofun
                | succ depth =>
                    have hdeeper := ih (plain_of_member? hplain hobject)
                    cases hput : putMember value (next :: rest) inner with
                    | ok m =>
                        rw [hput] at hdeeper
                        rw [hdeeper]
                        rfl
                    | error part =>
                        -- the object of the key is put back as it was
                        rw [hput] at hdeeper
                        rw [hdeeper]
                        show (Json.insert key (.object inner) members, some part) = (members, some part)
                        rw [Json.insert_of_member? (sorted_of_plain hplain) hobject]

/-! ## §4. What is found. -/

theorem lookup_cons (key : Text) (rest : List Text) (members : Members) :
    Json.lookup (key :: rest) (.object members)
      = (Json.member? key members).bind (Json.lookup rest) := by
  rw [Json.lookup]

/-- **A text is found where it was put.** -/
theorem lookup_putInPlace (value : Text) : ∀ {keys : List Text} {members : Members}, keys ≠ [] →
    (putInPlace value keys members).2 = none →
    Json.lookup keys (.object (putInPlace value keys members).1) = some (.string value) := by
  intro keys
  induction keys with
  | nil => intro members h _; exact absurd rfl h
  | cons key rest ih =>
      intro members _ hok
      cases rest with
      | nil =>
          rw [lookup_cons]
          show (Json.member? key (Json.insert key (.string value) members)).bind _ = _
          rw [Json.member?_insert, if_pos rfl]
          rfl
      | cons next rest =>
          cases hinner : membersOf? (Json.member? key members) with
          | none =>
              rw [putInPlace_of_none hinner] at hok
              exact absurd hok nofun
          | some inner =>
              rw [putInPlace_of_members hinner] at hok ⊢
              rw [lookup_cons, Json.member?_insert, if_pos rfl]
              exact ih nofun hok

/-- **A text stays where it is** when another one is put at a path that does not lead to it: neither
to its own place nor to one above. -/
theorem lookup_putInPlace_of_not_prefix (other : Text) : ∀ {p q : List Text} {members : Members},
    Json.lookup p (.object members) = some (.string value) → ¬ q <+: p →
    Json.lookup p (.object (putInPlace other q members).1) = some (.string value) := by
  intro p
  induction p with
  | nil => intro q members h _; exact absurd h nofun
  | cons key rest ih =>
      intro q members h hq
      cases q with
      | nil => exact absurd List.nil_prefix hq
      | cons first q =>
          rw [lookup_cons] at h
          rw [putInPlace_fst]
          cases hchanged : changed? other q (Json.member? first members) with
          | none =>
              rw [lookup_cons]
              exact h
          | some v =>
              show Json.lookup (key :: rest) (.object (Json.insert first v members)) = _
              rw [lookup_cons, Json.member?_insert]
              by_cases hsame : key = first
              · subst hsame
                rw [if_pos rfl]
                cases q with
                | nil => exact absurd (List.cons_prefix_cons.mpr ⟨rfl, List.nil_prefix⟩) hq
                | cons next q =>
                    -- the other text goes into the object in which this one is found
                    obtain ⟨inner, hinner, rfl⟩ := Option.map_eq_some_iff.mp hchanged
                    obtain ⟨u, hu, hfound⟩ := Option.bind_eq_some_iff.mp h
                    rcases membersOf?_eq_some.mp hinner with ⟨hnone, -⟩ | hobject
                    · rw [hnone] at hu
                      exact absurd hu nofun
                    · obtain rfl := Option.some.inj (hu.symm.trans hobject)
                      exact ih hfound fun hpre => hq (List.cons_prefix_cons.mpr ⟨rfl, hpre⟩)
              · rw [if_neg hsame]
                exact h

/-! ## §5. Two texts. -/

/-- None of two paths leads to the other. -/
def Apart (p q : List Text) : Prop :=
  ¬ p <+: q ∧ ¬ q <+: p

instance (p q : List Text) : Decidable (Apart p q) :=
  inferInstanceAs (Decidable (_ ∧ _))

theorem Apart.symm (h : Apart p q) : Apart q p :=
  ⟨h.2, h.1⟩

theorem Apart.of_cons (h : Apart (key :: p) (key :: q)) : Apart p q :=
  ⟨fun hp => h.1 (List.cons_prefix_cons.mpr ⟨rfl, hp⟩),
    fun hq => h.2 (List.cons_prefix_cons.mpr ⟨rfl, hq⟩)⟩

/-- Paths that share their first key go on behind it. -/
theorem Apart.ne_nil (h : Apart (key :: p) (key :: q)) : p ≠ [] ∧ q ≠ [] := by
  constructor
  · rintro rfl
    exact h.1 (List.cons_prefix_cons.mpr ⟨rfl, List.nil_prefix⟩)
  · rintro rfl
    exact h.2 (List.cons_prefix_cons.mpr ⟨rfl, List.nil_prefix⟩)

/-- Behind different keys two texts do not meet. -/
theorem putInPlace_comm_of_ne (value other : Text) (p q : List Text) (members : Members)
    {first : Text} (hne : key ≠ first) :
    (putInPlace value (key :: p) (putInPlace other (first :: q) members).1).1
      = (putInPlace other (first :: q) (putInPlace value (key :: p) members).1).1 := by
  have hkeep : ∀ {k l : Text} (v : Json), k ≠ l →
      Json.member? k (Json.insert l v members) = Json.member? k members := by
    intro k l v hkl
    rw [Json.member?_insert, if_neg hkl]
  rw [putInPlace_fst other first q members, putInPlace_fst value key p members]
  -- each of them changes its own key or, in a conflict, nothing
  cases hp : changed? value p (Json.member? key members) with
  | none =>
      cases hq : changed? other q (Json.member? first members) with
      | none => rw [putInPlace_fst, putInPlace_fst, hp, hq]
      | some v => rw [putInPlace_fst, putInPlace_fst, hkeep v hne, hp, hq]
  | some u =>
      cases hq : changed? other q (Json.member? first members) with
      | none => rw [putInPlace_fst, putInPlace_fst, hkeep u (Ne.symm hne), hp, hq]
      | some v =>
          rw [putInPlace_fst, putInPlace_fst, hkeep u (Ne.symm hne), hkeep v hne, hp, hq]
          exact Json.insert_comm hne members

/-- **Texts at paths apart can be put in any order.**  Paths that share their first keys meet in one
object, whichever of them makes it, and go apart in it. -/
theorem putInPlace_comm (value other : Text) : ∀ {p q : List Text} (members : Members), Apart p q →
    (putInPlace value p (putInPlace other q members).1).1
      = (putInPlace other q (putInPlace value p members).1).1 := by
  intro p
  induction p with
  | nil => intro q members h; exact absurd List.nil_prefix h.1
  | cons key p ih =>
      intro q members h
      cases q with
      | nil => exact absurd List.nil_prefix h.2
      | cons first q =>
          by_cases hsame : key = first
          · subst hsame
            obtain ⟨hp, hq⟩ := h.ne_nil
            obtain ⟨l, p, rfl⟩ := List.exists_cons_of_ne_nil hp
            obtain ⟨m, q, rfl⟩ := List.exists_cons_of_ne_nil hq
            cases hinner : membersOf? (Json.member? key members) with
            | none => simp only [putInPlace_of_none hinner]
            | some inner =>
                -- the second text finds the object that the first one put back
                have hagain : ∀ n : Members, membersOf? (Json.member? key
                    (Json.insert key (.object n) members)) = some n := by
                  intro n
                  rw [Json.member?_insert, if_pos rfl]
                  rfl
                rw [putInPlace_of_members hinner, putInPlace_of_members hinner,
                  putInPlace_of_members (hagain _), putInPlace_of_members (hagain _),
                  Json.insert_insert, Json.insert_insert, ih inner h.of_cons]
          · exact putInPlace_comm_of_ne value other p q members hsame

end

end Crosswalk.Engine
