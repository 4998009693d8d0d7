/-
  Crosswalk.Proofs.Path.Frame
  ──────────────────────────────────────
  **WRITING ONE PATH MOVES NOTHING.**

  Names lead along positions of children (`position?`), and a walk ends at the
  element that stands there.  A value that is put at one path replaces
  children where they stand or adds one behind them.  The added child has a
  name that no other child answers to, so it takes no name away from them:

    • `navigate_eq_ok_iff`: where a walk ends,
    • `number?_set`, `number?_concat`: children by name before and after,
    • `assign_cons_cases`: what one name of a write does,
    • `position?_assign`: names lead to the same position after a write,
    • `get?_assign`: at that position stands the same element, with another
      text exactly where the write went,
    • `position?_assign_of_length_lt`: longer names than the written ones lead
      nowhere else,
    • `walks_set`: all of this for paths in either notation, whether the value
      could be put there or not.
-/
import Crosswalk.Proofs.Path.Field
import Crosswalk.Proofs.Path.LastWrite

namespace Crosswalk.Path

open Markup

/-! ## §1. Positions. -/

/-- The child positions that names lead along from an element. -/
def position? : Element → List Text → Option (List Nat)
  | _, [] => some []
  | e, name :: rest =>
    match e.childIndex? name with
    | some i => (position? (e.children.get i) rest).map (i.val :: ·)
    | none => none

/-- The number of the child that a name leads to: of the first exact match, failing that of the
first local one. -/
def number? (name : Text) (cs : List Element) : Option Nat :=
  (cs.findIdx? (Element.matchesExact name)).or (cs.findIdx? (Element.matchesLocal name))

section

variable {e c : Element} {name : Text} {rest : List Text} {i : Nat} {is : List Nat}

theorem number?_children (e : Element) (name : Text) :
    number? name e.children = (e.childIndex? name).map Fin.val := by
  unfold number? Element.childIndex?
  rw [List.findIdx?_eq_map_findFinIdx?_val, List.findIdx?_eq_map_findFinIdx?_val, Option.map_or]

theorem child?_eq (e : Element) (name : Text) :
    e.child? name = (e.childIndex? name).map e.children.get := by
  unfold Element.child? Element.childExact? Element.childLocal? Element.childIndex?
  rw [List.find?_eq_map_findFinIdx?_getElem, List.find?_eq_map_findFinIdx?_getElem, Option.map_or]
  rfl

/-- One step along a name, and then the rest. -/
theorem position?_cons_eq_some : position? e (name :: rest) = some is
    ↔ ∃ i c is', number? name e.children = some i ∧ e.children[i]? = some c
      ∧ position? c rest = some is' ∧ is = i :: is' := by
  rw [position?, number?_children]
  cases e.childIndex? name with
  | none => simp
  | some i =>
      simp only [Option.map_eq_some_iff, Option.some.injEq]
      constructor
      · rintro ⟨is', h, rfl⟩
        exact ⟨i, e.children.get i, is', ⟨i, rfl, rfl⟩, List.getElem?_eq_getElem i.isLt, h, rfl⟩
      · rintro ⟨_, c, is', ⟨_, rfl, rfl⟩, hc, h, rfl⟩
        rw [List.getElem?_eq_getElem i.isLt] at hc
        obtain rfl := Option.some.inj hc
        exact ⟨is', h, rfl⟩

/-- Where names lead to is a matter of the children alone. -/
theorem position?_congr {d : Element} (h : d.children = e.children) :
    position? d rest = position? e rest := by
  cases rest with
  | nil => rfl
  | cons name rest =>
      apply Option.ext
      intro is
      rw [position?_cons_eq_some, position?_cons_eq_some, h]

/-- Names lead on from the child that the first of them leads to. -/
theorem position?_cons_of_number? (hi : number? name e.children = some i)
    (hc : e.children[i]? = some c) :
    position? e (name :: rest) = (position? c rest).map (i :: ·) := by
  apply Option.ext
  intro is
  rw [position?_cons_eq_some, Option.map_eq_some_iff]
  constructor
  · rintro ⟨j, d, is', hj, hd, h, rfl⟩
    obtain rfl := Option.some.inj (hi.symm.trans hj)
    obtain rfl := Option.some.inj (hc.symm.trans hd)
    exact ⟨is', h, rfl⟩
  · rintro ⟨is', h, rfl⟩
    exact ⟨i, c, is', hi, hc, h, rfl⟩

/-- A name that no child answers to leads nowhere. -/
theorem position?_cons_of_none (h : number? name e.children = none) :
    position? e (name :: rest) = none := by
  rw [Option.eq_none_iff_forall_ne_some]
  intro is his
  obtain ⟨i, c, is', hi, -⟩ := position?_cons_eq_some.mp his
  rw [h] at hi
  exact absurd hi nofun

theorem get?_cons_eq_some {x : Element} :
    e.get? (i :: is) = some x ↔ ∃ c, e.children[i]? = some c ∧ c.get? is = some x :=
  Option.bind_eq_some_iff

theorem length_position? : ∀ {names : List Text} {e : Element} {is : List Nat},
    position? e names = some is → is.length = names.length := by
  intro names
  induction names with
  | nil => intro e is h; rw [← Option.some.inj h]; rfl
  | cons name names ih =>
      intro e is h
      obtain ⟨i, c, is', -, -, hrest, rfl⟩ := position?_cons_eq_some.mp h
      rw [List.length_cons, ih hrest, List.length_cons]

/-- **A walk along names ends at their position.** -/
theorem foldlM_child?_eq : ∀ (names : List Text) (e : Element),
    names.foldlM Element.child? e = (position? e names).bind e.get? := by
  intro names
  induction names with
  | nil => intro e; rfl
  | cons name names ih =>
      intro e
      rw [List.foldlM_cons, child?_eq, position?]
      cases e.childIndex? name with
      | none => rfl
      | some i =>
          show names.foldlM Element.child? (e.children.get i) = _
          rw [ih, Option.bind_map]
          congr 1
          funext is
          show (e.children.get i).get? is = (e.children[(i : Nat)]?).bind (·.get? is)
          rw [List.getElem?_eq_getElem i.isLt]
          rfl

/-- A walk that keeps account of its names succeeds exactly when they have a position. -/
theorem foldlM_step_eq_ok_iff : ∀ (names : List Text) (p place : Place),
    names.foldlM Place.step p = .ok place
      ↔ ∃ e, names.foldlM Element.child? p.element = some e ∧ place = ⟨e, p.walked ++ names⟩ := by
  intro names
  induction names with
  | nil =>
      rintro ⟨e, walked⟩ place
      show Except.ok ⟨e, walked⟩ = Except.ok place ↔ ∃ x, some e = some x ∧ place = ⟨x, walked ++ []⟩
      simp [eq_comm]
  | cons name names ih =>
      intro p place
      rw [List.foldlM_cons, List.foldlM_cons, Place.step]
      -- both walks ask for the same child, and only one of them writes its name down
      cases p.element.child? name with
      | none =>
          constructor
          · intro h
            cases h
          · rintro ⟨e, he, -⟩
            cases he
      | some c =>
          refine (ih ⟨c, p.walked ++ [name]⟩ place).trans ?_
          rw [List.append_assoc]
          rfl

/-- **Where a walk by a slash path ends**: at the element at the position of its names, with all of
them on its account. -/
theorem navigate_eq_ok_iff (root : Element) (q : Text) (place : Place) :
    (Place.start root).navigate q = .ok place
      ↔ ∃ is e, position? root (Text.steps '/' q) = some is ∧ root.get? is = some e
        ∧ place = ⟨e, root.qualifiedName :: Text.steps '/' q⟩ := by
  refine (foldlM_step_eq_ok_iff _ _ _).trans ?_
  show (∃ e, (Text.steps '/' q).foldlM Element.child? root = some e ∧ _) ↔ _
  rw [foldlM_child?_eq]
  constructor
  · rintro ⟨e, he, hplace⟩
    obtain ⟨is, his, he⟩ := Option.bind_eq_some_iff.mp he
    exact ⟨is, e, his, he, hplace⟩
  · rintro ⟨is, e, his, he, hplace⟩
    exact ⟨e, Option.bind_eq_some_iff.mpr ⟨is, his, he⟩, hplace⟩

end

/-! ## §2. Children by name, before and after a change. -/

section

variable {cs : List Element} {c d : Element} {m n : Text} {i j : Nat}

/-- Another child of the same name and namespace answers to the same names. -/
theorem matches_congr (hname : d.name = c.name) (hns : d.ns = c.ns) (m : Text) :
    d.matchesExact m = c.matchesExact m ∧ d.matchesLocal m = c.matchesLocal m := by
  unfold Element.matchesExact Element.matchesLocal Element.qualifiedName Element.pre
  rw [hname, hns]
  exact ⟨rfl, rfl⟩

/-- In its place it changes nothing for any name. -/
theorem number?_set (hc : cs[i]? = some c) (hname : d.name = c.name) (hns : d.ns = c.ns) (m : Text) :
    number? m (cs.set i d) = number? m cs := by
  obtain ⟨hi, rfl⟩ := List.getElem?_eq_some_iff.mp hc
  have hindex : ∀ p : Element → Bool, p d = p cs[i] → (cs.set i d).findIdx? p = cs.findIdx? p := by
    intro p hp
    -- the answers of all children stand in the same order as before
    have hmap : (cs.set i d).map p = cs.map p := by
      rw [List.map_set, hp, ← List.getElem_map p (h := by simpa using hi), List.set_getElem_self]
    have hcomp : ∀ l : List Element, l.findIdx? p = (l.map p).findIdx? id := by
      intro l
      rw [List.findIdx?_map]
      rfl
    rw [hcomp, hmap, ← hcomp]
  obtain ⟨hexact, hlocal⟩ := matches_congr hname hns m
  unfold number?
  rw [hindex _ hexact, hindex _ hlocal]

/-- The part of a qualified name behind its colon is the name, when that holds none. -/
theorem localPart_qualify {pre : Text} (hn : ':' ∉ n) : localPart (qualify pre n) = n := by
  unfold qualify
  split
  next => exact localPart_of_not_mem hn
  next =>
    have hrev : ∀ x ∈ n.reverse, (x != ':') = true :=
      Text.forall_bne_of_not_mem fun hmem => hn (List.mem_reverse.mp hmem)
    unfold localPart
    rw [List.reverse_append, List.reverse_cons, List.append_assoc,
      List.takeWhile_append_of_pos hrev, List.singleton_append,
      List.takeWhile_cons_of_neg (by simp), List.append_nil, List.reverse_reverse]

/-- A child without a colon in its name answers exactly only to names with that local part. -/
theorem localPart_of_matchesExact (hc : ':' ∉ c.name) (h : c.matchesExact m = true) :
    localPart m = c.name := by
  unfold Element.matchesExact at h
  split at h
  next =>
    rw [beq_iff_eq] at h
    rw [← h]
    exact localPart_qualify hc
  next hm =>
    rw [Bool.and_eq_true, beq_iff_eq] at h
    rw [localPart_of_not_mem hm, h.2]

/-- **A new child takes no name away.**  No child answers to its name, so whichever name it answers
to, exactly or not, no child answered to that one either. -/
theorem number?_concat (hc : ':' ∉ c.name) (hnone : number? c.name cs = none)
    (hm : number? m cs = some j) : number? m (cs ++ [c]) = some j := by
  have hfree : ∀ x ∈ cs, x.name ≠ c.name := by
    intro x hx hname
    have hlocal := List.findIdx?_eq_none_iff.mp (Option.or_eq_none_iff.mp hnone).2 x hx
    rw [Element.matchesLocal, localPart_of_not_mem hc, hname, beq_self_eq_true] at hlocal
    exact absurd hlocal (by decide)
  have hkeep : ∀ {p : Element → Bool} {k : Nat}, cs.findIdx? p = some k →
      (cs ++ [c]).findIdx? p = some k := by
    intro p k hp
    rw [List.findIdx?_append, hp]
    rfl
  unfold number? at hm ⊢
  rcases Option.or_eq_some_iff.mp hm with hexact | ⟨hexact, hlocal⟩
  · -- an exact match comes before one behind it
    rw [hkeep hexact]
    rfl
  · -- the name leads to a child by its local part, which is then not the new name
    obtain ⟨hj, hmatch, -⟩ := List.findIdx?_eq_some_iff_getElem.mp hlocal
    have hpart : cs[j].name = localPart m := by
      rw [Element.matchesLocal, beq_iff_eq] at hmatch
      exact hmatch
    have hnew : c.matchesExact m = false := by
      by_contra hc'
      rw [Bool.not_eq_false] at hc'
      exact hfree cs[j] (List.getElem_mem hj)
        (hpart.trans (localPart_of_matchesExact hc hc'))
    have hnone' : (cs ++ [c]).findIdx? (Element.matchesExact m) = none := by
      rw [List.findIdx?_append, hexact]
      simp [hnew]
    rw [hnone', hkeep hlocal]
    rfl

/-- A name that leads to one of the old children led there before. -/
theorem number?_of_concat (h : number? m (cs ++ [c]) = some j) (hj : j < cs.length) :
    number? m cs = some j := by
  have hback : ∀ {p : Element → Bool} {k : Nat}, (cs ++ [c]).findIdx? p = some k →
      k < cs.length → cs.findIdx? p = some k := by
    intro p k hp hk
    rw [List.findIdx?_append] at hp
    rcases Option.or_eq_some_iff.mp hp with hp | ⟨-, hp⟩
    · exact hp
    · obtain ⟨l, -, rfl⟩ := Option.map_eq_some_iff.mp hp
      omega
  unfold number? at h ⊢
  rcases Option.or_eq_some_iff.mp h with hexact | ⟨hexact, hlocal⟩
  · rw [hback hexact hj]
    rfl
  · rw [List.findIdx?_append] at hexact
    rw [(Option.or_eq_none_iff.mp hexact).1, hback hlocal hj]
    rfl

/-- To its own name the new child answers. -/
theorem number?_concat_self (hc : ':' ∉ c.name) (hnone : number? c.name cs = none) :
    number? c.name (cs ++ [c]) = some cs.length := by
  have hlocal : c.matchesLocal c.name = true := by
    rw [Element.matchesLocal, localPart_of_not_mem hc, beq_self_eq_true]
  obtain ⟨hexact, hnot⟩ := Option.or_eq_none_iff.mp hnone
  unfold number?
  rw [List.findIdx?_append, List.findIdx?_append, hexact, hnot]
  cases hmatch : c.matchesExact c.name <;> simp [hmatch, hlocal]

end

/-! ## §3. A value at names below an element. -/

section

variable {e c x : Element} {v m n : Text} {p q : List Text} {i j : Nat} {is : List Nat}

/-- **One name of a write**: the child that it leads to is put back in its place, or a child is made
behind the others, or the name is bad and nothing happens. -/
theorem assign_cons_cases (v : Text) (e : Element) (n : Text) (p : List Text) :
    (∃ i c, number? n e.children = some i ∧ e.children[i]? = some c
        ∧ assign v e (n :: p)
          = ({ e with children := e.children.set i (assign v c p).1 }, (assign v c p).2))
      ∨ (number? n e.children = none ∧ isName n = true
        ∧ assign v e (n :: p)
          = (e.addChild (assign v (e.offspring n) p).1, (assign v (e.offspring n) p).2))
      ∨ (number? n e.children = none ∧ assign v e (n :: p) = (e, some (.invalidName n))) := by
  rw [assign, number?_children]
  cases e.childIndex? n with
  | some i =>
      exact .inl ⟨i, e.children.get i, rfl, List.getElem?_eq_getElem i.isLt, rfl⟩
  | none =>
      by_cases hn : isName n = true
      · exact .inr (.inl ⟨rfl, hn, if_pos hn⟩)
      · exact .inr (.inr ⟨rfl, if_neg hn⟩)

/-- An element is what its parts make. -/
theorem eta (x : Element) :
    (⟨x.name, x.ns, x.decls, x.attrs, x.children, x.text⟩ : Element) = x := by
  cases x
  rfl

theorem ns_assign (v : Text) (e : Element) (p : List Text) : (assign v e p).1.ns = e.ns := by
  cases p with
  | nil => rfl
  | cons n p =>
      rcases assign_cons_cases v e n p with ⟨i, c, -, -, h⟩ | ⟨-, -, h⟩ | ⟨-, h⟩
      · rw [h]
      · rw [h]
        rfl
      · rw [h]

/-- A child that is written below answers to the names that it answered to. -/
theorem number?_setChild (v m : Text) (p : List Text) (hc : e.children[i]? = some c) :
    number? m (e.children.set i (assign v c p).1) = number? m e.children :=
  number?_set hc (name_assign v c p) (ns_assign v c p) m

/-- A child that is made takes no name away. -/
theorem number?_addChild (v : Text) (p : List Text) (h : number? n e.children = none)
    (hn : isName n = true) (hm : number? m e.children = some j) :
    number? m (e.children ++ [(assign v (e.offspring n) p).1]) = some j := by
  have hname : (assign v (e.offspring n) p).1.name = n := name_assign v _ p
  refine number?_concat ?_ ?_ hm
  · rw [hname]
    exact colon_not_mem_of_isName hn
  · rw [hname]
    exact h

/-- It answers to its own name. -/
theorem number?_addChild_self (v : Text) (p : List Text) (h : number? n e.children = none)
    (hn : isName n = true) :
    number? n (e.children ++ [(assign v (e.offspring n) p).1]) = some e.children.length := by
  have hname : (assign v (e.offspring n) p).1.name = n := name_assign v _ p
  have hcolon : ':' ∉ (assign v (e.offspring n) p).1.name := by
    rw [hname]
    exact colon_not_mem_of_isName hn
  have hnone : number? (assign v (e.offspring n) p).1.name e.children = none := by
    rw [hname]
    exact h
  have hself := number?_concat_self hcolon hnone
  rwa [hname] at hself

theorem getElem?_addChild (d : Element) (hc : e.children[i]? = some c) :
    (e.addChild d).children[i]? = some c :=
  (List.getElem?_append_left (List.getElem?_eq_some_iff.mp hc).1).trans hc

/-- **Names lead to the same position after a write**, also after one that failed on the way. -/
theorem position?_assign (v : Text) : ∀ (p : List Text) {e : Element} {q : List Text}
    {is : List Nat}, position? e q = some is → position? (assign v e p).1 q = some is := by
  intro p
  induction p with
  | nil =>
      -- only the text of the element itself changes
      intro e q is h
      have hsame : (assign v e []).1.children = e.children := rfl
      exact (position?_congr hsame).trans h
  | cons n p ih =>
      intro e q is h
      cases q with
      | nil => exact h
      | cons m q =>
          obtain ⟨j, d, is', hj, hd, hrest, rfl⟩ := position?_cons_eq_some.mp h
          rcases assign_cons_cases v e n p with ⟨i, c, -, hc, hset⟩ | ⟨hi, hn, hset⟩ | ⟨-, hset⟩
          · rw [hset]
            have hj' := (number?_setChild v m p hc).trans hj
            by_cases hij : i = j
            · -- the way leads through the child that is written below
              subst hij
              obtain rfl := Option.some.inj (hc.symm.trans hd)
              have hi := (List.getElem?_eq_some_iff.mp hc).1
              exact position?_cons_eq_some.mpr ⟨i, (assign v c p).1, is', hj',
                List.getElem?_set_self hi, ih hrest, rfl⟩
            · exact position?_cons_eq_some.mpr ⟨j, d, is', hj',
                (List.getElem?_set_ne hij).trans hd, hrest, rfl⟩
          · rw [hset]
            exact position?_cons_eq_some.mpr ⟨j, d, is', number?_addChild v p hi hn hj,
              getElem?_addChild _ hd, hrest, rfl⟩
          · rw [hset]
            exact h

/-- **At every position stands the same element**, with another text exactly where the names lead
to. -/
theorem get?_assign (v : Text) : ∀ (p : List Text) {e x : Element} {is : List Nat},
    e.get? is = some x → ∃ cs, (assign v e p).1.get? is
      = some { x with children := cs, text := if position? e p = some is then some v else x.text } := by
  intro p
  induction p with
  | nil =>
      intro e x is h
      cases is with
      | nil =>
          obtain rfl := Option.some.inj h
          exact ⟨e.children, rfl⟩
      | cons i is =>
          refine ⟨x.children, ?_⟩
          rw [if_neg (by simp [position?]), eta]
          exact h
  | cons n p ih =>
      intro e x is h
      cases is with
      | nil =>
          -- the element itself keeps its text, since the names lead below it
          obtain rfl := Option.some.inj h
          have hbelow : position? e (n :: p) ≠ some [] := by
            intro hp
            exact absurd (length_position? hp) nofun
          rw [if_neg hbelow]
          rcases assign_cons_cases v e n p with ⟨i, c, -, -, hset⟩ | ⟨-, -, hset⟩ | ⟨-, hset⟩
          · rw [hset]
            exact ⟨e.children.set i (assign v c p).1, rfl⟩
          · rw [hset]
            exact ⟨e.children ++ [(assign v (e.offspring n) p).1], rfl⟩
          · rw [hset]
            exact ⟨e.children, congrArg some (eta e).symm⟩
      | cons j is =>
          obtain ⟨d, hd, hget⟩ := get?_cons_eq_some.mp h
          rcases assign_cons_cases v e n p with ⟨i, c, hi, hc, hset⟩ | ⟨hi, -, hset⟩ | ⟨hi, hset⟩
          · rw [hset, position?_cons_of_number? hi hc]
            by_cases hij : i = j
            · -- below the child the rest of the names leads to the rest of the position
              subst hij
              obtain rfl := Option.some.inj (hc.symm.trans hd)
              obtain ⟨cs, hcs⟩ := ih hget
              have hiff : (position? c p).map (i :: ·) = some (i :: is)
                  ↔ position? c p = some is := by simp
              simp only [hiff]
              have hlt := (List.getElem?_eq_some_iff.mp hc).1
              exact ⟨cs, get?_cons_eq_some.mpr ⟨_, List.getElem?_set_self hlt, hcs⟩⟩
            · have hother : (position? c p).map (i :: ·) ≠ some (j :: is) := by
                intro hp
                obtain ⟨is', -, heq⟩ := Option.map_eq_some_iff.mp hp
                exact hij (List.cons.inj heq).1
              refine ⟨x.children, ?_⟩
              rw [if_neg hother, eta]
              exact get?_cons_eq_some.mpr ⟨d, (List.getElem?_set_ne hij).trans hd, hget⟩
          · -- the child that is made stands behind all that were there
            refine ⟨x.children, ?_⟩
            rw [hset, position?_cons_of_none hi, if_neg nofun, eta]
            exact get?_cons_eq_some.mpr ⟨d, getElem?_addChild _ hd, hget⟩
          · refine ⟨x.children, ?_⟩
            rw [hset, position?_cons_of_none hi, if_neg nofun, eta]
            exact h

/-- **Longer names than the written ones lead where they led before**: what a write makes lies no
deeper than its own names. -/
theorem position?_assign_of_length_lt (v : Text) : ∀ {p q : List Text} {e : Element},
    p.length < q.length → position? (assign v e p).1 q = position? e q := by
  intro p
  induction p with
  | nil =>
      intro q e _
      have hsame : (assign v e []).1.children = e.children := rfl
      exact position?_congr hsame
  | cons n p ih =>
      intro q e hlength
      cases q with
      | nil => exact absurd hlength (Nat.not_lt_zero _)
      | cons m q =>
          have hrest : p.length < q.length := Nat.lt_of_succ_lt_succ hlength
          apply Option.ext
          intro is
          refine ⟨fun h => ?_, position?_assign v (n :: p)⟩
          rcases assign_cons_cases v e n p with ⟨i, c, -, hc, hset⟩ | ⟨-, -, hset⟩ | ⟨-, hset⟩
          · rw [hset] at h
            obtain ⟨j, d, is', hj, hd, hbelow, rfl⟩ := position?_cons_eq_some.mp h
            have hj' := (number?_setChild v m p hc).symm.trans hj
            by_cases hij : i = j
            · subst hij
              have hlt := (List.getElem?_eq_some_iff.mp hc).1
              obtain rfl := Option.some.inj ((List.getElem?_set_self hlt).symm.trans hd)
              exact position?_cons_eq_some.mpr
                ⟨i, c, is', hj', hc, (ih hrest).symm.trans hbelow, rfl⟩
            · exact position?_cons_eq_some.mpr
                ⟨j, d, is', hj', (List.getElem?_set_ne hij).symm.trans hd, hbelow, rfl⟩
          · rw [hset] at h
            obtain ⟨j, d, is', hj, hd, hbelow, rfl⟩ := position?_cons_eq_some.mp h
            by_cases hold : j < e.children.length
            · exact position?_cons_eq_some.mpr ⟨j, d, is', number?_of_concat hj hold,
                (List.getElem?_append_left hold).symm.trans hd, hbelow, rfl⟩
            · -- the rest would have to lead along children of the child that was just made
              have hnew := (List.getElem?_append_right (Nat.le_of_not_lt hold)).symm.trans hd
              obtain rfl := List.mem_singleton.mp (List.mem_of_getElem? hnew)
              rw [ih hrest] at hbelow
              cases q with
              | nil => exact absurd hrest (Nat.not_lt_zero _)
              | cons l q => exact absurd hbelow nofun
          · rw [hset] at h
            exact h

/-- **What was written is found at its names.** -/
theorem exists_position?_assign (v : Text) : ∀ {p : List Text} {e : Element},
    (assign v e p).2 = none → ∃ is x, position? (assign v e p).1 p = some is
      ∧ (assign v e p).1.get? is = some x ∧ x.text = some v := by
  intro p
  induction p with
  | nil => intro e _; exact ⟨[], e.setText v, rfl, rfl, rfl⟩
  | cons n p ih =>
      intro e h
      rcases assign_cons_cases v e n p with ⟨i, c, hi, hc, hset⟩ | ⟨hi, hn, hset⟩ | ⟨-, hset⟩
      · rw [hset] at h ⊢
        obtain ⟨is, x, his, hget, htext⟩ := ih h
        have hlt := (List.getElem?_eq_some_iff.mp hc).1
        exact ⟨i :: is, x, position?_cons_eq_some.mpr ⟨i, _, is,
            (number?_setChild v n p hc).trans hi, List.getElem?_set_self hlt, his, rfl⟩,
          get?_cons_eq_some.mpr ⟨_, List.getElem?_set_self hlt, hget⟩, htext⟩
      · rw [hset] at h ⊢
        obtain ⟨is, x, his, hget, htext⟩ := ih h
        -- the child that was made stands behind the others
        exact ⟨e.children.length :: is, x, position?_cons_eq_some.mpr ⟨_, _, is,
            number?_addChild_self v p hi hn, List.getElem?_concat_length, his, rfl⟩,
          get?_cons_eq_some.mpr ⟨_, List.getElem?_concat_length, hget⟩, htext⟩
      · rw [hset] at h
        exact absurd h nofun

/-- An element that is there can be written. -/
theorem assign_of_position? (v : Text) : ∀ {p : List Text} {e : Element} {is : List Nat},
    position? e p = some is → (assign v e p).2 = none := by
  intro p
  induction p with
  | nil => intro e is _; rfl
  | cons n p ih =>
      intro e is h
      rcases assign_cons_cases v e n p with ⟨i, c, hi, hc, hset⟩ | ⟨hi, -⟩ | ⟨hi, -⟩
      · rw [position?_cons_of_number? hi hc] at h
        obtain ⟨is', h, -⟩ := Option.map_eq_some_iff.mp h
        rw [hset]
        exact ih h
      · rw [position?_cons_of_none hi] at h
        exact absurd h nofun
      · rw [position?_cons_of_none hi] at h
        exact absurd h nofun

end

/-! ## §4. A value at a path. -/

/-- The position of the element that a path addresses, when there is one. -/
def addressed? (root : Element) (path : Option Text) : Option (List Nat) :=
  match path with
  | none => none
  | some path =>
    match namesBelow root.name path with
    | [] => none
    | names => position? root names

/-- **What a call does**: nothing, when there is no value or the path has no names; otherwise it
puts the value at the names. -/
theorem set_cases (root : Element) (path value : Option Text) :
    (set root path value = (root, none) ∧ (value = none ∨ addressed? root path = none))
      ∨ ∃ v names, value = some v ∧ set root path value = assign v root names
        ∧ addressed? root path = position? root names := by
  unfold set addressed?
  cases path with
  | none => exact .inl ⟨rfl, .inr rfl⟩
  | some path =>
      cases value with
      | none => exact .inl ⟨rfl, .inl rfl⟩
      | some v =>
          cases hnames : namesBelow root.name path with
          | nil => exact .inl ⟨by simp only [hnames], .inr (by simp only [hnames])⟩
          | cons n names =>
              exact .inr ⟨v, n :: names, rfl, by simp only [hnames], by simp only [hnames]⟩

section

variable (root : Element) (path value : Option Text)

theorem position?_set {q : List Text} {is : List Nat} (h : position? root q = some is) :
    position? (set root path value).1 q = some is := by
  rcases set_cases root path value with ⟨hset, -⟩ | ⟨v, names, -, hset, -⟩
  · rw [hset]
    exact h
  · rw [hset]
    exact position?_assign v names h

theorem get?_set {is : List Nat} {e : Element} (h : root.get? is = some e) :
    ∃ cs, (set root path value).1.get? is = some
      { e with
        children := cs
        text := if addressed? root path = some is then value.or e.text else e.text } := by
  rcases set_cases root path value with ⟨hset, hnothing⟩ | ⟨v, names, hvalue, hset, haddressed⟩
  · have hsame : (if addressed? root path = some is then value.or e.text else e.text) = e.text := by
      rcases hnothing with hvalue | haddressed
      · rw [hvalue, Option.none_or, ite_self]
      · rw [haddressed, if_neg nofun]
    refine ⟨e.children, ?_⟩
    rw [hset, hsame, eta]
    exact h
  · rw [hset, hvalue, haddressed]
    exact get?_assign v names h

/-- The root stays the root, with its name. -/
theorem qualifiedName_set : (set root path value).1.qualifiedName = root.qualifiedName := by
  have hstart : root.get? [] = some root := rfl
  obtain ⟨cs, hroot⟩ := get?_set root path value hstart
  rw [Option.some.inj hroot]
  rfl

/-- **WRITING ONE PATH NEVER REDIRECTS ANOTHER.**  Whatever path and value are given, and whether the
value could be put there or not: every walk that reached an element reaches the element at the same
position, with the same account of its names.  At every position there was, the element stays and
keeps its name, its namespace, its declarations and its attributes, so what is new stands behind
its siblings; only the text of the element that the path addresses becomes the value, if there is
one, and that element can always be written. -/
theorem walks_set :
    (∀ q place, (Place.start root).navigate q = .ok place →
        ∃ is e, position? root (Text.steps '/' q) = some is ∧ root.get? is = some place.element
          ∧ position? (set root path value).1 (Text.steps '/' q) = some is
          ∧ (set root path value).1.get? is = some e
          ∧ (Place.start (set root path value).1).navigate q = .ok ⟨e, place.walked⟩)
      ∧ (∀ is e, root.get? is = some e → ∃ cs, (set root path value).1.get? is = some
          { e with
            children := cs
            text := if addressed? root path = some is then value.or e.text else e.text })
      ∧ (addressed? root path ≠ none → (set root path value).2 = none) := by
  refine ⟨fun q place hplace => ?_, fun is e => get?_set root path value, fun h => ?_⟩
  · obtain ⟨is, e, his, hget, rfl⟩ := (navigate_eq_ok_iff root q place).mp hplace
    have his' := position?_set root path value his
    obtain ⟨cs, hget'⟩ := get?_set root path value hget
    -- the account begins with the name of the root, which is the same
    refine ⟨is, _, his, hget, his', hget', ?_⟩
    rw [navigate_eq_ok_iff, qualifiedName_set]
    exact ⟨is, _, his', hget', rfl⟩
  · obtain ⟨is, his⟩ := Option.ne_none_iff_exists'.mp h
    rcases set_cases root path value with ⟨hset, -⟩ | ⟨v, names, -, hset, haddressed⟩
    · rw [hset]
    · rw [hset]
      exact assign_of_position? v (haddressed.symm.trans his)

end

/-- A root with a prefixed child, and with two children of one name behind it. -/
def siblings : Element :=
  { Element.bare "R".toList none with
    children :=
      [⟨"Amt".toList, some ⟨"p".toList, "urn:p".toList⟩, [], [], [], some "1".toList⟩,
        { Element.bare "Tx".toList none with text := some "2".toList },
        { Element.bare "Tx".toList none with text := some "3".toList }] }

/-- A value for the child that only its local name leads to is its text, whichever name leads there
afterwards; and a call that made an element and then failed leaves the walk to the element above it
as it was. -/
theorem walks_set_siblings :
    (∃ e, (Place.start (set siblings (some "Amt".toList) (some "9".toList)).1).navigate
          "p:Amt".toList = .ok ⟨e, ["R".toList, "p:Amt".toList]⟩ ∧ e.text = some "9".toList)
      ∧ (set siblings (some "Tx/New/1bad".toList) (some "9".toList)).2 ≠ none
      ∧ ∃ e, (Place.start (set siblings (some "Tx/New/1bad".toList) (some "9".toList)).1).navigate
          "Tx".toList = .ok ⟨e, ["R".toList, "Tx".toList]⟩ ∧ e.text = some "2".toList := by
  obtain ⟨hamt, hkeep, -⟩ := walks_set siblings (some "Amt".toList) (some "9".toList)
  obtain ⟨htx, hstay, -⟩ := walks_set siblings (some "Tx/New/1bad".toList) (some "9".toList)
  have hwalk : ∀ q i c, position? siblings (Text.steps '/' q) = some [i] →
      siblings.get? [i] = some c → (Place.start siblings).navigate q
        = .ok ⟨c, siblings.qualifiedName :: Text.steps '/' q⟩ := fun q i c hi hc =>
    (navigate_eq_ok_iff siblings q _).mpr ⟨[i], c, hi, hc, rfl⟩
  refine ⟨?_, by decide, ?_⟩
  · obtain ⟨is, e, his, -, -, hget, hafter⟩ := hamt _ _ (hwalk "p:Amt".toList 0 _ (by decide) rfl)
    obtain rfl : is = [0] := Option.some.inj (his.symm.trans (by decide))
    obtain ⟨cs, hset⟩ := hkeep [0] _ rfl
    refine ⟨e, hafter, ?_⟩
    rw [Option.some.inj (hget.symm.trans hset), if_pos (by decide)]
    rfl
  · obtain ⟨is, e, his, -, -, hget, hafter⟩ := htx _ _ (hwalk "Tx".toList 1 _ (by decide) rfl)
    obtain rfl : is = [1] := Option.some.inj (his.symm.trans (by decide))
    obtain ⟨cs, hset⟩ := hstay [1] _ rfl
    refine ⟨e, hafter, ?_⟩
    rw [Option.some.inj (hget.symm.trans hset), if_neg (by decide)]

end Crosswalk.Path
