/-
  Crosswalk.Proofs.Path.LastWrite
  ──────────────────────────────────────
  **A TREE THAT WAS WRITTEN PATH BY PATH.**

  A list of writes (`Writes`), each a path of names and a text, says what a
  tree must look like in which nothing else was put (`Reflects`): an element
  is there when a write went to it or through it, its text is that of the
  last write to exactly its path, and its children stand in the order in which
  they were first needed.

    • `Reflects.assign`: one more write at valid names keeps tree and list
      together,
    • `Reflects.walk`, `Reflects.exists_walk`, `Reflects.descend?_eq`: what
      walking along names finds,
    • `Reflects.walk_of_get?`: no element is out of reach.
-/
import Mathlib.Data.List.Nodup
import Crosswalk.Path.Assign
import Crosswalk.Proofs.Markup.Tag

namespace Crosswalk.Path

open Markup

/-! ## §1. Lists of writes. -/

/-- Writes in the order they were made: the names of an element below the root, and its text. -/
abbrev Writes := List (List Text × Text)

namespace Writes

/-- The text of the last write at exactly these names. -/
def last? (ws : Writes) (p : List Text) : Option Text :=
  ((ws.filter (·.1 = p)).getLast?).map Prod.snd

/-- The writes at the given names or below, with the names that lead on from there. -/
def under (ws : Writes) (p : List Text) : Writes :=
  ws.filterMap (fun w => (p.isPrefixOf? w.1).map (·, w.2))

/-- The names that paths begin with, each once, in the order of the first write. -/
def heads (ws : Writes) : List Text :=
  (ws.filterMap (·.1.head?)).eraseDups

/-- What counts below `p` was written at `p` or below. -/
theorem mem_under {ws : Writes} {p q : List Text} {v : Text} :
    (q, v) ∈ ws.under p ↔ (p ++ q, v) ∈ ws := by
  unfold under
  rw [List.mem_filterMap]
  constructor
  · rintro ⟨⟨names, u⟩, hw, heq⟩
    obtain ⟨rest, hrest, hpair⟩ := Option.map_eq_some_iff.mp heq
    obtain ⟨rfl, rfl⟩ := Prod.mk.inj hpair
    rw [List.isPrefixOf?_eq_some_iff_append_eq.mp hrest]
    exact hw
  · intro hw
    refine ⟨(p ++ q, v), hw, ?_⟩
    rw [List.isPrefixOf?_eq_some_iff_append_eq.mpr rfl]
    rfl

theorem under_nil (ws : Writes) : ws.under [] = ws := by
  unfold under
  have hall : (fun w : List Text × Text => ([].isPrefixOf? w.1).map (·, w.2)) = some := by
    funext ⟨names, v⟩
    cases names <;> rfl
  rw [hall, List.filterMap_some]

theorem under_append (ws ws' : Writes) (p : List Text) :
    under (ws ++ ws') p = ws.under p ++ ws'.under p :=
  List.filterMap_append

theorem under_cons (ws : Writes) (n : Text) (p : List Text) :
    ws.under (n :: p) = (ws.under [n]).under p := by
  unfold under
  rw [List.filterMap_filterMap]
  congr 1
  funext ⟨names, v⟩
  cases names with
  | nil => rfl
  | cons m names =>
      by_cases h : n = m <;> simp [List.isPrefixOf?, h]

/-- A write at names below `n` counts below `n` and nowhere else. -/
theorem under_singleton_concat (ws : Writes) (n m : Text) (p : List Text) (v : Text) :
    under (ws ++ [(n :: p, v)]) [m] = ws.under [m] ++ (if m = n then [(p, v)] else []) := by
  rw [under_append]
  by_cases h : m = n <;> simp [under, List.isPrefixOf?, h]

theorem under_ne_nil_iff (ws : Writes) (p : List Text) :
    ws.under p ≠ [] ↔ ∃ w ∈ ws, p <+: w.1 := by
  constructor
  · intro h
    obtain ⟨⟨rest, v⟩, hmem⟩ := List.exists_mem_of_ne_nil _ h
    exact ⟨(p ++ rest, v), mem_under.mp hmem, rest, rfl⟩
  · rintro ⟨⟨names, v⟩, hw, rest, hrest⟩
    subst hrest
    exact List.ne_nil_of_mem (mem_under.mpr hw)

theorem last?_under (ws : Writes) (p : List Text) : (ws.under p).last? [] = ws.last? p := by
  have hfilter : (ws.under p).filter (·.1 = []) = (ws.filter (·.1 = p)).map (fun w => ([], w.2)) := by
    induction ws with
    | nil => rfl
    | cons w ws ih =>
        have hsplit : under (w :: ws) p = under [w] p ++ under ws p := under_append [w] ws p
        rw [hsplit, List.filter_append, ih]
        by_cases h : w.1 = p
        · rw [List.filter_cons_of_pos (by simp [h]), List.map_cons, ← List.singleton_append]
          have hp : p.isPrefixOf? w.1 = some [] :=
            List.isPrefixOf?_eq_some_iff_append_eq.mpr (by rw [List.append_nil, h])
          simp [under, hp]
        · rw [List.filter_cons_of_neg (by simp [h])]
          have hnone : (under [w] p).filter (·.1 = []) = [] := by
            rw [List.filter_eq_nil_iff]
            rintro ⟨rest, v⟩ hx
            have hw := List.mem_singleton.mp (mem_under.mp hx)
            simp only [decide_eq_true_eq]
            rintro rfl
            rw [List.append_nil] at hw
            exact h (congrArg Prod.fst hw).symm
          rw [hnone, List.nil_append]
  unfold last?
  rw [hfilter, List.getLast?_map, Option.map_map]
  rfl

/-- With different paths every write is the last one at its path. -/
theorem last?_of_nodup {ws : Writes} (hd : (ws.map Prod.fst).Nodup) {w : List Text × Text}
    (hw : w ∈ ws) : ws.last? w.1 = some w.2 := by
  have hfilter : ws.filter (·.1 = w.1) = [w] := by
    induction ws with
    | nil => exact absurd hw List.not_mem_nil
    | cons u ws ih =>
        rw [List.map_cons, List.nodup_cons] at hd
        obtain ⟨hnew, hd⟩ := hd
        rcases List.mem_cons.mp hw with rfl | hw
        · rw [List.filter_cons_of_pos (by simp)]
          have hnone : ws.filter (·.1 = w.1) = [] := by
            rw [List.filter_eq_nil_iff]
            intro u hu
            simp only [decide_eq_true_eq]
            exact fun heq => hnew (heq ▸ List.mem_map_of_mem hu)
          rw [hnone]
        · have hne : u.1 ≠ w.1 := fun heq => hnew (heq ▸ List.mem_map_of_mem hw)
          rw [List.filter_cons_of_neg (by simp [hne])]
          exact ih hd hw
  unfold last?
  rw [hfilter]
  rfl

theorem nodup_eraseDups : ∀ (l : List Text), l.eraseDups.Nodup
  | [] => List.nodup_nil
  | a :: l => by
      rw [List.eraseDups_cons, List.nodup_cons]
      refine ⟨fun h => ?_, nodup_eraseDups _⟩
      rw [List.mem_eraseDups] at h
      simpa using (List.mem_filter.mp h).2
termination_by l => l.length
decreasing_by exact Nat.lt_succ_of_le (List.length_filter_le _ l)

theorem nodup_heads (ws : Writes) : ws.heads.Nodup :=
  nodup_eraseDups _

theorem mem_heads (ws : Writes) (n : Text) : n ∈ ws.heads ↔ ∃ w ∈ ws, [n] <+: w.1 := by
  unfold heads
  rw [List.mem_eraseDups, List.mem_filterMap]
  refine exists_congr fun w => and_congr_right fun _ => ?_
  rw [List.head?_eq_some_iff]
  exact ⟨fun ⟨t, ht⟩ => ⟨t, ht.symm⟩, fun ⟨t, ht⟩ => ⟨t, ht.symm⟩⟩

theorem heads_concat_nil (ws : Writes) (v : Text) : heads (ws ++ [([], v)]) = ws.heads := by
  unfold heads
  rw [List.filterMap_append]
  exact congrArg List.eraseDups (List.append_nil _)

/-- A new first name comes behind the others. -/
theorem heads_concat_cons (ws : Writes) (n : Text) (p : List Text) (v : Text) :
    heads (ws ++ [(n :: p, v)]) = if n ∈ ws.heads then ws.heads else ws.heads ++ [n] := by
  unfold heads
  rw [List.filterMap_append, List.eraseDups_append]
  by_cases h : n ∈ ws.filterMap (·.1.head?)
  · rw [if_pos (List.mem_eraseDups.mpr h)]
    have hnone : ([n].removeAll (ws.filterMap (·.1.head?))) = [] := by
      simp only [List.removeAll, List.filter_eq_nil_iff, List.mem_singleton]
      rintro x rfl
      simpa using h
    simp [hnone]
  · rw [if_neg (fun hm => h (List.mem_eraseDups.mp hm))]
    have hkeep : ([n].removeAll (ws.filterMap (·.1.head?))) = [n] := by
      simp only [List.removeAll, List.filter_eq_self, List.mem_singleton]
      rintro x rfl
      simpa using h
    exact congrArg (_ ++ ·) (congrArg List.eraseDups hkeep)

end Writes

/-! ## §2. Children by name. -/

/-- A name without a colon is its own local part. -/
theorem localPart_of_not_mem {n : Text} (hn : ':' ∉ n) : localPart n = n := by
  have h : ∀ c ∈ n.reverse, (c != ':') = true :=
    Text.forall_bne_of_not_mem fun hmem => hn (List.mem_reverse.mp hmem)
  unfold localPart
  rw [List.takeWhile_eq_self_iff.mpr h, List.reverse_reverse]

theorem matchesLocal_iff {n : Text} (hn : ':' ∉ n) (e : Element) :
    e.matchesLocal n = true ↔ e.name = n := by
  unfold Element.matchesLocal
  rw [localPart_of_not_mem hn, beq_iff_eq]

theorem name_of_matchesExact {n : Text} (hn : ':' ∉ n) {e : Element}
    (h : e.matchesExact n = true) : e.name = n := by
  unfold Element.matchesExact at h
  rw [if_neg hn, Bool.and_eq_true, beq_iff_eq] at h
  exact h.2

/-- Two children with one name are the same when all names are different. -/
theorem eq_of_name_eq {e x y : Element} (hd : (e.children.map Element.name).Nodup)
    (hx : x ∈ e.children) (hy : y ∈ e.children) (h : x.name = y.name) : x = y :=
  List.inj_on_of_nodup_map hd hx hy h

/-- Among children with different names the one with the local name is found. -/
theorem childLocal?_eq_some_iff {e c : Element} {n : Text}
    (hd : (e.children.map Element.name).Nodup) (hn : ':' ∉ n) :
    e.childLocal? n = some c ↔ c ∈ e.children ∧ c.name = n := by
  unfold Element.childLocal?
  constructor
  · intro h
    exact ⟨List.mem_of_find?_eq_some h, (matchesLocal_iff hn c).mp (List.find?_some h)⟩
  · rintro ⟨hc, hcn⟩
    cases hf : e.children.find? (Element.matchesLocal n) with
    | none =>
        rw [List.find?_eq_none] at hf
        exact absurd ((matchesLocal_iff hn c).mpr hcn) (hf c hc)
    | some x =>
        have hxn := (matchesLocal_iff hn x).mp (List.find?_some hf)
        rw [eq_of_name_eq hd (List.mem_of_find?_eq_some hf) hc (hxn.trans hcn.symm)]

/-- Among children with different names the one with the name is found, whatever its prefix. -/
theorem child?_eq_some_iff {e c : Element} {n : Text} (hd : (e.children.map Element.name).Nodup)
    (hn : ':' ∉ n) : e.child? n = some c ↔ c ∈ e.children ∧ c.name = n := by
  unfold Element.child? Element.childExact?
  constructor
  · intro h
    rcases Option.or_eq_some_iff.mp h with h | ⟨-, h⟩
    · exact ⟨List.mem_of_find?_eq_some h, name_of_matchesExact hn (List.find?_some h)⟩
    · exact (childLocal?_eq_some_iff hd hn).mp h
  · rintro ⟨hc, hcn⟩
    cases hf : e.children.find? (Element.matchesExact n) with
    | none => rw [Option.none_or, (childLocal?_eq_some_iff hd hn).mpr ⟨hc, hcn⟩]
    | some x =>
        have hxn := name_of_matchesExact hn (List.find?_some hf)
        rw [Option.some_or, eq_of_name_eq hd (List.mem_of_find?_eq_some hf) hc (hxn.trans hcn.symm)]

theorem name_of_childIndex? {e : Element} {n : Text} (hn : ':' ∉ n)
    {i : Fin e.children.length} (h : e.childIndex? n = some i) : (e.children.get i).name = n := by
  unfold Element.childIndex? at h
  rcases Option.or_eq_some_iff.mp h with h | ⟨-, h⟩
  · exact name_of_matchesExact hn (List.findFinIdx?_eq_some_iff.mp h).1
  · exact (matchesLocal_iff hn _).mp (List.findFinIdx?_eq_some_iff.mp h).1

theorem childIndex?_eq_none {e : Element} {n : Text} (hn : ':' ∉ n)
    (h : e.childIndex? n = none) : n ∉ e.children.map Element.name := by
  unfold Element.childIndex? at h
  intro hmem
  obtain ⟨c, hc, hcn⟩ := List.mem_map.mp hmem
  have hlocal := List.findFinIdx?_eq_none_iff.mp (Option.or_eq_none_iff.mp h).2 c hc
  exact hlocal ((matchesLocal_iff hn c).mpr hcn)

/-! ## §3. A tree that reflects its writes. -/

/-- The element holds what the writes say, at its own place and below. -/
inductive Reflects : Element → Writes → Prop
  | intro {e : Element} {ws : Writes}
      (text : e.text = ws.last? [])
      (order : e.children.map Element.name = ws.heads)
      (children : ∀ c ∈ e.children, Reflects c (ws.under [c.name])) : Reflects e ws

theorem Reflects.text_eq {e : Element} {ws : Writes} (h : Reflects e ws) :
    e.text = ws.last? [] := by
  cases h with
  | intro text _ _ => exact text

theorem Reflects.names_eq {e : Element} {ws : Writes} (h : Reflects e ws) :
    e.children.map Element.name = ws.heads := by
  cases h with
  | intro _ order _ => exact order

theorem Reflects.child {e c : Element} {ws : Writes} (h : Reflects e ws) (hc : c ∈ e.children) :
    Reflects c (ws.under [c.name]) := by
  cases h with
  | intro _ _ children => exact children c hc

theorem Reflects.nodup {e : Element} {ws : Writes} (h : Reflects e ws) :
    (e.children.map Element.name).Nodup := by
  rw [h.names_eq]
  exact ws.nodup_heads

theorem reflects_nil {e : Element} (ht : e.text = none) (hc : e.children = []) :
    Reflects e [] :=
  .intro ht (by rw [hc]; rfl) (by rw [hc]; simp)

/-- Writing below an element keeps its name. -/
theorem name_assign (v : Text) (e : Element) (p : List Text) : (assign v e p).1.name = e.name := by
  cases p with
  | nil => rfl
  | cons n p =>
      unfold assign
      split
      next => rfl
      next => split <;> rfl

section

variable {e c : Element} {ws : Writes} {n v : Text} {p : List Text}

/-- A write below `n` does not touch the text of the element itself. -/
theorem Reflects.text_concat (h : Reflects e ws) :
    e.text = Writes.last? (ws ++ [(n :: p, v)]) [] := by
  rw [h.text_eq]
  simp [Writes.last?]

/-- A write below `n` does not touch the children of other names. -/
theorem Reflects.child_concat (h : Reflects e ws) (hc : c ∈ e.children) (hcn : c.name ≠ n) :
    Reflects c (Writes.under (ws ++ [(n :: p, v)]) [c.name]) := by
  rw [Writes.under_singleton_concat, if_neg hcn, List.append_nil]
  exact h.child hc

/-- The child of the name takes up the write in its place. -/
theorem Reflects.setChild (h : Reflects e ws) (i : Fin e.children.length)
    (hi : (e.children.get i).name = n) (hcn : c.name = n)
    (hc : Reflects c (Writes.under (ws ++ [(n :: p, v)]) [n])) :
    Reflects { e with children := e.children.set i c } (ws ++ [(n :: p, v)]) := by
  have hmem : n ∈ ws.heads := by
    rw [← h.names_eq, ← hi]
    exact List.mem_map_of_mem (List.getElem_mem i.isLt)
  have hnames : (e.children.set i c).map Element.name = e.children.map Element.name := by
    apply List.ext_getElem (by simp)
    intro j h₁ h₂
    rw [List.getElem_map, List.getElem_map, List.getElem_set]
    split
    next hij =>
      subst hij
      rw [hcn]
      exact hi.symm
    next => rfl
  refine .intro h.text_concat ?_ ?_
  · show (e.children.set i c).map Element.name = _
    rw [hnames, Writes.heads_concat_cons, if_pos hmem, h.names_eq]
  · intro x hx
    obtain ⟨j, hj, rfl⟩ := List.getElem_of_mem hx
    have hj' : j < e.children.length := by simpa using hj
    rw [List.getElem_set]
    split
    next => rw [hcn]; exact hc
    next hij =>
      refine h.child_concat (List.getElem_mem hj') fun hjn => hij ?_
      -- two places with one name are the same place
      have hd := h.nodup
      rw [List.nodup_iff_injective_getElem] at hd
      have hsame := @hd ⟨i, by simp⟩ ⟨j, by simpa using hj'⟩ (by simp [hjn, ← hi])
      exact congrArg Fin.val hsame

/-- A child of a new name takes up the write behind the others. -/
theorem Reflects.addChild (h : Reflects e ws) (hn : n ∉ e.children.map Element.name)
    (hcn : c.name = n) (hc : Reflects c (Writes.under (ws ++ [(n :: p, v)]) [n])) :
    Reflects (e.addChild c) (ws ++ [(n :: p, v)]) := by
  have hnew : n ∉ ws.heads := by rwa [← h.names_eq]
  refine .intro h.text_concat ?_ ?_
  · show (e.children ++ [c]).map Element.name = _
    rw [Writes.heads_concat_cons, if_neg hnew, List.map_append, h.names_eq, ← hcn]
    rfl
  · intro x hx
    rcases List.mem_append.mp hx with hx | hx
    · exact h.child_concat hx fun hxn => hn (hxn ▸ List.mem_map_of_mem hx)
    · rw [List.mem_singleton.mp hx, hcn]
      exact hc

end

/-- **One more write at valid names keeps a tree and its writes together**, and it never fails. -/
theorem Reflects.assign {v : Text} : ∀ {p : List Text} {e : Element} {ws : Writes},
    (∀ n ∈ p, isName n = true) → Reflects e ws →
    Reflects (Path.assign v e p).1 (ws ++ [(p, v)]) ∧ (Path.assign v e p).2 = none
  | [], e, ws, _, h => by
      refine ⟨.intro ?_ ?_ ?_, rfl⟩
      · show some v = _
        simp [Writes.last?]
      · show e.children.map Element.name = _
        rw [Writes.heads_concat_nil, h.names_eq]
      · intro c hc
        rw [Writes.under_append]
        have hnone : Writes.under [([], v)] [c.name] = [] := rfl
        rw [hnone, List.append_nil]
        exact h.child hc
  | n :: p, e, ws, hp, h => by
      -- the rest of the path is written below one child, for which only the writes under its
      -- name count; the invariant goes down with them
      have hvalid : isName n = true := hp n List.mem_cons_self
      have hn : ':' ∉ n := colon_not_mem_of_isName hvalid
      have hp' : ∀ m ∈ p, isName m = true := fun m hm => hp m (List.mem_cons_of_mem n hm)
      have hunder := Writes.under_singleton_concat ws n n p v
      rw [if_pos rfl] at hunder
      unfold Path.assign
      cases hi : e.childIndex? n with
      | some i =>
          have hname : e.children[i].name = n := name_of_childIndex? hn hi
          have hold : Reflects e.children[i] (ws.under [n]) :=
            hname ▸ h.child (List.getElem_mem i.isLt)
          obtain ⟨hc, herror⟩ := Reflects.assign hp' hold
          rw [← hunder] at hc
          exact ⟨h.setChild i hname ((name_assign v _ p).trans hname) hc, herror⟩
      | none =>
          -- no child of the name, so nothing was written under it yet
          have hnew := childIndex?_eq_none hn hi
          have hnone : ws.under [n] = [] := by
            by_contra hne
            rw [← ne_eq, Writes.under_ne_nil_iff, ← Writes.mem_heads, ← h.names_eq] at hne
            exact hnew hne
          have hold : Reflects (e.offspring n) (ws.under [n]) := by
            rw [hnone]
            exact reflects_nil rfl rfl
          obtain ⟨hc, herror⟩ := Reflects.assign hp' hold
          rw [← hunder] at hc
          simp only [if_pos hvalid]
          exact ⟨h.addChild hnew (name_assign v _ p) hc, herror⟩

/-! ## §4. Walking along names. -/

/-- The writes below names that were written to are those below the first name, further down. -/
theorem Writes.under_eq_nil {ws : Writes} {n : Text} {p : List Text} (h : ws.under [n] = []) :
    ws.under (n :: p) = [] := by
  rw [Writes.under_cons, h]
  rfl

/-- What is reached reflects the writes at its names and below. -/
theorem Reflects.walk : ∀ {p : List Text} {e c : Element} {ws : Writes}, Reflects e ws →
    (∀ n ∈ p, ':' ∉ n) → p.foldlM Element.child? e = some c → Reflects c (ws.under p)
  | [], e, c, ws, h, _, hwalk => by
      rw [← Option.some.inj hwalk, Writes.under_nil]
      exact h
  | n :: p, e, c, ws, h, hp, hwalk => by
      rw [List.foldlM_cons] at hwalk
      obtain ⟨x, hx, hwalk⟩ := Option.bind_eq_some_iff.mp hwalk
      obtain ⟨hmem, hname⟩ := (child?_eq_some_iff h.nodup (hp n List.mem_cons_self)).mp hx
      rw [Writes.under_cons, ← hname]
      exact (h.child hmem).walk (fun m hm => hp m (List.mem_cons_of_mem n hm)) hwalk

/-- An element is reached where something was written, there or below, and nowhere else. -/
theorem Reflects.exists_walk : ∀ {p : List Text} {e : Element} {ws : Writes}, Reflects e ws →
    (∀ n ∈ p, ':' ∉ n) →
    ((∃ c, p.foldlM Element.child? e = some c) ↔ p = [] ∨ ws.under p ≠ [])
  | [], e, ws, _, _ => ⟨fun _ => .inl rfl, fun _ => ⟨e, rfl⟩⟩
  | n :: p, e, ws, h, hp => by
      have hn : ':' ∉ n := hp n List.mem_cons_self
      have hp' : ∀ m ∈ p, ':' ∉ m := fun m hm => hp m (List.mem_cons_of_mem n hm)
      rw [List.foldlM_cons]
      by_cases hhead : ws.under [n] = []
      · rw [Writes.under_eq_nil hhead]
        refine ⟨fun ⟨c, hwalk⟩ => ?_, fun hor => ?_⟩
        · obtain ⟨x, hx, -⟩ := Option.bind_eq_some_iff.mp hwalk
          obtain ⟨hmem, hname⟩ := (child?_eq_some_iff h.nodup hn).mp hx
          have hin : n ∈ ws.heads := by
            rw [← h.names_eq, ← hname]
            exact List.mem_map_of_mem hmem
          rw [Writes.mem_heads, ← Writes.under_ne_nil_iff] at hin
          exact absurd hhead hin
        · rcases hor with hor | hor <;> exact absurd hor (by simp)
      · have hin : n ∈ e.children.map Element.name := by
          rw [h.names_eq, Writes.mem_heads, ← Writes.under_ne_nil_iff]
          exact hhead
        obtain ⟨x, hmem, hname⟩ := List.mem_map.mp hin
        have hx := (child?_eq_some_iff h.nodup hn).mpr ⟨hmem, hname⟩
        have ih := (h.child hmem).exists_walk hp'
        rw [hname, ← Writes.under_cons] at ih
        rw [hx]
        refine ih.trans ⟨fun hor => .inr ?_, fun hor => .inr (hor.resolve_left (by simp))⟩
        rcases hor with rfl | hor
        · exact hhead
        · exact hor

/-- Walking along local names leads to the same elements. -/
theorem Reflects.descend?_eq : ∀ {p : List Text} {e : Element} {ws : Writes}, Reflects e ws →
    (∀ n ∈ p, ':' ∉ n) → descend? e p = p.foldlM Element.child? e
  | [], e, _, _, _ => rfl
  | n :: p, e, ws, h, hp => by
      have hn : ':' ∉ n := hp n List.mem_cons_self
      have hsame : e.childLocal? n = e.child? n := by
        ext c
        rw [childLocal?_eq_some_iff h.nodup hn, child?_eq_some_iff h.nodup hn]
      rw [descend?, List.foldlM_cons, hsame]
      cases hc : e.child? n with
      | none => rfl
      | some c =>
          have hmem := ((child?_eq_some_iff h.nodup hn).mp hc).1
          exact (h.child hmem).descend?_eq fun m hm => hp m (List.mem_cons_of_mem n hm)

/-- Every element, wherever it stands, is reached by walking along names. -/
theorem Reflects.walk_of_get? : ∀ {is : List Nat} {e c : Element} {ws : Writes}, Reflects e ws →
    (∀ w ∈ ws, ∀ n ∈ w.1, isName n = true) → e.get? is = some c →
    ∃ p : List Text, p.length = is.length ∧ (∀ n ∈ p, isName n = true)
      ∧ p.foldlM Element.child? e = some c
  | [], e, c, ws, _, _, hget => ⟨[], rfl, by simp, hget⟩
  | i :: is, e, c, ws, h, hws, hget => by
      obtain ⟨x, hx, hget⟩ := Option.bind_eq_some_iff.mp hget
      have hmem : x ∈ e.children := List.mem_of_getElem? hx
      have hhead : x.name ∈ ws.heads := by
        rw [← h.names_eq]
        exact List.mem_map_of_mem hmem
      obtain ⟨w, hw, hpre⟩ := (Writes.mem_heads ws x.name).mp hhead
      have hvalid : isName x.name = true := hws w hw x.name (hpre.subset List.mem_cons_self)
      have hbelow : ∀ w ∈ ws.under [x.name], ∀ n ∈ w.1, isName n = true := by
        rintro ⟨rest, v⟩ hrest n hn
        exact hws _ (Writes.mem_under.mp hrest) n (List.mem_append_right _ hn)
      obtain ⟨p, hlen, hp, hwalk⟩ := (h.child hmem).walk_of_get? hbelow hget
      refine ⟨x.name :: p, by rw [List.length_cons, hlen, List.length_cons], ?_, ?_⟩
      · intro n hn
        rcases List.mem_cons.mp hn with rfl | hn
        · exact hvalid
        · exact hp n hn
      · rw [List.foldlM_cons,
          (child?_eq_some_iff h.nodup (colon_not_mem_of_isName hvalid)).mpr ⟨hmem, rfl⟩]
        exact hwalk

end Crosswalk.Path
