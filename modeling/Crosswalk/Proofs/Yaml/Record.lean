/-
  Crosswalk.Proofs.Yaml.Record
  ──────────────────────────────────────
  **RECORDS ARE DECODED KEY BY KEY.**

  A record is written with its keys in their order, some of them left out.
  `Fills` says what the entries do to a value, one key after the other, so a
  decoder of records is known once each key is.

    • `text_of_denotes`, `finds_optional`: texts and what may be absent,
    • `finds_items`: sequences,
    • `finds_record`: records.
-/
import Crosswalk.Proofs.Yaml.WholeText

namespace Crosswalk.Yaml

variable {α β : Type} {s : Text} {site : Site} {node : Node}

/-! ## §1. Texts. -/

theorem resolve_of_denotes {v : Value} (h : Denotes v node) (site : Site) :
    site.resolve node = node := by
  cases v with
  | text s =>
      rw [Denotes] at h
      obtain ⟨m, plain, rfl, -⟩ := h
      rfl
  | sequence vs =>
      rw [Denotes] at h
      obtain ⟨m, nodes, rfl, -⟩ := h
      rfl
  | mapping es =>
      rw [Denotes] at h
      obtain ⟨m, entries, rfl, -⟩ := h
      rfl

theorem text_of_denotes (h : Denotes (.text s) node) (site : Site) (wanted : String) :
    site.text wanted node = .ok s := by
  unfold Site.text
  rw [resolve_of_denotes h]
  rw [Denotes] at h
  obtain ⟨m, plain, rfl, -⟩ := h
  rfl

/-- What means a text spells no null. -/
theorem not_null_of_meaning (h : meaning s = .text) : (s.isEmpty || isNull s) = false := by
  cases hnull : s.isEmpty || isNull s with
  | false => rfl
  | true =>
      unfold meaning at h
      rw [if_pos hnull] at h
      cases h

/-- What is written is never absent: not even an empty text, or a text that spells null. -/
theorem isAbsent_of_denotes {v : Value} (h : Denotes v node) (site : Site) :
    site.isAbsent node = .ok false := by
  unfold Site.isAbsent
  rw [resolve_of_denotes h]
  cases v with
  | text s =>
      rw [Denotes] at h
      obtain ⟨m, plain, rfl, hplain⟩ := h
      show Except.ok (plain && (s.isEmpty || isNull s)) = _
      cases plain with
      | false => rfl
      | true => rw [not_null_of_meaning (hplain rfl), Bool.and_false]
  | sequence vs =>
      rw [Denotes] at h
      obtain ⟨m, nodes, rfl, -⟩ := h
      rfl
  | mapping es =>
      rw [Denotes] at h
      obtain ⟨m, entries, rfl, -⟩ := h
      rfl

/-- A decoder finds a value wherever it is written. -/
def Finds (decode : Site → Node → Except Error β) (v : Value) (b : β) : Prop :=
  ∀ (site : Site) (node : Node), Denotes v node → decode site node = .ok b

theorem finds_optional {decode : Site → Node → Except Error β} {v : Value} {b : β}
    (h : Finds decode v b) : Finds (fun site => site.optional (decode site)) v (some b) := by
  intro site node hnode
  show site.optional (decode site) node = _
  unfold Site.optional
  rw [isAbsent_of_denotes hnode, h site node hnode]
  rfl

/-! ## §2. Sequences. -/

theorem items_go_of_denotes {decode : Site → Node → Except Error β} {write : β → Value}
    (site : Site) : ∀ {bs : List β} {nodes : List Node} (n : Nat),
    (∀ b ∈ bs, Finds decode (write b) b) → DenoteItems (bs.map write) nodes →
      Site.items.go site decode n nodes = .ok bs
  | [], nodes, n, _, h => by
      rw [List.map_nil, DenoteItems] at h
      subst h
      rfl
  | b :: bs, nodes, n, hfinds, h => by
      rw [List.map_cons, DenoteItems] at h
      obtain ⟨node, rest, rfl, hnode, hrest⟩ := h
      have hothers := items_go_of_denotes site (n + 1)
        (fun b' hb' => hfinds b' (List.mem_cons_of_mem b hb')) hrest
      rw [Site.items.go, hfinds b List.mem_cons_self _ node hnode, hothers]
      rfl

/-- A decoder of sequences finds what that of the items finds. -/
theorem finds_items {decode : Site → Node → Except Error β} {write : β → Value} {bs : List β}
    (h : ∀ b ∈ bs, Finds decode (write b) b) :
    Finds (fun site => site.items decode) (.sequence (bs.map write)) bs := by
  intro site node hnode
  show site.items decode node = _
  unfold Site.items
  rw [resolve_of_denotes hnode]
  rw [Denotes] at hnode
  obtain ⟨m, nodes, rfl, hnodes⟩ := hnode
  exact items_go_of_denotes site 0 h hnodes

/-! ## §3. Records. -/

/-- Entries for some of the keys, in the order of the keys, make `b` out of `a`. -/
inductive Fills : List (KnownKey α) → List (String × Value) → α → α → Prop
  | nil (a : α) : Fills [] [] a a
  | absent {f : KnownKey α} {fs : List (KnownKey α)} {es : List (String × Value)} {a b : α}
      (rest : Fills fs es a b) : Fills (f :: fs) es a b
  | present {f : KnownKey α} {fs : List (KnownKey α)} {v : Value} {es : List (String × Value)}
      {a b c : α} (own : Finds (fun site node => f.set site node a) v b) (rest : Fills fs es b c) :
      Fills (f :: fs) ((f.key, v) :: es) a c

/-- A key is found among others, when all keys are different. -/
theorem find?_key {before fs : List (KnownKey α)} {f : KnownKey α}
    (hnodup : ((before ++ f :: fs).map fun g => g.key.toList).Nodup) :
    (before ++ f :: fs).find? (fun g => g.key.toList = f.key.toList) = some f
      ∧ ∀ g ∈ before, g.key ≠ f.key := by
  rw [List.map_append, List.map_cons, List.nodup_append] at hnodup
  have hbefore : ∀ g ∈ before, g.key.toList ≠ f.key.toList := fun g hg =>
    hnodup.2.2 _ (List.mem_map_of_mem hg) _ List.mem_cons_self
  refine ⟨?_, fun g hg heq => hbefore g hg (congrArg String.toList heq)⟩
  rw [List.find?_eq_some_iff_append]
  refine ⟨decide_eq_true rfl, before, fs, rfl, fun g hg => ?_⟩
  rw [decide_eq_false (hbefore g hg)]
  rfl

/-- The entries of a record fill it, whatever keys are known besides and were seen before. -/
theorem recordEntries_of_fills {others : OtherKeys} {known : List (KnownKey α)}
    (hnodup : (known.map fun f => f.key.toList).Nodup) {fs : List (KnownKey α)}
    {es : List (String × Value)} {a b : α} (h : Fills fs es a b) :
    ∀ (before : List (KnownKey α)) {seen : List String} {entries : List (Node × Node)},
      known = before ++ fs → (∀ key ∈ seen, ∃ f ∈ before, f.key = key) → DenoteEntries es entries →
      site.recordEntries others known seen a entries = .ok b := by
  induction h with
  | nil a =>
      intro before seen entries hknown hseen hentries
      rw [DenoteEntries] at hentries
      subst hentries
      rw [Site.recordEntries]
  | @absent f fs es a b rest ih =>
      intro before seen entries hknown hseen hentries
      refine ih (before ++ [f]) ?_ ?_ hentries
      · rw [hknown, List.append_assoc]
        rfl
      · intro key hkey
        obtain ⟨g, hg, rfl⟩ := hseen key hkey
        exact ⟨g, List.mem_append_left _ hg, rfl⟩
  | @present f fs v es a b c own rest ih =>
      intro before seen entries hknown hseen hentries
      rw [DenoteEntries] at hentries
      obtain ⟨m, node, others', rfl, hnode, hothers⟩ := hentries
      have hsplit : known = (before ++ [f]) ++ fs := by
        rw [hknown, List.append_assoc]
        rfl
      rw [hknown] at hnodup
      obtain ⟨hfind, hbefore⟩ := find?_key hnodup
      rw [← hknown] at hfind
      have hunseen : f.key ∉ seen := by
        intro hmem
        obtain ⟨g, hg, hkey⟩ := hseen f.key hmem
        exact hbefore g hg hkey
      have hseen' : ∀ key ∈ f.key :: seen, ∃ g ∈ before ++ [f], g.key = key := by
        intro key hkey
        obtain rfl | hkey := List.mem_cons.mp hkey
        · exact ⟨f, List.mem_append_right _ List.mem_cons_self, rfl⟩
        · obtain ⟨g, hg, rfl⟩ := hseen key hkey
          exact ⟨g, List.mem_append_left _ hg, rfl⟩
      have hname : site.text "field identifier" (.scalar m none true f.key.toList)
          = .ok f.key.toList := rfl
      have hset : f.set (site.into (.key f.key.toList)) node a = .ok b := own _ node hnode
      have hrest : site.recordEntries others known (f.key :: seen) b others' = .ok c :=
        ih (before ++ [f]) hsplit hseen' hothers
      rw [Site.recordEntries, hname]
      simp only [bind, Except.bind, hfind, if_neg hunseen, hset, hrest]

/-- **A record is decoded as its entries fill it.** -/
theorem finds_record {wanted : String} {others : OtherKeys} {known : List (KnownKey α)}
    {es : List (String × Value)} {a b : α} (hnodup : (known.map fun f => f.key.toList).Nodup)
    (h : Fills known es a b) :
    Finds (fun site => site.record wanted others known a) (.mapping es) b := by
  intro site node hnode
  show site.record wanted others known a node = _
  unfold Site.record
  rw [resolve_of_denotes hnode]
  rw [Denotes] at hnode
  obtain ⟨m, entries, rfl, hentries⟩ := hnode
  have hfilled : site.recordEntries others known [] a entries = .ok b :=
    recordEntries_of_fills hnodup h [] rfl (fun key hkey => by cases hkey) hentries
  simp only [hfilled]

/-! ## §4. Keys. -/

variable {key : String} {fs : List (KnownKey α)} {es : List (String × Value)} {a c : α}

/-- A key that is always written. -/
theorem Fills.required {decode : Site → Node → Except Error β} {put : β → α → α} {v : Value} {b : β}
    (hfinds : Finds decode v b) (rest : Fills fs es (put b a) c) :
    Fills (.of key decode put :: fs) ((key, v) :: es) a c := by
  refine .present (f := .of key decode put) ?_ rest
  intro site node hnode
  show (decode site node).map (put · a) = _
  rw [hfinds site node hnode]
  rfl

/-- A key that is written when there is something to write. -/
theorem Fills.optional {decode : Site → Node → Except Error β} {put : Option β → α → α}
    {write : β → Value} {o : Option β} (hfinds : ∀ b, o = some b → Finds decode (write b) b)
    (hnone : o = none → put none a = a) (rest : Fills fs es (put o a) c) :
    Fills (.of key (fun site => site.optional (decode site)) put :: fs)
      ((o.map fun b => (key, write b)).toList ++ es) a c := by
  cases o with
  | none =>
      rw [hnone rfl] at rest
      exact .absent rest
  | some b => exact .required (finds_optional (hfinds b rfl)) rest

end Crosswalk.Yaml
