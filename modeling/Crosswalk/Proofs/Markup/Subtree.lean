/-
  Crosswalk.Proofs.Markup.Subtree
  ──────────────────────────────────────
  **A SUBTREE WRITTEN ALONE.**

  An element of a tree that was read can be written as a document of its own.
  Its elements take their namespaces with them, and its tags what they declare
  themselves.  A prefix that is bound further out, and that no element in it is
  named with, is left behind.

    • `Keeps`: which prefixes stand in the written document for what they stand
      for in the text; `Keeps.inside` goes from an element to a child,
    • `keeps_of_read`: at every position exactly the prefixes that are declared
      in the subtree, or that an element on the way is named with.
-/
import Crosswalk.Proofs.Markup.TagTree

namespace Crosswalk.Markup

/-! ## §1. The bindings of a tag. -/

/-- The bindings that a tag declares, the innermost first. -/
def tagBindings (body : Text) : Scope :=
  (((tagAttributes body).toOption.getD []).filterMap Attribute.binding?).reverse

/-- The bindings at the innermost of tags around each other. -/
def boundBy (tags : List Text) : Scope :=
  tags.flatMap tagBindings

/-- The tag declares the prefix. -/
def DeclaresPrefix (body pre : Text) : Prop :=
  ∃ ns ∈ tagBindings body, ns.pre = pre

instance (body pre : Text) : Decidable (DeclaresPrefix body pre) :=
  inferInstanceAs (Decidable (∃ ns ∈ tagBindings body, ns.pre = pre))

theorem uri_append_of_not_mem {bs : Scope} {p : Text} (h : ∀ ns ∈ bs, ns.pre ≠ p) (scope : Scope) :
    Scope.uri (bs ++ scope) p = scope.uri p := by
  have hnone : bs.find? (·.pre = p) = none := by
    rw [List.find?_eq_none]
    intro ns hns
    simpa using h ns hns
  unfold Scope.uri Scope.binding?
  rw [List.find?_append, hnone, Option.none_or]

/-- A binding that is not empty gives its URI, if no other one has its prefix. -/
theorem uri_append_of_mem {bs : Scope} {ns : Namespace} (hns : ns ∈ bs)
    (honly : ∀ m ∈ bs, m.pre = ns.pre → m = ns) (scope : Scope) :
    Scope.uri (bs ++ scope) ns.pre = ns.uri := by
  have hfind : bs.find? (·.pre = ns.pre) = some ns := by
    cases hf : bs.find? (·.pre = ns.pre) with
    | none => exact absurd (List.find?_eq_none.mp hf ns hns) (by simp)
    | some m =>
        have hpre : m.pre = ns.pre := by simpa using List.find?_some hf
        rw [honly m (List.mem_of_find?_eq_some hf) hpre]
  unfold Scope.uri Scope.binding?
  rw [List.find?_append, hfind]
  rfl

/-- An attribute that binds a prefix is named after it. -/
theorem eq_of_binding? {a : Attribute} {ns : Namespace} (h : a.binding? = some ns)
    (hpre : ns.pre ≠ []) : a = ⟨"xmlns:".toList ++ ns.pre, ns.uri⟩ := by
  obtain ⟨name, value⟩ := a
  unfold Attribute.binding? at h
  split at h
  next =>
    obtain rfl := Option.some.inj h
    exact absurd rfl hpre
  next =>
    obtain ⟨p, hp, rfl⟩ := Option.map_eq_some_iff.mp h
    obtain rfl := List.isPrefixOf?_eq_some_iff_append_eq.mp hp
    rfl

/-- A tag binds a prefix once. -/
theorem eq_of_mem_tagBindings {body : Text} {m n : Namespace} (hm : m ∈ tagBindings body)
    (hn : n ∈ tagBindings body) (hpre : m.pre = n.pre) (hne : n.pre ≠ []) : m = n := by
  unfold tagBindings at hm hn
  -- both come from attributes of one name, and a tag has no two of these
  rw [List.mem_reverse, List.mem_filterMap] at hm hn
  obtain ⟨a, ha, ham⟩ := hm
  obtain ⟨b, hb, hbn⟩ := hn
  have hnodup : (((tagAttributes body).toOption.getD []).map Attribute.name).Nodup := by
    cases hattrs : tagAttributes body with
    | error f => exact List.nodup_nil
    | ok attrs => exact (nodup_readAttributes hattrs).1
  have hname : a.name = b.name := by
    rw [eq_of_binding? ham (hpre ▸ hne), eq_of_binding? hbn hne, hpre]
  obtain rfl := List.inj_on_of_nodup_map hnodup ha hb hname
  rw [ham] at hbn
  exact Option.some.inj hbn

theorem mem_distinct_of_mem {ns : Namespace} : ∀ {nss : List Namespace}, ns ∈ nss → ns ∈ distinct nss
  | m :: nss, h => by
      rw [distinct, List.mem_cons]
      by_cases heq : ns = m
      · exact .inl heq
      · refine .inr (List.mem_filter.mpr ⟨mem_distinct_of_mem ((List.mem_cons.mp h).resolve_left heq), ?_⟩)
        simpa using heq

/-! ## §2. What a tag needs when it is written again. -/

section

variable {body : Text} {scope : Scope} {f : Frame}

/-- The bindings of a tag come before those around it. -/
theorem scope_openElement (h : openElement body scope = .ok f) :
    f.scope = tagBindings body ++ scope := by
  obtain ⟨attrs, ns, hattrs, -, rfl⟩ := openElement_eq_ok.mp h
  unfold tagBindings
  rw [hattrs]
  rfl

/-- The namespace of an element is what its prefix stands for at its tag. -/
theorem ns_openElement (h : openElement body scope = .ok f) {ns : Namespace}
    (hns : f.element.ns = some ns) : f.scope.binding? ns.pre = some ns := by
  obtain ⟨attrs, ns', hattrs, hresolve, rfl⟩ := openElement_eq_ok.mp h
  obtain rfl : ns' = some ns := hns
  obtain ⟨hbinding, -⟩ := binding?_of_resolve? hresolve
  have hpre : ns.pre = (splitQualified (tagName body)).1 := by
    simpa using List.find?_some hbinding
  rw [hpre]
  exact hbinding

/-- What a tag declares is kept, but for its own namespace and for what it takes back. -/
theorem mem_decls_openElement (h : openElement body scope = .ok f) (d : Namespace) :
    d ∈ f.element.decls ↔ d ∈ tagBindings body ∧ some d ≠ f.element.ns ∧ d.uri ≠ [] := by
  obtain ⟨attrs, ns, hattrs, -, rfl⟩ := openElement_eq_ok.mp h
  have hbindings : d ∈ tagBindings body ↔ d ∈ attrs.filterMap Attribute.binding? := by
    unfold tagBindings
    rw [hattrs, List.mem_reverse]
    rfl
  show d ∈ distinct _ ↔ d ∈ _ ∧ some d ≠ ns ∧ d.uri ≠ []
  rw [hbindings]
  constructor
  · intro hd
    obtain ⟨hmem, hkept⟩ := List.mem_filter.mp (mem_of_mem_distinct hd)
    exact ⟨hmem, by simpa using hkept⟩
  · rintro ⟨hmem, hns, huri⟩
    exact mem_distinct_of_mem (List.mem_filter.mpr ⟨hmem, by simp [hns, huri]⟩)

/-- What is written for a prefix that is bound at a tag is the URI that it is bound to. -/
theorem uri_of_mem_needed (h : openElement body scope = .ok f) {d : Namespace}
    (hd : d ∈ neededBindings f.element.ns f.element.decls) (hpre : d.pre ≠ []) :
    f.scope.uri d.pre = d.uri := by
  unfold neededBindings at hd
  rcases List.mem_cons.mp hd with rfl | hd
  · cases hns : f.element.ns with
    | none =>
        rw [hns] at hpre
        exact absurd rfl hpre
    | some ns =>
        show f.scope.uri ns.pre = ns.uri
        unfold Scope.uri
        rw [ns_openElement h hns]
        rfl
  · obtain ⟨hmem, -, -⟩ := (mem_decls_openElement h d).mp hd
    rw [scope_openElement h]
    exact uri_append_of_mem hmem (fun m hm hsame => eq_of_mem_tagBindings hm hmem hsame hpre) scope

/-- What is written for a tag is for a prefix that it declares, or that its element is named with. -/
theorem declares_of_mem_needed (h : openElement body scope = .ok f) {d : Namespace}
    (hd : d ∈ neededBindings f.element.ns f.element.decls) (hpre : d.pre ≠ []) :
    DeclaresPrefix body d.pre ∨ f.element.pre = d.pre := by
  unfold neededBindings at hd
  rcases List.mem_cons.mp hd with rfl | hd
  · right
    unfold Element.pre
    cases hns : f.element.ns with
    | none =>
        rw [hns] at hpre
        exact absurd rfl hpre
    | some ns => rfl
  · exact .inl ⟨d, ((mem_decls_openElement h d).mp hd).1, rfl⟩

/-- Something is written for such a prefix when it is bound at the tag. -/
theorem exists_mem_needed (h : openElement body scope = .ok f) {p : Text} (hp : p ≠ [])
    (hbound : f.scope.uri p ≠ []) (hnamed : DeclaresPrefix body p ∨ f.element.pre = p) :
    ∃ d ∈ neededBindings f.element.ns f.element.decls, d.pre = p := by
  -- the namespace of the element comes first, and what the tag declares besides it follows
  unfold neededBindings
  rcases hnamed with ⟨d, hd, rfl⟩ | hpre
  · by_cases hown : some d = f.element.ns
    · exact ⟨_, List.mem_cons_self, by rw [← hown]; rfl⟩
    · have huri : f.scope.uri d.pre = d.uri := by
        rw [scope_openElement h]
        exact uri_append_of_mem hd (fun m hm hsame => eq_of_mem_tagBindings hm hd hsame hp) scope
      rw [huri] at hbound
      exact ⟨d, List.mem_cons_of_mem _ ((mem_decls_openElement h d).mpr ⟨hd, hown, hbound⟩), rfl⟩
  · refine ⟨_, List.mem_cons_self, ?_⟩
    unfold Element.pre at hpre
    cases hns : f.element.ns with
    | none =>
        rw [hns] at hpre
        exact absurd hpre.symm hp
    | some ns =>
        rw [hns] at hpre
        exact hpre

end

/-- Of bindings of one prefix to one URI it does not matter which one counts. -/
theorem foldl_bind_eq {p u : Text} : ∀ {nss : List Namespace} {b : Bindings},
    (∀ d ∈ nss, d.pre = p → d.uri = u) → (∃ d ∈ nss, d.pre = p) → nss.foldl Bindings.bind b p = u
  | [], _, _, hex => absurd hex (by simp)
  | d :: nss, b, hall, hex => by
      rw [List.foldl_cons]
      -- the last binding of the prefix counts: it comes later, or it is this one
      by_cases hrest : ∃ m ∈ nss, m.pre = p
      · exact foldl_bind_eq (fun m hm => hall m (List.mem_cons_of_mem d hm)) hrest
      · have hne : ∀ m ∈ nss, m.pre ≠ p := fun m hm hpre => hrest ⟨m, hm, hpre⟩
        obtain ⟨m, hm, hpre⟩ := hex
        obtain rfl : m = d := (List.mem_cons.mp hm).resolve_right fun hmem => hne m hmem hpre
        rw [foldl_bind_of_forall_ne hne, Bindings.bind, if_pos hpre.symm]
        exact hall m List.mem_cons_self hpre

theorem uri_writtenScope (scope : Scope) (e : Element) (p : Text) :
    (writtenScope scope e).uri p = (neededBindings e.ns e.decls).foldl Bindings.bind scope.uri p := by
  have hinner : writtenScope scope e = (declareAll scope (neededBindings e.ns e.decls)).2 := by
    rw [declareAll_eq_declaredIn]
    rfl
  rw [hinner, uri_declareAll]

/-! ## §3. The prefixes that keep their meaning. -/

/-- At a place of a written tree, the prefixes in question stand for what they stand for in the
text that was read, as far as they are bound there, and no other prefix is declared. -/
structure Keeps (kept : Text → Prop) (source written : Scope) : Prop where
  same : ∀ p, p ≠ [] → kept p → source.uri p ≠ [] → written.uri p = source.uri p
  only : ∀ ns ∈ written, ns.pre ≠ [] → kept ns.pre

namespace Keeps

variable {kept kept' : Text → Prop} {source written : Scope}

/-- Nothing is declared outside of a document. -/
theorem outside (source : Scope) : Keeps (fun _ => False) source [] :=
  ⟨fun _ _ h => absurd h id, nofun⟩

theorem congr (h : Keeps kept source written) (hiff : ∀ p, kept p ↔ kept' p) :
    Keeps kept' source written :=
  ⟨fun p hp hk => h.same p hp ((hiff p).mpr hk), fun ns hns hp => (hiff ns.pre).mp (h.only ns hns hp)⟩

/-- **Inside a tag** the prefixes that it declares, and the one its element is named with, join
those that are kept around it. -/
theorem inside (h : Keeps kept source written) {body : Text} {f : Frame}
    (hopen : openElement body source = .ok f) {e : Element} (htag : SameTag f.element e) :
    Keeps (fun p => kept p ∨ DeclaresPrefix body p ∨ e.pre = p) f.scope (writtenScope written e) := by
  have hneeded : neededBindings e.ns e.decls = neededBindings f.element.ns f.element.decls := by
    rw [htag.ns, htag.decls]
  have hpre : e.pre = f.element.pre := by
    unfold Element.pre
    rw [htag.ns]
  refine ⟨?_, ?_⟩
  · intro p hp hkept hbound
    rw [uri_writtenScope, hneeded]
    by_cases hex : ∃ d ∈ neededBindings f.element.ns f.element.decls, d.pre = p
    · refine foldl_bind_eq ?_ hex
      rintro d hd rfl
      exact (uri_of_mem_needed hopen hd hp).symm
    · -- the tag has nothing to do with the prefix, which stands for what it stands for outside
      have hnot : ¬ (DeclaresPrefix body p ∨ e.pre = p) := by
        rw [hpre]
        exact fun hnamed => hex (exists_mem_needed hopen hp hbound hnamed)
      have hsource : f.scope.uri p = source.uri p := by
        rw [scope_openElement hopen]
        exact uri_append_of_not_mem (fun ns hns heq => hnot (.inl ⟨ns, hns, heq⟩)) source
      rw [foldl_bind_of_forall_ne fun d hd heq => hex ⟨d, hd, heq⟩, hsource]
      rw [hsource] at hbound
      exact h.same p hp (hkept.resolve_right hnot) hbound
  · intro ns hns hp
    unfold writtenScope at hns
    rcases List.mem_append.mp hns with hns | hns
    · right
      rw [hpre]
      have hmem := (declaredIn_sublist _ written).subset (List.mem_reverse.mp hns)
      rw [hneeded] at hmem
      exact declares_of_mem_needed hopen hmem hp
    · exact .inl (h.only ns hns hp)

/-- A prefix that is bound in the text is declared with its URI exactly when it is kept. -/
theorem declared_iff (h : Keeps kept source written) {p u : Text} (hp : p ≠ []) (hu : u ≠ [])
    (hbound : source.uri p = u) :
    (⟨p, u⟩ ∈ written ↔ kept p) ∧ (kept p → written.uri p = u) := by
  have huri : kept p → written.uri p = u := by
    intro hkept
    rw [h.same p hp hkept (hbound ▸ hu), hbound]
  refine ⟨⟨fun hmem => h.only _ hmem hp, fun hkept => ?_⟩, huri⟩
  have hwritten := huri hkept
  unfold Scope.uri at hwritten
  cases hb : written.binding? p with
  | none =>
      rw [hb] at hwritten
      exact absurd hwritten.symm hu
  | some m =>
      rw [hb] at hwritten
      obtain rfl : m.uri = u := hwritten
      have hpre : m.pre = p := by simpa using List.find?_some hb
      subst hpre
      exact List.mem_of_find?_eq_some hb

end Keeps

/-! ## §4. Elements at a position. -/

/-- The elements on the way to a position, from the given one on. -/
def Element.along (e : Element) : List Nat → List Element
  | [] => [e]
  | i :: is => e :: ((e.children[i]?).map (·.along is)).getD []

/-- The bindings in which the element at a position is written. -/
def scopeAt (scope : Scope) (e : Element) : List Nat → Scope
  | [] => scope
  | i :: is => ((e.children[i]?).map (scopeAt (writtenScope scope e) · is)).getD []

theorem mem_writeElements {c : Element} (scope : Scope) : ∀ {es : List Element}, c ∈ es →
    writeElement scope c <:+: writeElements scope es
  | e :: es, h => by
      rw [writeElements]
      rcases List.mem_cons.mp h with rfl | h
      · exact (List.prefix_append _ _).isInfix
      · exact (mem_writeElements scope h).trans (List.suffix_append _ _).isInfix

/-- **The element at a position is written in that scope**, as a part of the whole. -/
theorem writeElement_at : ∀ (path : List Nat) {scope : Scope} {e c : Element},
    e.get? path = some c → writeElement (scopeAt scope e path) c <:+: writeElement scope e
  | [], scope, e, c, hc => by
      obtain rfl := Option.some.inj hc
      exact List.infix_rfl
  | i :: is, scope, e, c, hc => by
      rw [Element.get?] at hc
      obtain ⟨d, hd, hc⟩ := Option.bind_eq_some_iff.mp hc
      have hmem : d ∈ e.children := List.mem_of_getElem? hd
      have hinner : writtenScope scope e = (declareAll scope (neededBindings e.ns e.decls)).2 := by
        rw [declareAll_eq_declaredIn]
        rfl
      rw [scopeAt, hd]
      refine (writeElement_at is hc).trans ((mem_writeElements _ hmem).trans ?_)
      obtain ⟨name, ns, decls, attrs, children, text⟩ := e
      rw [hinner, writeElement]
      simp only
      rw [if_neg (by simp [List.ne_nil_of_mem hmem])]
      exact (List.suffix_append _ _).isInfix.trans ((List.prefix_append _ _).isInfix.trans
        ((List.prefix_append _ _).isInfix.trans (List.prefix_append _ _).isInfix))

/-- The tag of an element at a position, with the tags around it. -/
theorem Denotes.at : ∀ (place : List Nat) {scope : Scope} {t : TagTree} {e c : Element},
    Denotes scope t e → e.get? place = some c → ∃ t' outer, Denotes (boundBy outer ++ scope) t' c
      ∧ outer.length = place.length
      ∧ ∀ path, t.around? (place ++ path) = (t'.around? path).map (· ++ outer)
  | [], scope, t, e, c, h, hc => by
      obtain rfl := Option.some.inj hc
      exact ⟨t, [], h, rfl, fun path => by simp⟩
  | i :: is, scope, .node body inner, e, c, ⟨f, hopen, _, hall⟩, hc => by
      rw [Element.get?] at hc
      obtain ⟨d, hd, hc⟩ := Option.bind_eq_some_iff.mp hc
      obtain ⟨t, ht, hdenotes⟩ := hall.getElem? hd
      obtain ⟨t', outer, h', hlength, haround⟩ := Denotes.at is hdenotes hc
      refine ⟨t', outer ++ [body], ?_, by simp [hlength], fun path => ?_⟩
      · have hscope : boundBy (outer ++ [body]) ++ scope = boundBy outer ++ f.scope := by
          rw [scope_openElement hopen]
          simp [boundBy]
        rw [hscope]
        exact h'
      · show ((inner[i]?).bind fun c => (c.around? (is ++ path)).map (· ++ [body])) = _
        rw [ht, Option.bind_some, haround path, Option.map_map]
        congr 1
        funext tags
        exact List.append_assoc tags outer [body]

/-- The prefixes that a subtree brings with it to a position: a tag in it declares them, or an
element on the way is named with them. -/
def Brings (e : Element) (path : List Nat) (tags : List Text) (p : Text) : Prop :=
  (∃ tag ∈ tags, DeclaresPrefix tag p) ∨ ∃ a ∈ e.along path, a.pre = p

theorem brings_nil (e : Element) (body p : Text) :
    Brings e [] [body] p ↔ DeclaresPrefix body p ∨ e.pre = p := by
  simp [Brings, Element.along]

/-- A child brings what it is written with, and what stands on its parent's tag. -/
theorem brings_cons {e d : Element} {i : Nat} (hd : e.children[i]? = some d) {is : List Nat}
    {tags : List Text} {body p : Text} : Brings e (i :: is) (tags ++ [body]) p
      ↔ (DeclaresPrefix body p ∨ e.pre = p) ∨ Brings d is tags p := by
  have htags : (∃ tag ∈ tags ++ [body], DeclaresPrefix tag p)
      ↔ DeclaresPrefix body p ∨ ∃ tag ∈ tags, DeclaresPrefix tag p := by
    simp [or_and_right, exists_or, or_comm]
  have halong : (∃ a ∈ e.along (i :: is), a.pre = p)
      ↔ e.pre = p ∨ ∃ a ∈ d.along is, a.pre = p := by
    simp [Element.along, hd]
  unfold Brings
  rw [htags, halong]
  exact or_or_or_comm

/-- From an element down to a position the tags on the way are passed one by one. -/
theorem Keeps.along : ∀ (path : List Nat) {kept : Text → Prop} {scope written : Scope} {t : TagTree}
    {e c : Element}, Denotes scope t e → Keeps kept scope written → e.get? path = some c →
      ∃ tags, t.around? path = some tags ∧ tags.length = path.length + 1
        ∧ Keeps (fun p => kept p ∨ Brings e path tags p) (boundBy tags ++ scope)
            (writtenScope (scopeAt written e path) c)
  | [], kept, scope, written, .node body inner, e, c, ⟨f, hopen, htag, _⟩, h, hc => by
      obtain rfl := Option.some.inj hc
      refine ⟨[body], rfl, rfl, ?_⟩
      have hinside := h.inside hopen htag
      rw [scope_openElement hopen] at hinside
      have hbound : boundBy [body] = tagBindings body := by simp [boundBy]
      rw [hbound]
      refine hinside.congr fun p => ?_
      rw [brings_nil]
  | i :: is, kept, scope, written, .node body inner, e, c, ⟨f, hopen, htag, hall⟩, h, hc => by
      rw [Element.get?] at hc
      obtain ⟨d, hd, hc⟩ := Option.bind_eq_some_iff.mp hc
      obtain ⟨t, ht, hdenotes⟩ := hall.getElem? hd
      obtain ⟨tags, haround, hlength, hkeeps⟩ :=
        Keeps.along is hdenotes (h.inside hopen htag) hc
      refine ⟨tags ++ [body], ?_, by simp [hlength], ?_⟩
      · show ((inner[i]?).bind fun c => (c.around? is).map (· ++ [body])) = _
        rw [ht, Option.bind_some, haround]
        rfl
      · have hscope : boundBy (tags ++ [body]) ++ scope = boundBy tags ++ f.scope := by
          rw [scope_openElement hopen]
          simp [boundBy]
        rw [hscope, scopeAt, hd]
        refine hkeeps.congr fun p => ?_
        rw [brings_cons hd, or_assoc]

/-- **AN ELEMENT WRITTEN ALONE KEEPS WHAT IT BRINGS.**  At every position below an element of a tree
that was read, the prefixes that are declared in the subtree, or that an element on the way is named
with, are declared in the written document as they are in the text, and no others are. -/
theorem keeps_of_read {content : Text} {root e : Element} (h : read content = .ok root)
    {place : List Nat} (he : root.get? place = some e) :
    ∃ tree, tagTree? content = some tree ∧ ∀ path c, e.get? path = some c →
      ∃ inner outer, tree.around? (place ++ path) = some (inner ++ outer)
        ∧ inner.length = path.length + 1
        ∧ Keeps (Brings e path inner) (boundBy (inner ++ outer))
            (writtenScope (scopeAt [] e path) c) := by
  obtain ⟨tree, htree, hdenotes⟩ := exists_tagTree h
  obtain ⟨t, outer, ht, -, haround⟩ := hdenotes.at place he
  refine ⟨tree, htree, fun path c hc => ?_⟩
  obtain ⟨inner, hinner, hlength, hkeeps⟩ := Keeps.along path ht (Keeps.outside _) hc
  refine ⟨inner, outer, ?_, hlength, ?_⟩
  · rw [haround path, hinner]
    rfl
  · have hscope : boundBy inner ++ (boundBy outer ++ []) = boundBy (inner ++ outer) := by
      simp [boundBy]
    rw [hscope] at hkeeps
    exact hkeeps.congr fun p => or_iff_right id

end Crosswalk.Markup
