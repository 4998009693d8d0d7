/-
  Crosswalk.Proofs.Markup.Complete
  ──────────────────────────────────────
  **CHILDREN DO NOT DECIDE WHETHER A DOCUMENT IS READ.**

  A text completes the elements read so far when it leads from them to a root
  alone (`Completes`).  Uniform children with an end tag behind them need an
  element that is open: without one, the first of them is the root, and then
  nothing may follow it (`not_completes_children`).  In an open element they
  are read, and the names and bindings of what is open stay as they are, so
  what follows them is read as if they were not there:

    • `completes_children`: what is left of a reading behind a text, around
      children.
-/
import Crosswalk.Proofs.Markup.Inside

namespace Crosswalk.Markup

variable {b b' c : Build} {s rest : Text} {t : Token} {es : List Element}

/-! ## §1. Reading on to a complete root. -/

/-- The text leads from the elements read so far to a root alone. -/
def Completes (b : Build) (s : Text) : Prop :=
  ∃ e, Reaches b s ⟨[], some e⟩

theorem completes_iff_readFrom : Completes b s ↔ ∃ e, readFrom b s = .ok e :=
  exists_congr fun _ => readFrom_eq_ok.symm

theorem completes_iff_take (hs : scan s = .token t rest) :
    Completes b s ↔ ∃ b', b.take t = .ok b' ∧ Completes b' rest := by
  unfold Completes
  simp only [reaches_iff_take hs]
  constructor
  · rintro ⟨e, b', ht, hr⟩
    exact ⟨b', ht, e, hr⟩
  · rintro ⟨b', ht, e, hr⟩
    exact ⟨e, b', ht, hr⟩

theorem completes_nil : Completes b [] ↔ ∃ e, b = ⟨[], some e⟩ := by
  unfold Completes
  simp only [reaches_nil]

theorem Reaches.completes_append (h : Reaches b s c) (x : Text) :
    Completes b (s ++ x) ↔ Completes c x :=
  exists_congr fun _ => h.append_iff x _

/-- What goes on with a bracket goes on with a piece that is taken. -/
theorem exists_token_of_completes (h : Completes b ('<' :: s)) :
    ∃ t rest b', scan ('<' :: s) = .token t rest ∧ b.take t = .ok b' ∧ Completes b' rest := by
  obtain ⟨e, he⟩ := h
  cases he with
  | token scanned taken further => exact ⟨_, _, _, scanned, taken, e, further⟩

theorem SameOpen.symm (h : SameOpen b b') : SameOpen b' b :=
  ⟨h.frames.flip.imp fun _ _ hf => ⟨hf.1.symm, hf.2.symm⟩, h.root.symm⟩

theorem SameOpen.completes (h : SameOpen b b') (hs : Completes b s) : Completes b' s := by
  obtain ⟨e, he⟩ := hs
  obtain ⟨⟨frames, root⟩, hreach, hframes, hroot⟩ := he.simulate SameOpen.take h
  cases hframes
  obtain ⟨e', rfl⟩ := Option.isSome_iff_exists.mp hroot
  exact ⟨e', hreach⟩

/-! ## §2. Where no element is open. -/

/-- An end tag has nothing to end. -/
theorem not_completes_close (root : Option Element) (s : Text) :
    ¬ Completes ⟨[], root⟩ ('<' :: '/' :: s) := by
  intro h
  obtain ⟨t, rest, b', hscan, htake, -⟩ := exists_token_of_completes h
  rw [scan_close] at hscan
  split at hscan
  next => cases hscan
  next =>
    obtain ⟨rfl, rfl⟩ := Scan.token.inj hscan
    cases htake

/-- An element beside the root is never complete. -/
theorem not_completes_beside {frames : List Frame} (hframes : frames ≠ []) (r : Element)
    (s : Text) : ¬ Completes ⟨frames, some r⟩ s := by
  rintro ⟨e, he⟩
  -- the outermost open element cannot become the root any more
  have hopen : ∀ {b c : Build} {t : Token}, b.root = some r ∧ b.frames ≠ [] → b.take t = .ok c →
      c.root = some r ∧ c.frames ≠ [] := by
    rintro ⟨frames, root⟩ c t ⟨rfl, hne⟩ ht
    refine ⟨root_take rfl ht, ?_⟩
    obtain ⟨above, f, rfl⟩ := (List.eq_nil_or_concat' frames).resolve_left hne
    rcases take_above ht with ⟨above', f', rfl, -⟩ | hadd
    · simp
    · cases hadd
  have hend := he.invariant (P := fun b => b.root = some r ∧ b.frames ≠ []) hopen ⟨rfl, hframes⟩
  exact hend.2 rfl

/-- There is no second root. -/
theorem not_completes_second {e : Element} (he : Uniform none e) (r : Element) (s : Text) :
    ¬ Completes ⟨[], some r⟩ (markupIn [] e ++ s) := by
  cases he with
  | @intro name children text hname _ =>
      have htag : OpensTag (qualify [] name) := (isTagName_qualify (.inl rfl) hname).opensTag
      rw [markupIn]
      cases contentOf text children (markupsIn [] children) with
      | none =>
          have hscan := @scan_emptyTag _ [] htag nofun s
          rw [markupOf, List.cons_append, List.append_assoc]
          show ¬ Completes _ ('<' :: (tagBody (qualify [] name) [] ++ '/' :: '>' :: s))
          rw [completes_iff_take hscan]
          rintro ⟨b', ht, -⟩
          cases takes_iff.mp ht with
          | empty _ added => cases added
      | some inner =>
          have hscan := @scan_startTag _ [] htag nofun
            (inner ++ '<' :: '/' :: (qualify [] name ++ '>' :: s))
          have hmarkup : markupOf (qualify [] name) [] (some inner) ++ s
              = '<' :: (tagBody (qualify [] name) [] ++ '>' :: (inner ++ '<' :: '/' ::
                (qualify [] name ++ '>' :: s))) := by
            simp [markupOf]
          rw [hmarkup, completes_iff_take hscan]
          rintro ⟨b', ht, hrest⟩
          cases takes_iff.mp ht with
          | start _ => exact not_completes_beside (List.cons_ne_nil _ _) r _ hrest

/-- The first element that stands alone is the root. -/
theorem completes_first {e : Element} (he : Uniform none e) (s : Text) :
    Completes .initial (markupIn [] e ++ s)
      ↔ Completes ⟨[], some (normalize (Scope.uri []) e)⟩ s := by
  have hbound : Bound [] none := rfl
  have hwritten : writeElement [] e = markupIn [] e := writeElement_eq_markupIn hbound he
  have hwell : WellFormed e := he.wellFormed fun _ hns => absurd hns (by simp)
  have hread := readFrom_writeElement hwell [] .initial _ s rfl rfl
  rw [completes_iff_readFrom, completes_iff_readFrom, ← hread, hwritten]

/-- **Children need an open element.** -/
theorem not_completes_children (hes : ∀ e ∈ es, Uniform none e) (root : Option Element) (s : Text) :
    ¬ Completes ⟨[], root⟩ (markupsIn [] es ++ '<' :: '/' :: s) := by
  induction es generalizing root with
  | nil => exact not_completes_close root s
  | cons e es ih =>
      have he : Uniform none e := hes e List.mem_cons_self
      rw [markupsIn, List.append_assoc]
      cases root with
      | none =>
          intro h
          exact ih (fun d hd => hes d (List.mem_cons_of_mem e hd)) _ ((completes_first he _).mp h)
      | some r => exact not_completes_second he r _

/-! ## §3. Behind a text that was read. -/

/-- **THE CHILDREN DO NOT DECIDE.**  Behind a text that was read, uniform children are read when an
element is open, and what follows them is read as if they were not there. -/
theorem completes_children (h : Reaches b s c) (hes : ∀ e ∈ es, Uniform none e) (x : Text) :
    Completes b (s ++ (markupsIn [] es ++ '<' :: '/' :: x))
      ↔ c.frames ≠ [] ∧ Completes c ('<' :: '/' :: x) := by
  rw [h.completes_append]
  obtain ⟨frames, root⟩ := c
  cases frames with
  | nil => simp [not_completes_children hes root x]
  | cons f fs =>
      obtain ⟨es', -, hread⟩ := readFrom_markupsIn f fs root hes (.inl rfl)
      have hsame : SameOpen ⟨f :: fs, root⟩ ⟨{ f with
          element := { f.element with children := f.element.children ++ es' } } :: fs, root⟩ :=
        ⟨.cons ⟨rfl, rfl⟩ (List.forall₂_same.mpr fun _ _ => ⟨rfl, rfl⟩), rfl⟩
      have hchildren := exists_congr fun e => Iff.of_eq (congrArg (· = Except.ok e)
        (hread ('<' :: '/' :: x)))
      rw [completes_iff_readFrom, hchildren, ← completes_iff_readFrom]
      exact ⟨fun h => ⟨List.cons_ne_nil f fs, hsame.symm.completes h⟩,
        fun h => hsame.completes h.2⟩

end Crosswalk.Markup
