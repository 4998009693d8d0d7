/-
  Crosswalk.Proofs.Route.RoundTrip
  ──────────────────────────────────────
  **A WRITTEN ROUTE IS READ BACK.**

  Whatever a route holds, its text is read as that route: absent and empty
  texts stay apart, empty parts stay parts, and texts that would mean
  something else are written so that they are texts.

    • `finds_auth`, `finds_space`, `finds_mapping`, `finds_mappings`: its parts,
    • `read_written`: the whole route.
-/
import Crosswalk.Proofs.Yaml.Record
import Crosswalk.Route.Reader
import Crosswalk.Route.Writer

namespace Crosswalk.Route

open Yaml

variable {α : Type} {key : String} {fs : List (KnownKey α)} {es : List (String × Value)} {a c : α}

/-! ## §1. Values. -/

theorem finds_text (s : Text) : Finds readText (.text s) s :=
  fun site _ hnode => text_of_denotes hnode site "a string"

theorem finds_format (f : Format) : Finds readFormat (.text f.tag) f := by
  intro site node hnode
  unfold readFormat
  rw [finds_text f.tag site node hnode]
  cases f with
  | json => rfl
  | xml => rfl
  | _ => rfl

theorem finds_mode (m : Mode) : Finds readMode (.text m.tag) m := by
  intro site node hnode
  unfold readMode
  rw [finds_text m.tag site node hnode]
  cases m with
  | active => rfl
  | passive => rfl

/-- A text that may be absent. -/
theorem fills_text {put : Option Text → α → α} {o : Option Text} (hnone : o = none → put none a = a)
    (rest : Fills fs es (put o a) c) :
    Fills (optionalText key put :: fs) (textEntry key o ++ es) a c :=
  .optional (fun s _ => finds_text s) hnone rest

/-- The same for the last key. -/
theorem fills_lastText {put : Option Text → α → α} {o : Option Text}
    (hnone : o = none → put none a = a) (hc : put o a = c) :
    Fills [optionalText key put] (textEntry key o) a c := by
  subst hc
  rw [← List.append_nil (textEntry key o)]
  exact fills_text hnone (.nil _)

/-- A tag that may be absent. -/
theorem fills_tag {β : Type} {decode : Site → Node → Except Yaml.Error β} {put : Option β → α → α}
    {tag : β → Text} {o : Option β} (hfinds : ∀ b, Finds decode (.text (tag b)) b)
    (hnone : o = none → put none a = a) (rest : Fills fs es (put o a) c) :
    Fills (.of key (fun site => site.optional (decode site)) put :: fs)
      (textEntry key (o.map tag) ++ es) a c := by
  unfold textEntry
  rw [Option.map_map]
  exact .optional (fun b _ => hfinds b) hnone rest

/-! ## §2. The parts of a route. -/

theorem finds_auth (x : Auth) : Finds readAuth x.toValue x := by
  refine finds_record (by decide) (.required (finds_text x.kind) ?_)
  exact fills_lastText (fun _ => rfl) rfl

theorem finds_space (x : Space) : Finds readSpace x.toValue x := by
  unfold Space.toValue
  rw [List.append_assoc]
  refine finds_record (by decide) (fills_text (fun _ => rfl) (fills_text (fun _ => rfl) ?_))
  exact fills_lastText (fun _ => rfl) rfl

theorem finds_mapping (x : FieldMapping) : Finds readMapping x.toValue x := by
  unfold FieldMapping.toValue
  rw [List.append_assoc, List.append_assoc]
  refine finds_record (by decide) (fills_text (fun _ => rfl) (fills_text (fun _ => rfl)
    (fills_text (fun _ => rfl) ?_)))
  exact fills_lastText (fun _ => rfl) rfl

/-- Both directions are always there, with as many mappings as they have. -/
theorem finds_mappings (r : Route) : Finds readMappings r.mappingsValue (r.request, r.response) := by
  have hdirection : ∀ xs : List FieldMapping,
      Finds readDirection (.sequence (xs.map FieldMapping.toValue)) xs := fun xs =>
    finds_items fun x _ => finds_mapping x
  exact finds_record (by decide) (.required (hdirection r.request)
    (.required (hdirection r.response) (.nil _)))

/-! ## §3. Routes. -/

/-- The entries of a route fill a route that says nothing. -/
theorem finds_route (r : Route) : Finds readRoute r.toValue r := by
  unfold toValue
  simp only [List.cons_append, List.append_assoc]
  refine finds_record (by decide) (.required (finds_text r.id) ?_)
  refine fills_tag finds_format (fun _ => rfl) (fills_tag finds_format (fun _ => rfl)
    (fills_tag finds_mode (fun _ => rfl) (fills_text (fun _ => rfl) ?_)))
  refine .optional (fun x _ => finds_auth x) (fun _ => rfl)
    (.optional (fun x _ => finds_space x) (fun _ => rfl) (fills_text (fun _ => rfl) ?_))
  exact .required (finds_mappings r) (.nil r)

/-! ## §4. Keys. -/

theorem entriesHaveWords_text (hkey : IsKey key) (o : Option Text) :
    Value.EntriesHaveWords (textEntry key o) :=
  Value.entriesHaveWords_optional hkey (fun s => by rw [Value.HasWords]; trivial) o

theorem hasWords_auth (x : Auth) : x.toValue.HasWords := by
  unfold Auth.toValue
  rw [Value.HasWords, Value.EntriesHaveWords, Value.HasWords]
  exact ⟨by decide, trivial, entriesHaveWords_text (by decide) x.key⟩

theorem hasWords_space (x : Space) : x.toValue.HasWords := by
  unfold Space.toValue
  rw [Value.HasWords]
  exact Value.entriesHaveWords_append (Value.entriesHaveWords_append
    (entriesHaveWords_text (by decide) x.uri) (entriesHaveWords_text (by decide) x.pre))
    (entriesHaveWords_text (by decide) x.rootPre)

theorem hasWords_mapping (x : FieldMapping) : x.toValue.HasWords := by
  unfold FieldMapping.toValue
  rw [Value.HasWords]
  exact Value.entriesHaveWords_append (Value.entriesHaveWords_append
    (Value.entriesHaveWords_append (entriesHaveWords_text (by decide) x.source)
      (entriesHaveWords_text (by decide) x.target)) (entriesHaveWords_text (by decide) x.transform))
    (entriesHaveWords_text (by decide) x.fallback)

theorem hasWords_mappings (r : Route) : r.mappingsValue.HasWords := by
  unfold mappingsValue
  rw [Value.HasWords, Value.EntriesHaveWords, Value.EntriesHaveWords, Value.EntriesHaveWords,
    Value.HasWords, Value.HasWords]
  exact ⟨by decide, Value.itemsHaveWords_map hasWords_mapping r.request, by decide,
    Value.itemsHaveWords_map hasWords_mapping r.response, trivial⟩

theorem hasWords_route (r : Route) : r.toValue.HasWords := by
  have hmappings : Value.EntriesHaveWords [("mappings", r.mappingsValue)] := by
    rw [Value.EntriesHaveWords, Value.EntriesHaveWords]
    exact ⟨by decide, hasWords_mappings r, trivial⟩
  unfold toValue
  simp only [List.cons_append, List.append_assoc]
  rw [Value.HasWords, Value.EntriesHaveWords, Value.HasWords]
  refine ⟨by decide, trivial, ?_⟩
  refine Value.entriesHaveWords_append (entriesHaveWords_text (by decide) _) ?_
  refine Value.entriesHaveWords_append (entriesHaveWords_text (by decide) _) ?_
  refine Value.entriesHaveWords_append (entriesHaveWords_text (by decide) _) ?_
  refine Value.entriesHaveWords_append (entriesHaveWords_text (by decide) _) ?_
  refine Value.entriesHaveWords_append
    (Value.entriesHaveWords_optional (by decide) hasWords_auth r.auth) ?_
  refine Value.entriesHaveWords_append
    (Value.entriesHaveWords_optional (by decide) hasWords_space r.space) ?_
  exact Value.entriesHaveWords_append (entriesHaveWords_text (by decide) r.rootName) hmappings

/-! ## §5. The text of a route. -/

/-- **A written route is read as that route**, whatever it holds. -/
theorem read_written (r : Route) : read r.write = .ok r := by
  have hwords := hasWords_route r
  unfold toValue at hwords
  rw [Value.HasWords] at hwords
  exact decode_write (by simp) hwords (finds_route r)

end Crosswalk.Route
