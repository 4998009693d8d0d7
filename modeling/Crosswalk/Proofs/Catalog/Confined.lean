/-
  Crosswalk.Proofs.Catalog.Confined
  ──────────────────────────────────────
  **IDS THAT LEAD NOWHERE ELSE.**

  Ids of routes come from outside.  Whatever text is given for one, no file
  is looked at but the two entries of the directory under that id, and an id
  that could be a way to another directory is refused on every disk.

    • `getOrLoad_congr`, `translateBy_congr`: registries and translators see
      no more of a disk than loading does,
    • `load_confined`: the law for routes, requests and replies.
-/
import Crosswalk.Delivery.Translator
import Crosswalk.Proofs.Catalog.Loader

namespace Crosswalk.Catalog

open Delivery (Failure request reply translateBy)
open Engine (Translated)
open Storage (Disk)

variable {d d' : Disk} {id : Text}

/-! ## §1. Registries and translators. -/

theorem getOrLoad_congr {g : Registry} (h : load d g.directory id = load d' g.directory id) :
    g.getOrLoad d id = g.getOrLoad d' id := by
  unfold Registry.getOrLoad Registry.refresh
  rw [h]

/-- **A translator sees no more of a disk than the loaded route.** -/
theorem translateBy_congr {g : Registry} (h : load d g.directory id = load d' g.directory id)
    (translate : Route → Except Failure Translated) :
    translateBy g d id translate = translateBy g d' id translate := by
  unfold translateBy
  rw [getOrLoad_congr h]

/-! ## §2. All ids. -/

/-- **IDS OF ROUTES DO NOT LEAD OUT OF THE DIRECTORY.**  For every text that is given as an id, two
disks with the same two entries under the trimmed id load the same, and translate the same requests
and replies alike; and on every disk an id is refused that is blank, a dot or two, or has a slash of
either kind in it. -/
theorem load_confined (directory id : Text) :
    (∀ d d' : Disk, SameEntries d d' directory (Text.trim id) →
      load d directory id = load d' directory id
        ∧ ∀ g : Registry, g.directory = directory → ∀ (now : Calendar.Instant) (content : Text),
            request g d now content id = request g d' now content id
              ∧ ∀ format : Option Format,
                  reply g d now content id format = reply g d' now content id format)
    ∧ (Text.trim id = [] ∨ Text.trim id = ['.'] ∨ Text.trim id = Storage.parent
          ∨ '/' ∈ Text.trim id ∨ '\\' ∈ Text.trim id →
        ∃ e : LoadError, e.kind = .configuration
          ∧ e.message = Route.complaint ("invalid route id '".toList ++ Text.trim id ++ ['\''])
          ∧ ∀ d : Disk, load d directory id = ⟨[], .error e⟩) := by
  constructor
  · intro d d' hsame
    have hload : load d directory id = load d' directory id := load_congr hsame
    refine ⟨hload, ?_⟩
    rintro g rfl now content
    exact ⟨translateBy_congr hload _, fun format => translateBy_congr hload _⟩
  · intro hbad
    have hrefused : isBadId (Text.trim id) = true := by
      by_contra hplain
      obtain ⟨hne, hslash, hback, hhere, hparent⟩ :=
        isBadId_eq_false.mp (Bool.eq_false_iff.mpr hplain)
      rcases hbad with h | h | h | h | h
      · exact hne h
      · exact hhere h
      · exact hparent h
      · exact hslash h
      · exact hback h
    exact ⟨.badId (Text.trim id), rfl, rfl, fun d => load_of_bad d directory hrefused⟩

/-- A directory with one route, beside a file that is not for everyone. -/
def guarded (secret : Text) : Disk :=
  ⟨[(["secret.yaml".toList], .file (.text secret)),
    (["routes".toList, "r.yaml".toList], .file (.text "mode: ACTIVE".toList)),
    (["routes".toList], .directory)]⟩

/-- The other file does not matter for an id with white space around it, and the id that is a way to
it is refused. -/
theorem load_confined_guarded :
    SameEntries (guarded "mode: ACTIVE".toList) (guarded []) "routes".toList
        (Text.trim " r ".toList)
      ∧ load (guarded "mode: ACTIVE".toList) "routes".toList " r ".toList
        = load (guarded []) "routes".toList " r ".toList
      ∧ '/' ∈ Text.trim " ../secret".toList
      ∧ ∃ e : LoadError, e.kind = .configuration
        ∧ ∀ d : Disk, load d "routes".toList " ../secret".toList = ⟨[], .error e⟩ := by
  have hsame : SameEntries (guarded "mode: ACTIVE".toList) (guarded []) "routes".toList
      (Text.trim " r ".toList) := by
    intro extension hext
    simp only [extensions, List.mem_cons, List.not_mem_nil, or_false] at hext
    rcases hext with rfl | rfl <;> decide +kernel
  have hslash : '/' ∈ Text.trim " ../secret".toList := by decide
  refine ⟨hsame, ((load_confined _ _).1 _ _ hsame).1, hslash, ?_⟩
  obtain ⟨e, hkind, -, hrefused⟩ :=
    (load_confined "routes".toList " ../secret".toList).2 (.inr (.inr (.inr (.inl hslash))))
  exact ⟨e, hkind, hrefused⟩

end Crosswalk.Catalog
