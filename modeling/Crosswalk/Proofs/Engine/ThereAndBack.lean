/-
  Crosswalk.Proofs.Engine.ThereAndBack
  ──────────────────────────────────────
  **FIELDS THAT GO THERE AND COME BACK.**

  A route may carry each key of an object to names of its own in the document
  and from there back to the key (`Link`, `Carries`).  On the way a text is
  put into the object of the message, the document, its markup, the document
  that is read from it and the object of the reply, and each of these keeps
  it up to its white space:

    • `requestValue_there`, `writtenBy_there`: from the object into the
      document,
    • `slashField?_target`: in the document, which is a last-write-wins map,
    • `replyValue_back`, `applyJsonReply_back`: from what is read into the
      object,
    • `reply_request`: all fields of a route.
-/
import Crosswalk.Engine.Reply
import Crosswalk.Proofs.Engine.Shape
import Crosswalk.Proofs.Json.RoundTrip
import Crosswalk.Proofs.Path.Field

namespace Crosswalk.Engine

open Markup
open Crosswalk.Path (Writes)
open Route (FieldMapping)

/-! ## §1. Links. -/

/-- A key of an object and the names below the root of a document that it is linked with. -/
structure Link where
  key : Text
  names : List Text
  deriving DecidableEq, Repr

namespace Link

/-- The names as a path. -/
def path (l : Link) : Text :=
  ['/'].intercalate l.names

/-- The mapping of requests: from the key to the names. -/
def there (l : Link) : FieldMapping :=
  .between (Path.sourceMark ++ l.key) l.path

/-- The mapping of replies: from the names back to the key. -/
def back (l : Link) : FieldMapping :=
  .between (Path.targetMark ++ l.path) l.key

/-- Key and names can be written as paths: the key is one segment, the names are those of elements
without points, and the first of several is not that of the root. -/
structure Proper (root : Text) (l : Link) : Prop where
  key : '.' ∉ l.key
  nonempty : l.names ≠ []
  name : ∀ n ∈ l.names, isName n = true
  point : ∀ n ∈ l.names, '.' ∉ n
  below : l.names.tail = [] ∨ l.names.head? ≠ some root

end Link

section

variable {root : Text} {l : Link}

theorem not_mem_path {c : Char} (hslash : c ≠ '/') (hname : ∀ n ∈ l.names, c ∉ n) :
    c ∉ l.path := by
  intro hc
  rcases Text.mem_intercalate hc with rfl | ⟨n, hn, hc⟩
  · exact hslash rfl
  · exact hname n hn hc

theorem point_not_mem_path (h : l.Proper root) : '.' ∉ l.path :=
  not_mem_path (by decide) h.point

theorem colon_not_mem_path (h : l.Proper root) : ':' ∉ l.path :=
  not_mem_path (by decide) fun n hn => colon_not_mem_of_isName (h.name n hn)

/-- A path of names bears no mark. -/
theorem dropLead_path (h : l.Proper root) : Text.dropLead Path.targetMark l.path = l.path := by
  have hnone : Text.after? Path.targetMark l.path = none :=
    Text.after?_eq_none fun hpre => colon_not_mem_path h (hpre.subset (by decide))
  unfold Text.dropLead
  rw [hnone]
  rfl

/-- **The segments of the path are the names.** -/
theorem steps_path (h : l.Proper root) : Text.steps '/' l.path = l.names :=
  Path.steps_names h.name fun n hn => Path.slash_not_mem_of_isName (h.name n hn)

/-- **A value for the path is put at the names.** -/
theorem namesBelow_path (h : l.Proper root) : Path.namesBelow root l.path = l.names := by
  have hslashed : Path.slashed l.path = l.path := by
    have hnone : Text.after? Path.sourceMark l.path = none :=
      Text.after?_eq_none fun hpre => point_not_mem_path h (hpre.subset (by decide))
    unfold Path.slashed
    dsimp only
    rw [dropLead_path h, hnone]
  unfold Path.namesBelow
  rw [hslashed, steps_path h]
  -- a leading name is only dropped when it is that of the root and not the only one
  have hbelow := h.below
  cases hnames : l.names with
  | nil => rfl
  | cons first names =>
      cases names with
      | nil => rfl
      | cons second names =>
          rw [hnames] at hbelow
          have hne : first ≠ root := fun heq =>
            hbelow.elim (fun htail => absurd htail (by simp)) (fun hhead => hhead (by rw [heq]; rfl))
          exact if_neg hne

end

/-! ## §2. Mappings without an expression. -/

section

variable (now : Calendar.Instant) (source target : Text)

theorem requestValue_between (message : Message) :
    requestValue now message (.between source target) = .ok (Path.field? message source) := by
  show Except.ok ((Path.field? message source).or none) = _
  rw [Option.or_none]

theorem replyValue_between (reply : Element) :
    replyValue now reply (.between source target) = .ok (replyField? reply source) := by
  have hvalue : ((FieldMapping.between source target).source.bind (replyField? reply)).or
      (FieldMapping.between source target).fallback = replyField? reply source :=
    Option.or_none
  have hexpression : (FieldMapping.between source target).expression? = none := rfl
  unfold replyValue
  rw [hvalue, hexpression]
  cases replyField? reply source <;> rfl

end

/-! ## §3. Routes of links. -/

/-- A validated route from objects to documents without a prefix for the root alone, which carries
different keys to different names and back, and nothing else. -/
structure Carries (r : Route) (links : List Link) : Prop where
  valid : r.validate = .ok ()
  inbound : r.inbound = some .json
  root : rootSpace? r = none
  request : r.request = links.map Link.there
  response : r.response = links.map Link.back
  proper : ∀ l ∈ links, l.Proper r.root
  keys : (links.map Link.key).Nodup
  paths : (links.map Link.path).Nodup

/-- The object with the texts of the keys. -/
def objectOf (links : List Link) (value : Link → Text) : Json :=
  .object (Json.textMembers (links.map fun l => (l.key, value l)))

section

variable {r : Route} {links : List Link} {value : Link → Text} {l : Link}

/-! ## §4. From the object into the document. -/

/-- **The value of a key is taken from the object.** -/
theorem requestValue_there (h : Carries r links) (hl : l ∈ links) (now : Calendar.Instant) :
    requestValue now (.json (objectOf links value)) l.there = .ok (some (value l)) := by
  -- behind its mark the path is one key, so the lookup takes a single step
  have hconstant : Text.after? Path.constantMark (Path.sourceMark ++ l.key) = none :=
    Text.after?_eq_none fun hpre => absurd (List.cons_prefix_cons.mp hpre).1 (by decide)
  have hmember : Json.member? l.key (Json.textMembers (links.map fun l => (l.key, value l)))
      = some (.string (value l)) := by
    refine Json.member?_textMembers (f := (l.key, value l)) ?_ (List.mem_map_of_mem hl)
    rw [List.map_map]
    exact h.keys
  have hfield : Path.jsonField? (objectOf links value) l.key = some (value l) := by
    unfold Path.jsonField? objectOf
    rw [List.splitOn_eq_singleton (h.proper l hl).key, Json.lookup, hmember]
    rfl
  unfold Link.there
  rw [requestValue_between]
  unfold Path.field?
  rw [hconstant, Text.after?_append]
  show Except.ok ((Path.jsonField? _ l.key).or _) = _
  rw [hfield]
  rfl

/-- **Each field writes its value at its names.** -/
theorem writtenBy_there (h : Carries r links) (hl : l ∈ links) (now : Calendar.Instant) :
    writtenBy now (.json (objectOf links value)) r.root l.there = some (l.names, value l) := by
  have hproper := h.proper l hl
  have htarget : l.there.target = some l.path := rfl
  unfold writtenBy
  rw [requestValue_there h hl, htarget]
  unfold fieldWrite
  dsimp only
  rw [namesBelow_path hproper]
  cases hnames : l.names with
  | nil => exact absurd hnames hproper.nonempty
  | cons n names => rfl

theorem written_eq (h : Carries r links) (now : Calendar.Instant) :
    written now (.json (objectOf links value)) r = links.map fun l => (l.names, value l) := by
  unfold written
  rw [h.request, List.filterMap_map, ← List.filterMap_eq_map]
  apply List.filterMap_congr
  intro l hl
  exact writtenBy_there h hl now

/-- **In the document the value stands at the names**, up to its white space. -/
theorem slashField?_target (h : Carries r links) (hl : l ∈ links) (now : Calendar.Instant) :
    Path.slashField? (target now (.json (objectOf links value)) r).1 l.path
      = some (Text.collapse (value l)) := by
  have hproper := h.proper l hl
  have hcolon : ∀ n ∈ l.names, ':' ∉ n := fun n hn => colon_not_mem_of_isName (hproper.name n hn)
  have hmem : (l.names, value l) ∈ written now (.json (objectOf links value)) r := by
    rw [written_eq h]
    exact List.mem_map_of_mem hl
  have hreflects : Path.Reflects (target now (.json (objectOf links value)) r).1
      (written now (.json (objectOf links value)) r) := by
    apply target_reflects
    intro w hw n hn
    rw [written_eq h] at hw
    obtain ⟨l, hl, rfl⟩ := List.mem_map.mp hw
    exact (h.proper l hl).name n hn
  have hpaths : ((written now (.json (objectOf links value)) r).map Prod.fst).Nodup := by
    -- different paths are paths of different names
    rw [written_eq h, List.map_map]
    exact List.Nodup.of_map (['/'].intercalate ·) (by rw [List.map_map]; exact h.paths)
  obtain ⟨e, hwalk⟩ := (hreflects.exists_walk hcolon).mpr
    (.inr ((Writes.under_ne_nil_iff _ _).mpr ⟨_, hmem, List.prefix_refl _⟩))
  have htext : e.text = some (value l) := by
    rw [(hreflects.walk hcolon hwalk).text_eq, Writes.last?_under]
    exact Writes.last?_of_nodup hpaths hmem
  rw [Path.slashField?_eq, dropLead_path hproper, steps_path hproper]
  cases hnames : l.names with
  | nil => exact absurd hnames hproper.nonempty
  | cons n names =>
      rw [hnames] at hwalk
      show Option.map _ ((n :: names).foldlM Element.child? _) = _
      rw [hwalk]
      show some ((e.text.map Text.collapse).getD []) = _
      rw [htext]
      rfl

/-! ## §5. From what is read into the object. -/

/-- The document as it is read from its markup. -/
theorem read_request (h : Carries r links) (now : Calendar.Instant) (message : Message) :
    Markup.read (writeTarget r (target now message r).1)
      = .ok (normalize .unbound (target now message r).1) := by
  unfold writeTarget
  rw [h.root]
  show Markup.read (Markup.write _) = _
  unfold Markup.write
  rw [read_declarationLine (writeElement_eq_cons [] _)]
  exact readFrom_initial (wellFormed_target h.valid now message)

theorem replyValue_back (h : Carries r links) (hl : l ∈ links) (now now' : Calendar.Instant) :
    replyValue now' (normalize .unbound (target now (.json (objectOf links value)) r).1) l.back
      = .ok (some (Text.collapse (value l))) := by
  have hproper := h.proper l hl
  have hconstant : Text.after? Path.constantMark (Path.targetMark ++ l.path) = none :=
    Text.after?_eq_none fun hpre => absurd (List.cons_prefix_cons.mp hpre).1 (by decide)
  have hdrop : Text.dropLead Path.targetMark (Path.targetMark ++ l.path) = l.path := by
    unfold Text.dropLead
    rw [Text.after?_append]
    rfl
  have hfield : replyField? (normalize .unbound (target now (.json (objectOf links value)) r).1)
      (Path.targetMark ++ l.path) = some (Text.collapse (value l)) := by
    unfold replyField?
    rw [hconstant]
    -- without points the path is read with slashes, also when it is a single name
    show (if '/' ∈ Text.dropLead _ _ ∨ '.' ∉ Text.dropLead _ _ then _ else _) = _
    rw [hdrop, if_pos (.inr (point_not_mem_path hproper)), Path.slashField?_normalize,
      slashField?_target h hl]
  unfold Link.back
  rw [replyValue_between, hfield]

/-- **Each field comes back to its key.** -/
theorem applyJsonReply_back (h : Carries r links) (hl : l ∈ links) (now now' : Calendar.Instant)
    (members : Members) :
    applyJsonReply r.id now' (normalize .unbound (target now (.json (objectOf links value)) r).1)
        members l.back
      = (Json.insert l.key (.string (Text.collapse (value l))) members, none) := by
  have htarget : l.back.target = some l.key := rfl
  unfold applyJsonReply
  rw [replyValue_back h hl, htarget]
  dsimp only
  rw [List.splitOn_eq_singleton (h.proper l hl).key]
  rfl

theorem jsonReply_text (h : Carries r links) (now now' : Calendar.Instant) :
    (jsonReply now' (normalize .unbound (target now (.json (objectOf links value)) r).1) r).text
      = (objectOf links (Text.collapse ∘ value)).write := by
  -- the members so far are general: both runs put the same ones in, field by field
  have hrun : ∀ (ls : List Link) (members : Members), (∀ l ∈ ls, l ∈ links) →
      (ls.map Link.back).foldl (fun members f => (applyJsonReply r.id now' (normalize .unbound
          (target now (.json (objectOf links value)) r).1) members f).1) members
        = (ls.map fun l => (l.key, Text.collapse (value l))).foldl
            (fun members f => Json.insert f.1 (.string f.2) members) members := by
    intro ls
    induction ls with
    | nil => intro members _; rfl
    | cons l ls ih =>
        intro members hls
        rw [List.map_cons, List.foldl_cons, applyJsonReply_back h (hls l List.mem_cons_self)]
        exact ih _ fun m hm => hls m (List.mem_cons_of_mem l hm)
  show (Json.object (runFields r.id _ 0 [] r.response).1).write = _
  rw [runFields_fst, h.response, hrun links [] fun _ hl => hl]
  rfl

/-! ## §6. There and back. -/

/-- **THE VALUES OF A MESSAGE COME BACK IN THE REPLY.**  For every route of links, every message that
is an object with texts for their keys, and any two instants: the request succeeds, and when its own
text is the reply, the reply succeeds and is the object with the same texts, their white space
collapsed. -/
theorem reply_request (h : Carries r links) {content : Text}
    (hread : Json.read content = .ok (objectOf links value)) (now now' : Calendar.Instant) :
    ∃ t t', request now content r = .ok t ∧ reply now' t.text r .json = .ok t'
      ∧ t'.text = (objectOf links (Text.collapse ∘ value)).write
      ∧ Json.read t'.text = .ok (objectOf links (Text.collapse ∘ value)) := by
  have hmessage : readInbound content r = .ok (.json (objectOf links value)) := by
    unfold readInbound
    rw [h.inbound]
    show ((Message.readJson content).map _).mapError _ = _
    unfold Message.readJson
    rw [hread]
    rfl
  have hrequest : request now content r
      = .ok ⟨writeTarget r (target now (.json (objectOf links value)) r).1,
          (target now (.json (objectOf links value)) r).2⟩ := by
    unfold request
    rw [hmessage]
    rfl
  refine ⟨_, jsonReply now' (normalize .unbound (target now (.json (objectOf links value)) r).1) r,
    hrequest, ?_, jsonReply_text h now now', ?_⟩
  · unfold reply readReply Message.readMarkup
    rw [read_request h]
    rfl
  · rw [jsonReply_text h]
    exact Json.read_textMembers _

end

/-- Two links; the names of the second lie below those of the first. -/
def nestedLinks : List Link :=
  [⟨"b".toList, ["A".toList]⟩, ⟨"a".toList, ["A".toList, "B".toList]⟩]

/-- A route of these links, in a namespace. -/
def returning : Route :=
  { Route.empty with
    id := "r".toList
    inbound := some .json
    space := some ⟨some "urn:x".toList, some "p".toList, none⟩
    request := nestedLinks.map Link.there
    response := nestedLinks.map Link.back }

theorem carries_returning : Carries returning nestedLinks where
  valid := by decide
  inbound := rfl
  root := rfl
  request := rfl
  response := rfl
  proper := by
    intro l hl
    rcases List.mem_pair.mp hl with rfl | rfl
    · exact ⟨by decide, by decide, by decide, by decide, .inl rfl⟩
    · exact ⟨by decide, by decide, by decide, by decide, .inr (by decide)⟩
  keys := by decide
  paths := by decide

/-- Blank text beside a child and white space inside a text are gone when the values come back. -/
theorem reply_request_returning :
    Carries returning nestedLinks
      ∧ ∃ t t', request newYear "\x7b\"a\":\" x \\t& y\",\"b\":\" \"\x7d".toList returning = .ok t
        ∧ reply newYear t.text returning .json = .ok t'
        ∧ t'.text = "\x7b\"a\":\"x & y\",\"b\":\"\"\x7d".toList := by
  let value : Link → Text := fun l => if l.key = "a".toList then " x \t& y".toList else " ".toList
  have hcontent : "\x7b\"a\":\" x \\t& y\",\"b\":\" \"\x7d".toList
      = (objectOf nestedLinks value).write := by decide +kernel
  have hread : Json.read "\x7b\"a\":\" x \\t& y\",\"b\":\" \"\x7d".toList
      = .ok (objectOf nestedLinks value) := by
    rw [hcontent]
    exact Json.read_textMembers _
  obtain ⟨t, t', hrequest, hreply, htext, -⟩ :=
    reply_request carries_returning hread newYear newYear
  refine ⟨carries_returning, t, t', hrequest, hreply, htext.trans ?_⟩
  decide +kernel

end Crosswalk.Engine
