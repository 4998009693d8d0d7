/-
  Crosswalk.Proofs.Delivery.Guarded
  ──────────────────────────────────────
  **NOTHING LEAVES UNENCRYPTED OR UNASKED.**

  A delivery has many ends: a route that does not load, a plan without an
  endpoint, a message that cannot be read, a partner that is missing or that
  fails.  Whatever the partners answer, the calls that were made and the
  result fit the plan (`Guarded`):

    • `deliver_of_refused`, `deliver_of_allowed`: a delivery is a translation
      and, when that succeeds, what is done with its text,
    • `handle_guarded`: the calls and the end of what is done with a text,
    • `deliver_guarded`: the law for whole deliveries.
-/
import Mathlib.Data.List.Basic
import Crosswalk.Delivery.Translator

namespace Crosswalk.Delivery

open Catalog (Registry)
open Engine (Translated)
open Storage (Disk)

variable {partners : Partners} {p : Plan} {target message : Text}

/-! ## §1. What a plan allows. -/

/-- What an encryptor was called with. -/
def Call.plaintext? : Call → Option Plaintext
  | .encrypt x => some x
  | .forward _ => none

/-- What a forwarder was called with. -/
def Call.parcel? : Call → Option Parcel
  | .encrypt _ => none
  | .forward x => some x

/-- What the encryptor is given for a text. -/
def Plan.plaintext (p : Plan) (target : Text) : Plaintext :=
  ⟨target, p.cipher, p.key⟩

/-- A text becomes the message that is to be sent: the answer of the encryptor when the plan asks
for encryption, and the text itself otherwise. -/
inductive Sealed (partners : Partners) (p : Plan) (target : Text) : Text → Prop
  | plain (off : p.encrypt = false) : Sealed partners p target target
  | encrypted (encrypt : Encryptor) (message : Text) (on : p.encrypt = true)
      (there : partners.encryptor = some encrypt)
      (answer : encrypt (p.plaintext target) = .ok message) : Sealed partners p target message

/-- The message was given to the forwarder, with success or without. -/
def IsSent : Except Failure Receipt → Prop
  | .ok r => r.isForwarded = true
  | .error e => ∃ endpoint reason, e = .forwarding endpoint reason

/-- Calls and a result as a plan allows them for a translation. -/
structure Guarded (partners : Partners) (p : Plan) (translation : Except Failure Text)
    (calls : List Call) (result : Except Failure Receipt) : Prop where
  /-- All calls to the encryptor come before those to the forwarder. -/
  ordered : calls = (calls.filterMap Call.plaintext?).map .encrypt
    ++ (calls.filterMap Call.parcel?).map .forward
  encryptsOnce : (calls.filterMap Call.plaintext?).length ≤ 1
  /-- Nothing is encrypted but the translation, and only when the plan asks for it. -/
  encrypts : ∀ x ∈ calls.filterMap Call.plaintext?,
    p.encrypt = true ∧ ∃ target, translation = .ok target ∧ x = p.plaintext target
  forwardsOnce : (calls.filterMap Call.parcel?).length ≤ 1
  /-- Nothing is forwarded but the sealed translation, after the call that sealed it, and only when
  the plan asks for it and says where to. -/
  forwards : ∀ x ∈ calls.filterMap Call.parcel?,
    p.forward = true ∧ Text.blank x.endpoint = false ∧ p.endpoint = some x.endpoint
      ∧ x = ⟨x.endpoint, x.body, p.apiKey, p.connectTime, p.readTime⟩
      ∧ ∃ target, translation = .ok target ∧ Sealed partners p target x.body
        ∧ calls.filterMap Call.plaintext? = if p.encrypt then [p.plaintext target] else []
  /-- The forwarder was called exactly when the result says so. -/
  sent : calls.filterMap Call.parcel? ≠ [] ↔ IsSent result
  /-- A receipt is for the sealed translation, forwarded exactly as the plan asks, and has an answer
  exactly when it was forwarded. -/
  receipt : ∀ r, result = .ok r →
    (∃ target, translation = .ok target ∧ Sealed partners p target r.message)
      ∧ r.isForwarded = p.forward ∧ r.response.isSome = r.isForwarded

/-- A translation that failed calls nobody. -/
theorem guarded_of_error {translation : Except Failure Text} {e : Failure}
    (h : ∀ endpoint reason, e ≠ .forwarding endpoint reason) :
    Guarded partners p translation [] (.error e) where
  ordered := rfl
  encryptsOnce := Nat.zero_le 1
  encrypts := fun x hx => absurd hx List.not_mem_nil
  forwardsOnce := Nat.zero_le 1
  forwards := fun x hx => absurd hx List.not_mem_nil
  sent := ⟨fun hne => absurd rfl hne, fun ⟨endpoint, reason, he⟩ => absurd he (h endpoint reason)⟩
  receipt := fun r hr => by cases hr

/-! ## §2. The stages. -/

/-- What the forwarder is given for a message. -/
def Plan.parcel (p : Plan) (message : Text) : Parcel :=
  ⟨p.endpoint.getD [], message, p.apiKey, p.connectTime, p.readTime⟩

/-- How a delivery ends with the answer of the forwarder. -/
def Plan.ending (p : Plan) (message : Text) : Except Text Text → Except Failure Receipt
  | .ok response => .ok ⟨message, some response, true⟩
  | .error reason => .error (.forwarding (p.parcel message).endpoint reason)

/-- **The forwarder is called at most once, with the message, and the result tells it.** -/
theorem forwardStage_spec (partners : Partners) (p : Plan) (message : Text) :
    ∃ parcels : List Parcel,
      (forwardStage partners p message).calls = parcels.map .forward
        ∧ (parcels = [] ∨ p.forward = true ∧ parcels = [p.parcel message])
        ∧ (parcels ≠ [] ↔ IsSent (forwardStage partners p message).result)
        ∧ ∀ r, (forwardStage partners p message).result = .ok r →
            r.message = message ∧ r.isForwarded = p.forward ∧ r.response.isSome = r.isForwarded := by
  cases hon : p.forward with
  | false =>
      have hstage : forwardStage partners p message = ⟨[], .ok ⟨message, none, false⟩⟩ := by
        unfold forwardStage
        rw [hon]
        rfl
      rw [hstage]
      refine ⟨[], rfl, .inl rfl, ⟨fun hne => absurd rfl hne, fun hsent => by cases hsent⟩, ?_⟩
      rintro r ⟨⟩
      exact ⟨rfl, rfl, rfl⟩
  | true =>
      cases hthere : partners.forwarder with
      | none =>
          have hstage : forwardStage partners p message = ⟨[], .error .noForwarder⟩ := by
            unfold forwardStage
            rw [hon, hthere]
            rfl
          rw [hstage]
          refine ⟨[], rfl, .inl rfl, ⟨fun hne => absurd rfl hne, ?_⟩, fun r hr => by cases hr⟩
          rintro ⟨endpoint, reason, ⟨⟩⟩
      | some forward =>
          have hstage : forwardStage partners p message =
              ⟨[.forward (p.parcel message)], p.ending message (forward (p.parcel message))⟩ := by
            unfold forwardStage
            rw [hon, hthere]
            rfl
          rw [hstage]
          -- the call was made; only its answer is open
          refine ⟨[p.parcel message], rfl, .inr ⟨rfl, rfl⟩, ?_⟩
          cases forward (p.parcel message) with
          | ok response =>
              refine ⟨⟨fun _ => rfl, fun _ => List.cons_ne_nil _ _⟩, ?_⟩
              rintro r ⟨⟩
              exact ⟨rfl, rfl, rfl⟩
          | error reason =>
              exact ⟨⟨fun _ => ⟨_, _, rfl⟩, fun _ => List.cons_ne_nil _ _⟩, fun r hr => by cases hr⟩

/-- A plan is accepted when it does not ask for forwarding or says where to. -/
theorem exists_endpoint (h : checkEndpoint p = .ok ()) (hon : p.forward = true) :
    ∃ endpoint, p.endpoint = some endpoint ∧ Text.blank endpoint = false := by
  unfold checkEndpoint Plan.endpoint? at h
  cases hend : p.endpoint with
  | none => simp [hon, hend] at h
  | some endpoint =>
      cases hblank : Text.blank endpoint with
      | false => exact ⟨endpoint, rfl, hblank⟩
      | true => simp [hon, hend, hblank, Option.filter_some] at h

/-! ## §3. What is done with a translation. -/

theorem plaintexts_calls (xs : List Plaintext) (ys : List Parcel) :
    (xs.map Call.encrypt ++ ys.map Call.forward).filterMap Call.plaintext? = xs := by
  simp [List.filterMap_append, List.filterMap_map, Function.comp_def, Call.plaintext?]

theorem parcels_calls (xs : List Plaintext) (ys : List Parcel) :
    (xs.map Call.encrypt ++ ys.map Call.forward).filterMap Call.parcel? = ys := by
  simp [List.filterMap_append, List.filterMap_map, Function.comp_def, Call.parcel?]

/-- What a plan has encrypted before the message is sealed. -/
def Plan.plaintexts (p : Plan) (target : Text) : List Plaintext :=
  if p.encrypt then [p.plaintext target] else []

/-- **A sealed message is forwarded as the plan asks**, behind the call that sealed it. -/
theorem guarded_forwardStage (hcheck : checkEndpoint p = .ok ())
    (hsealed : Sealed partners p target message) :
    Guarded partners p (.ok target)
      ((p.plaintexts target).map .encrypt ++ (forwardStage partners p message).calls)
      (forwardStage partners p message).result := by
  obtain ⟨parcels, hcalls, hparcels, hsent, hreceipt⟩ := forwardStage_spec partners p message
  rw [hcalls]
  refine ⟨?_, ?_, ?_, ?_, ?_, ?_, ?_⟩
  · rw [plaintexts_calls, parcels_calls]
  · rw [plaintexts_calls]
    unfold Plan.plaintexts
    split <;> simp
  · rw [plaintexts_calls]
    intro x hx
    unfold Plan.plaintexts at hx
    cases hon : p.encrypt with
    | false => simp [hon] at hx
    | true => exact ⟨rfl, target, rfl, by simpa [hon] using hx⟩
  · rw [parcels_calls]
    obtain rfl | ⟨-, rfl⟩ := hparcels
    · exact Nat.zero_le 1
    · exact Nat.le_refl 1
  · rw [plaintexts_calls, parcels_calls]
    intro x hx
    obtain rfl | ⟨hon, rfl⟩ := hparcels
    · cases hx
    · obtain ⟨endpoint, hend, hblank⟩ := exists_endpoint hcheck hon
      obtain rfl := List.mem_singleton.mp hx
      have hto : (p.parcel message).endpoint = endpoint := by
        unfold Plan.parcel
        rw [hend]
        rfl
      refine ⟨hon, hto ▸ hblank, hto ▸ hend, rfl, target, rfl, hsealed, rfl⟩
  · rw [parcels_calls]
    exact hsent
  · intro r hr
    obtain ⟨hmessage, hforwarded, hanswered⟩ := hreceipt r hr
    exact ⟨⟨target, rfl, hmessage ▸ hsealed⟩, hforwarded, hanswered⟩

/-- A plan whose message cannot be sealed calls the encryptor at most, and forwards nothing. -/
theorem guarded_unsealed (xs : List Plaintext) {e : Failure}
    (hxs : xs = [] ∨ p.encrypt = true ∧ xs = [p.plaintext target])
    (he : ∀ endpoint reason, e ≠ .forwarding endpoint reason) :
    Guarded partners p (.ok target) (xs.map .encrypt) (.error e) := by
  have hplain := plaintexts_calls xs []
  have hparcel := parcels_calls xs []
  rw [List.map_nil, List.append_nil] at hplain hparcel
  refine ⟨?_, ?_, ?_, ?_, ?_, ?_, fun r hr => by cases hr⟩
  · rw [hplain, hparcel, List.map_nil, List.append_nil]
  · rw [hplain]
    obtain rfl | ⟨-, rfl⟩ := hxs
    · exact Nat.zero_le 1
    · exact Nat.le_refl 1
  · rw [hplain]
    intro x hx
    obtain rfl | ⟨hon, rfl⟩ := hxs
    · cases hx
    · exact ⟨hon, target, rfl, List.mem_singleton.mp hx⟩
  · rw [hparcel]
    exact Nat.zero_le 1
  · rw [hparcel]
    exact fun x hx => absurd hx List.not_mem_nil
  · rw [hparcel]
    exact ⟨fun hne => absurd rfl hne,
      fun ⟨endpoint, reason, hsent⟩ => absurd hsent (he endpoint reason)⟩

/-- **Whatever the partners answer, a translation is handled as the plan allows.** -/
theorem handle_guarded (hcheck : checkEndpoint p = .ok ()) (partners : Partners) (target : Text) :
    Guarded partners p (.ok target) (handle partners p target).calls
      (handle partners p target).result := by
  have hforward := fun message (h : Sealed partners p target message) =>
    guarded_forwardStage hcheck h
  cases hon : p.encrypt with
  | false =>
      have hstage : encryptStage partners p target = ⟨[], .ok target⟩ := by
        unfold encryptStage
        rw [hon]
        rfl
      have hguarded := hforward target (.plain hon)
      unfold Plan.plaintexts at hguarded
      unfold handle
      rw [hstage]
      simpa [hon] using hguarded
  | true =>
      cases hthere : partners.encryptor with
      | none =>
          have hstage : encryptStage partners p target = ⟨[], .error .noEncryptor⟩ := by
            unfold encryptStage
            rw [hon, hthere]
            rfl
          unfold handle
          rw [hstage]
          exact guarded_unsealed [] (.inl rfl) (fun _ _ h => by cases h)
      | some encrypt =>
          have hstage : encryptStage partners p target = ⟨[.encrypt (p.plaintext target)],
              (encrypt (p.plaintext target)).mapError .encryption⟩ := by
            unfold encryptStage
            rw [hon, hthere]
            rfl
          unfold handle
          rw [hstage]
          cases hanswer : encrypt (p.plaintext target) with
          | error reason =>
              exact guarded_unsealed [p.plaintext target] (.inr ⟨hon, rfl⟩)
                (fun _ _ h => by cases h)
          | ok message =>
              have hguarded := hforward message (.encrypted encrypt message hon hthere hanswer)
              unfold Plan.plaintexts at hguarded
              rw [if_pos hon] at hguarded
              exact hguarded

/-! ## §4. Whole deliveries. -/

section

variable (g : Registry) (d : Disk) (partners : Partners) (now : Calendar.Instant)
  (content : Text) (p : Plan)

/-- A translation fails in the route or in the message, and that is known from its step. -/
theorem ne_forwarding_of_translateBy {id : Text} {translate : Route → Except Failure Translated}
    (htranslate : ∀ r e, translate r = .error e →
      ∀ endpoint reason, e ≠ .forwarding endpoint reason)
    {e : Failure} (h : (translateBy g d id translate).result = .error e) :
    ∀ endpoint reason, e ≠ .forwarding endpoint reason := by
  unfold translateBy at h
  cases hload : (g.getOrLoad d id).loaded.result with
  | error cause =>
      simp only [hload] at h
      obtain rfl := Except.error.inj h
      exact fun endpoint reason => Failure.noConfusion
  | ok r =>
      simp only [hload] at h
      cases htext : translate r with
      | error cause =>
          simp only [htext] at h
          obtain rfl := Except.error.inj h
          exact htranslate r cause htext
      | ok t =>
          simp only [htext] at h
          cases h

theorem ne_forwarding_of_request {id : Text} {e : Failure}
    (h : (request g d now content id).result = .error e) :
    ∀ endpoint reason, e ≠ .forwarding endpoint reason := by
  refine ne_forwarding_of_translateBy g d (fun r cause hcause => ?_) h
  unfold requestBy at hcause
  cases hread : Engine.request now content r with
  | error u =>
      rw [hread] at hcause
      obtain rfl := Except.error.inj hcause
      exact fun endpoint reason => Failure.noConfusion
  | ok t =>
      rw [hread] at hcause
      cases hcause

/-- A plan that says not where to forward is not translated, and calls nobody. -/
theorem deliver_of_refused {e : Failure} (hcheck : checkEndpoint p = .error e) :
    ∃ failure, (deliver g d partners now content p).calls = []
      ∧ (deliver g d partners now content p).turn.result = .error failure
      ∧ ∀ endpoint reason, failure ≠ .forwarding endpoint reason := by
  have hend : ∀ endpoint reason, e ≠ .forwarding endpoint reason := by
    unfold checkEndpoint at hcheck
    split at hcheck
    · obtain rfl := Except.error.inj hcheck
      exact fun endpoint reason => Failure.noConfusion
    · cases hcheck
  have hstep : ∀ r, (do checkEndpoint p; requestBy now content r : Except Failure Translated)
      = .error e := by
    intro r
    rw [hcheck]
    rfl
  unfold deliver
  simp only [hstep]
  cases hresult : (translateBy g d p.route (fun _ => .error e)).result with
  | ok text =>
      -- a route that loads is refused all the same
      unfold translateBy at hresult
      cases hload : (g.getOrLoad d p.route).loaded.result with
      | error cause => simp only [hload] at hresult; cases hresult
      | ok r => simp only [hload] at hresult; cases hresult
  | error failure =>
      refine ⟨failure, rfl, rfl, ne_forwarding_of_translateBy g d (fun r cause hcause => ?_) hresult⟩
      obtain rfl := Except.error.inj hcause
      exact hend

/-- Any other plan is translated, and what comes of it is handled. -/
theorem deliver_of_allowed (hcheck : checkEndpoint p = .ok ()) :
    deliver g d partners now content p =
      match (request g d now content p.route).result with
      | .error e => ⟨{ request g d now content p.route with result := .error e }, []⟩
      | .ok target =>
        ⟨{ request g d now content p.route with result := (handle partners p target).result },
          (handle partners p target).calls⟩ := by
  unfold deliver
  rw [hcheck]
  rfl

/-- **NOTHING LEAVES UNENCRYPTED OR UNASKED.**  For every translator, all partners with whatever
answers, every message and every plan: the calls that are made and the result are such as the plan
allows for the translation that a request for the same message and route gives. -/
theorem deliver_guarded :
    Guarded partners p (request g d now content p.route).result
      (deliver g d partners now content p).calls
      (deliver g d partners now content p).turn.result := by
  cases hcheck : checkEndpoint p with
  | error e =>
      obtain ⟨failure, hcalls, hresult, hne⟩ := deliver_of_refused g d partners now content p hcheck
      rw [hcalls, hresult]
      exact guarded_of_error hne
  | ok u =>
      rw [deliver_of_allowed g d partners now content p hcheck]
      cases hrequest : (request g d now content p.route).result with
      | error e => exact guarded_of_error (ne_forwarding_of_request g d now content hrequest)
      | ok target => exact handle_guarded hcheck partners target

end

/-! ## §5. A delivery with all steps. -/

/-- Encrypts by turning the text around. -/
def mirror : Encryptor :=
  fun x => .ok x.content.reverse

/-- Answers with the endpoint. -/
def echo : Forwarder :=
  fun x => .ok x.endpoint

/-- A translator with a loaded route that carries one field over. -/
def carrying : Registry :=
  (Registry.empty "routes".toList).insert
    { Route.empty with
      id := "r".toList
      inbound := some .json
      request := [.between "a".toList "A".toList] }

/-- A plan that asks for everything. -/
def everything : Plan :=
  ((Plan.translateOnly "r".toList).withEncryption .pgp "key".toList).withForwarding
    "http://partner".toList none

/-- What the route makes of a message. -/
def carried : Text :=
  Markup.declarationLine ++ "<Document><A>1</A></Document>".toList

/-- What becomes of the message with that plan. -/
def delivery : Delivered :=
  deliver carrying .empty ⟨some mirror, some echo⟩ ⟨⟨2024, 1, 1⟩, 0, 0, 0, 0⟩
    "\x7b\"a\": \"1\"\x7d".toList everything

/-- The translation is encrypted, what comes back is forwarded, and the receipt is for that. -/
theorem deliver_guarded_everything :
    delivery.calls = [.encrypt ⟨carried, .pgp, some "key".toList⟩,
        .forward ⟨"http://partner".toList, carried.reverse, none, 5000, 30000⟩]
      ∧ delivery.turn.result = .ok ⟨carried.reverse, some "http://partner".toList, true⟩
      ∧ Sealed ⟨some mirror, some echo⟩ everything carried carried.reverse
      ∧ IsSent delivery.turn.result := by
  have hcalls : delivery.calls = [.encrypt ⟨carried, .pgp, some "key".toList⟩,
      .forward ⟨"http://partner".toList, carried.reverse, none, 5000, 30000⟩] := by decide +kernel
  have hrequest : (request carrying .empty ⟨⟨2024, 1, 1⟩, 0, 0, 0, 0⟩
      "\x7b\"a\": \"1\"\x7d".toList "r".toList).result = .ok carried := by decide +kernel
  have hguarded := deliver_guarded carrying .empty ⟨some mirror, some echo⟩
    ⟨⟨2024, 1, 1⟩, 0, 0, 0, 0⟩ "\x7b\"a\": \"1\"\x7d".toList everything
  have hparcels : delivery.calls.filterMap Call.parcel?
      = [⟨"http://partner".toList, carried.reverse, none, 5000, 30000⟩] := by
    rw [hcalls]
    rfl
  refine ⟨hcalls, by decide +kernel, ?_, hguarded.sent.mp ?_⟩
  · obtain ⟨-, -, -, -, target, htarget, hsealed, -⟩ :=
      hguarded.forwards _ (hparcels ▸ List.mem_singleton_self _)
    rw [show everything.route = "r".toList from rfl, hrequest] at htarget
    obtain rfl := Except.ok.inj htarget
    exact hsealed
  · rw [show (deliver _ _ _ _ _ _).calls = delivery.calls from rfl, hparcels]
    exact List.cons_ne_nil _ _

end Crosswalk.Delivery
