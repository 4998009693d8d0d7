/-
  Crosswalk.Markup.Token
  ──────────────────────────────────────
  **THE PIECES OF A MARKUP TEXT.**

  `scan` takes the piece that begins at the front of a text: a run of text,
  a tag, a character section, or an aside (comment, processing instruction,
  declaration, document type).  Its main statement, `length_lt_of_scan`, says
  that what is left is shorter, so reading ends.

  A tag ends at the first `>` outside its quoted values, a comment at the
  first `-->`, a section at the first `]]>`, an instruction at the first
  `?>`, a document type at the `>` that balances its inner angle brackets.
-/
import Crosswalk.Text.Basic

namespace Crosswalk.Markup

/-! ## §1. Pieces and faults. -/

/-- A piece of markup. -/
inductive Token
  /-- Text with its references. -/
  | text (raw : Text)
  /-- A start tag, without its angle brackets. -/
  | start (body : Text)
  /-- A tag of an empty element, without its angle brackets and its slash. -/
  | empty (body : Text)
  /-- An end tag, without its angle brackets and its slash. -/
  | close (body : Text)
  /-- A character section. -/
  | section (content : Text)
  /-- A piece without content for the tree. -/
  | aside
  deriving DecidableEq, Repr

/-- Why no piece can be taken. -/
inductive TokenFault
  | unclosedTag
  | unclosedComment
  | unclosedSection
  | unclosedDoctype
  | unclosedInstruction
  /-- `<!` with something unknown after it. -/
  | unknownMarkup
  /-- A document type without a name. -/
  | unnamedDoctype
  deriving DecidableEq, Repr

/-- The wording of a fault in the markup. -/
def TokenFault.message : TokenFault → Text
  | unclosedTag => malformed "tag not closed: `>` not found before end of input".toList
  | unclosedComment => malformed "comment not closed: `-->` not found before end of input".toList
  | unclosedSection => malformed "CDATA not closed: `]]>` not found before end of input".toList
  | unclosedDoctype => malformed "DOCTYPE not closed: `>` not found before end of input".toList
  | unclosedInstruction =>
    malformed ("processing instruction or xml declaration not closed: ".toList
      ++ "`?>` not found before end of input".toList)
  | unknownMarkup => malformed "unknown or missed symbol in markup".toList
  | unnamedDoctype =>
    "ill-formed document: `<!DOCTYPE>` declaration does not contain a name of a document type".toList
where
  malformed (what : Text) : Text := "syntax error: ".toList ++ what

/-- What is found at the front of a text. -/
inductive Scan
  /-- The text is used up. -/
  | done
  | token (t : Token) (rest : Text)
  /-- No piece; the fault lies where `ahead` begins. -/
  | fault (f : TokenFault) (ahead : Text)
  deriving DecidableEq, Repr

/-- The white space of markup. -/
def isSpace (c : Char) : Bool :=
  c == ' ' || c == '\t' || c == '\n' || c == '\r'

/-! ## §2. Ends of pieces. -/

/-- Cuts at the first `>` outside quotes; `quote` is the quote that is open. -/
def cutTag : Option Char → Text → Option (Text × Text)
  | _, [] => none
  | quote, c :: cs =>
    if quote = none ∧ c = '>' then some ([], cs)
    else
      let quote :=
        match quote with
        | some q => if c = q then none else some q
        | none => if c = '"' ∨ c = '\'' then some c else none
      (cutTag quote cs).map (fun (body, rest) => (c :: body, rest))

/-- Cuts at the first `>` for which what stands before it, read backwards, passes the test. -/
def cutMarked (stop : Text → Bool) : Text → Text → Option (Text × Text)
  | _, [] => none
  | seen, c :: cs =>
    if c = '>' ∧ stop seen then some (seen.reverse, cs)
    else cutMarked stop (c :: seen) cs

/-- Cuts at the first `>` that closes no inner `<`; `depth` of them are open. -/
def cutNested : Nat → Text → Option (Text × Text)
  | _, [] => none
  | depth, c :: cs =>
    if c = '>' ∧ depth = 0 then some ([], cs)
    else
      let depth := if c = '<' then depth + 1 else if c = '>' then depth - 1 else depth
      (cutNested depth cs).map (fun (body, rest) => (c :: body, rest))

/-- The text before the `>` ends a comment, counted from its `!`. -/
def endsComment (seen : Text) : Bool :=
  4 < seen.length && seen.take 2 == ['-', '-']

/-- The text before the `>` ends a character section. -/
def endsSection (seen : Text) : Bool :=
  seen.take 2 == [']', ']']

/-- The text before the `>` ends an instruction. -/
def endsInstruction (seen : Text) : Bool :=
  seen.take 1 == ['?']

/-- The text starts with `lead`, whatever the case of its ASCII letters. -/
def startsWithAnyCase (lead s : Text) : Bool :=
  Text.upperAscii (s.take lead.length) == lead

/-! ## §3. One piece. -/

/-- The piece that begins with `<!`; `body` starts with the `!`, `whole` with the `<`. -/
def scanBang (whole body : Text) : Scan :=
  match body.drop 1 with
  | '[' :: _ =>
    match cutMarked endsSection [] body with
    | none => .fault .unclosedSection whole
    | some (inner, rest) =>
      if "![CDATA[".toList.isPrefixOf inner then
        .token (.section ((inner.drop 8).take (inner.length - 10))) rest
      else .fault .unclosedSection whole
  | '-' :: _ =>
    match cutMarked endsComment [] body with
    | none => .fault .unclosedComment whole
    | some (inner, rest) =>
      if "!--".toList.isPrefixOf inner then .token .aside rest else .fault .unclosedComment whole
  | c :: _ =>
    if c = 'D' ∨ c = 'd' then
      match cutNested 0 body with
      | none => .fault .unclosedDoctype whole
      | some (inner, rest) =>
        if !startsWithAnyCase "!DOCTYPE".toList inner then .fault .unclosedDoctype whole
        else if (inner.drop 8).all isSpace then .fault .unnamedDoctype ('>' :: rest)
        else .token .aside rest
    else .fault .unknownMarkup whole
  | [] => .fault .unknownMarkup whole

/-- The piece that begins with `<`, which stands before `body`. -/
def scanMarkup (body : Text) : Scan :=
  match body with
  | [] => .fault .unclosedTag ('<' :: body)
  | '!' :: _ => scanBang ('<' :: body) body
  | '?' :: _ =>
    match cutMarked endsInstruction [] body with
    | none => .fault .unclosedInstruction ('<' :: body)
    | some (inner, rest) =>
      if 1 < inner.length then .token .aside rest else .fault .unclosedInstruction ('<' :: body)
  | '/' :: name =>
    match cutTag none name with
    | none => .fault .unclosedTag ('<' :: body)
    | some (inner, rest) => .token (.close inner) rest
  | _ =>
    match cutTag none body with
    | none => .fault .unclosedTag ('<' :: body)
    | some (inner, rest) =>
      if inner.getLast? = some '/' then .token (.empty inner.dropLast) rest
      else .token (.start inner) rest

/-- The piece at the front of a text. -/
def scan : Text → Scan
  | [] => .done
  | c :: cs =>
    if c = '<' then scanMarkup cs
    else .token (.text (c :: cs.takeWhile (· != '<'))) (cs.dropWhile (· != '<'))

/-! ## §4. Every piece uses text up. -/

theorem length_lt_of_cutTag {quote : Option Char} {s body rest : Text}
    (h : cutTag quote s = some (body, rest)) : rest.length < s.length := by
  induction s generalizing quote body with
  | nil => simp [cutTag] at h
  | cons c cs ih =>
    simp only [cutTag] at h
    split at h
    · simp only [Option.some.injEq, Prod.mk.injEq] at h
      simp [h.2]
    · simp only [Option.map_eq_some_iff, Prod.mk.injEq, Prod.exists] at h
      obtain ⟨b, r, hr, _, rfl⟩ := h
      exact Nat.lt_succ_of_lt (ih hr)

theorem length_lt_of_cutMarked {stop : Text → Bool} {seen s body rest : Text}
    (h : cutMarked stop seen s = some (body, rest)) : rest.length < s.length := by
  induction s generalizing seen with
  | nil => simp [cutMarked] at h
  | cons c cs ih =>
    simp only [cutMarked] at h
    split at h
    · simp only [Option.some.injEq, Prod.mk.injEq] at h
      simp [h.2]
    · exact Nat.lt_succ_of_lt (ih h)

theorem length_lt_of_cutNested {depth : Nat} {s body rest : Text}
    (h : cutNested depth s = some (body, rest)) : rest.length < s.length := by
  induction s generalizing depth body with
  | nil => simp [cutNested] at h
  | cons c cs ih =>
    simp only [cutNested] at h
    split at h
    · simp only [Option.some.injEq, Prod.mk.injEq] at h
      simp [h.2]
    · simp only [Option.map_eq_some_iff, Prod.mk.injEq, Prod.exists] at h
      obtain ⟨b, r, hr, _, rfl⟩ := h
      exact Nat.lt_succ_of_lt (ih hr)

theorem length_lt_of_scanBang {whole body rest : Text} {t : Token}
    (h : scanBang whole body = .token t rest) : rest.length < body.length := by
  unfold scanBang at h
  repeat' split at h
  all_goals first
    | exact Scan.noConfusion h
    | (injection h with _ h; subst h
       first
         | exact length_lt_of_cutMarked (by assumption)
         | exact length_lt_of_cutNested (by assumption))

theorem length_lt_of_scanMarkup {body rest : Text} {t : Token}
    (h : scanMarkup body = .token t rest) : rest.length < body.length := by
  unfold scanMarkup at h
  repeat' split at h
  all_goals first
    | exact Scan.noConfusion h
    | exact length_lt_of_scanBang h
    | (injection h with _ h; subst h
       first
         | exact length_lt_of_cutMarked (by assumption)
         | exact Nat.lt_succ_of_lt (length_lt_of_cutTag (by assumption))
         | exact length_lt_of_cutTag (by assumption))

/-- What is left behind a piece is shorter than the text. -/
theorem length_lt_of_scan {s rest : Text} {t : Token} (h : scan s = .token t rest) :
    rest.length < s.length := by
  cases s with
  | nil => simp [scan] at h
  | cons c cs =>
    simp only [scan] at h
    split at h
    · exact Nat.lt_succ_of_lt (length_lt_of_scanMarkup h)
    · injection h with _ h
      subst h
      exact Nat.lt_succ_of_le (List.dropWhile_sublist _).length_le

end Crosswalk.Markup
