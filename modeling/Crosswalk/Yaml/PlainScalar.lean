/-
  Crosswalk.Yaml.PlainScalar
  ──────────────────────────────────────
  **SCALARS WITHOUT QUOTES.**

  A plain scalar goes on to a colon before a gap, to a comment, to a sign of
  the flow style within it, and in the block style to a line that is indented
  too little.  The white space behind its last word does not belong to it.
-/
import Crosswalk.Yaml.QuotedScalar

namespace Crosswalk.Yaml

/-- Where a plain scalar stands. -/
structure PlainPlace where
  start : Mark
  /-- It stands between brackets. -/
  inFlow : Bool
  /-- In the block style, the least column of its further lines. -/
  indent : Int
  deriving DecidableEq, Repr

/-- A plain scalar that was read.  The reader stands behind the gap that follows it. -/
structure PlainScalar where
  value : Text
  /-- The place behind the last word. -/
  finish : Mark
  mark : Mark
  rest : Text
  /-- The gap behind the scalar holds a break. -/
  broken : Bool
  deriving Repr

namespace PlainScalar

/-- Puts a text before a scalar that was read. -/
def after (s : Text) (r : PlainScalar) : PlainScalar :=
  { r with value := s ++ r.value }

end PlainScalar

/-- A colon before a gap ends a plain scalar, and so do the signs of the flow style within it. -/
def endsPlain (inFlow : Bool) : Text → Bool
  | [] => true
  | ':' :: rest => atGap rest
  | c :: _ => inFlow && isFlowSign c

/-- In the flow style a colon must not stand before one of its signs. -/
def isBadColon (inFlow : Bool) : Text → Bool
  | ':' :: c :: _ => inFlow && (isFlowSign c || c == '?')
  | _ => false

/-- Reads a plain scalar from a place behind a gap; `finish` is the place behind the last word. -/
def readPlain (p : PlainPlace) (finish : Mark) (g : Gap) :
    Mark → Text → Except Fault PlainScalar
  | m, [] => .ok ⟨[], finish, m, [], g.broken⟩
  | m, c :: rest =>
    let stop : PlainScalar := ⟨[], finish, m, c :: rest, g.broken⟩
    if isBreak c then readPlain p finish (g.addBreak c) m.newLine rest
    else if isBlank c then
      if g.broken ∧ (m.column : Int) < p.indent ∧ c = '\t' then
        .error ⟨.tabBeforePlain, m, some (.plainScalar, p.start)⟩
      else readPlain p finish (g.addBlank c) m.next rest
    else if g ≠ .none ∧ ((!p.inFlow ∧ (m.column : Int) < p.indent) ∨ c = '#') then .ok stop
    else if atDocumentEdge m (c :: rest) then .ok stop
    else if isBadColon p.inFlow (c :: rest) then
      .error ⟨.unexpectedColon, m, some (.plainScalar, p.start)⟩
    else if endsPlain p.inFlow (c :: rest) then .ok stop
    else (readPlain p m.next .none m.next rest).map (.after (g.folded ++ [c]))

end Crosswalk.Yaml
