/-
  Crosswalk.Yaml.Gap
  ──────────────────────────────────────
  **WHITE SPACE WITHIN FLOW SCALARS.**

  Quoted and plain scalars may go over several lines.  The blanks and breaks
  between two words are a gap.  Without a break a gap stands for its blanks;
  with breaks, blanks do not count, one break stands for a space and of more
  breaks the first one is dropped.  A separator of Unicode always stands for
  itself.
-/
import Crosswalk.Yaml.Fault

namespace Crosswalk.Yaml

/-- White space read so far. -/
structure Gap where
  /-- The blanks before the first break. -/
  blanks : Text
  /-- A break was read. -/
  broken : Bool
  /-- The first break that counts. -/
  first : Text
  /-- The breaks after it. -/
  more : Text
  deriving DecidableEq, Repr

namespace Gap

/-- No white space. -/
def none : Gap := ⟨[], false, [], []⟩

/-- The gap after a break that does not count. -/
def afterEscapedBreak : Gap := ⟨[], true, [], []⟩

/-- Takes a blank; behind a break it does not count. -/
def addBlank (g : Gap) (c : Char) : Gap :=
  if g.broken then g else { g with blanks := g.blanks ++ [c] }

/-- Takes a break. -/
def addBreak (g : Gap) (c : Char) : Gap :=
  if g.broken then { g with more := g.more ++ [c] }
  else ⟨[], true, [c], g.more⟩

/-- The text that a gap stands for. -/
def folded (g : Gap) : Text :=
  if g.broken then
    if g.first = ['\n'] then (if g.more.isEmpty then [' '] else g.more) else g.first ++ g.more
  else g.blanks

end Gap

end Crosswalk.Yaml
