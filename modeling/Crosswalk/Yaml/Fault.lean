/-
  Crosswalk.Yaml.Fault
  ──────────────────────────────────────
  **WHAT MAKES A TEXT NO YAML.**

  A fault is a problem at a place and, in most cases, what was being read and
  where that began.  A message names a place only where it says something
  new: not for the beginning of the text, and not twice.
-/
import Crosswalk.Yaml.Mark

namespace Crosswalk.Yaml

/-- What is wrong. -/
inductive Problem
  | strayCharacter
  | missingColon
  | sequenceNotAllowed
  | keyNotAllowed
  | valueNotAllowed
  | badName
  | noTagClose
  | noSpaceAfterTag
  | noTagSign
  | noTagUri
  | noOctet
  | badFirstOctet
  | badNextOctet
  | noDirectiveName
  | badDirectiveName
  | unknownDirective
  | noLineEnd
  | noVersion
  | longVersion
  | noVersionDot
  | noHandleSpace
  | noPrefixEnd
  | zeroIndentation
  | tabInIndentation
  | tabBeforePlain
  | unexpectedColon
  | documentSignInQuotes
  | endInQuotes
  | unknownEscape
  | noHexDigit
  | badCodePoint
  | noDocumentStart
  | duplicateVersion
  | duplicateHandle
  | unsupportedVersion
  | undefinedHandle
  | noContent
  | noDash
  | noKey
  | noCommaOrBracket
  | noCommaOrBrace
  deriving DecidableEq, Repr

/-- The wording of a problem. -/
def Problem.message : Problem → String
  | strayCharacter => "found character that cannot start any token"
  | missingColon => "could not find expected ':'"
  | sequenceNotAllowed => "block sequence entries are not allowed in this context"
  | keyNotAllowed => "mapping keys are not allowed in this context"
  | valueNotAllowed => "mapping values are not allowed in this context"
  | badName => "did not find expected alphabetic or numeric character"
  | noTagClose => "did not find the expected '>'"
  | noSpaceAfterTag => "did not find expected whitespace or line break"
  | noTagSign => "did not find expected '!'"
  | noTagUri => "did not find expected tag URI"
  | noOctet => "did not find URI escaped octet"
  | badFirstOctet => "found an incorrect leading UTF-8 octet"
  | badNextOctet => "found an incorrect trailing UTF-8 octet"
  | noDirectiveName => "could not find expected directive name"
  | badDirectiveName => "found unexpected non-alphabetical character"
  | unknownDirective => "found unknown directive name"
  | noLineEnd => "did not find expected comment or line break"
  | noVersion => "did not find expected version number"
  | longVersion => "found extremely long version number"
  | noVersionDot => "did not find expected digit or '.' character"
  | noHandleSpace => "did not find expected whitespace"
  | noPrefixEnd => "did not find expected whitespace or line break"
  | zeroIndentation => "found an indentation indicator equal to 0"
  | tabInIndentation => "found a tab character where an indentation space is expected"
  | tabBeforePlain => "found a tab character that violates indentation"
  | unexpectedColon => "found unexpected ':'"
  | documentSignInQuotes => "found unexpected document indicator"
  | endInQuotes => "found unexpected end of stream"
  | unknownEscape => "found unknown escape character"
  | noHexDigit => "did not find expected hexdecimal number"
  | badCodePoint => "found invalid Unicode character escape code"
  | noDocumentStart => "did not find expected <document start>"
  | duplicateVersion => "found duplicate %YAML directive"
  | duplicateHandle => "found duplicate %TAG directive"
  | unsupportedVersion => "found incompatible YAML document"
  | undefinedHandle => "found undefined tag handle"
  | noContent => "did not find expected node content"
  | noDash => "did not find expected '-' indicator"
  | noKey => "did not find expected key"
  | noCommaOrBracket => "did not find expected ',' or ']'"
  | noCommaOrBrace => "did not find expected ',' or '\x7d'"

/-- What was being read. -/
inductive Context
  | token
  | simpleKey
  | anchor
  | aliasName
  | tag
  | tagText
  | directive
  | versionDirective
  | tagDirective
  | tagDirectiveHandle
  | tagDirectiveHandleText
  | tagDirectiveText
  | blockScalar
  | plainScalar
  | quotedScalar
  | quotedText
  | node
  | blockNode
  | flowNode
  | blockSequence
  | blockMapping
  | flowSequence
  | flowMapping
  deriving DecidableEq, Repr

/-- The wording of a context. -/
def Context.message : Context → String
  | token => "while scanning for the next token"
  | simpleKey => "while scanning a simple key"
  | anchor => "while scanning an anchor"
  | aliasName => "while scanning an alias"
  | tag => "while scanning a tag"
  | tagText => "while parsing a tag"
  | directive => "while scanning a directive"
  | versionDirective => "while scanning a %YAML directive"
  | tagDirective => "while scanning a %TAG directive"
  | tagDirectiveHandle => "while scanning a tag directive"
  | tagDirectiveHandleText => "while parsing a tag directive"
  | tagDirectiveText => "while parsing a %TAG directive"
  | blockScalar => "while scanning a block scalar"
  | plainScalar => "while scanning a plain scalar"
  | quotedScalar => "while scanning a quoted scalar"
  | quotedText => "while parsing a quoted scalar"
  | node => "while parsing a node"
  | blockNode => "while parsing a block node"
  | flowNode => "while parsing a flow node"
  | blockSequence => "while parsing a block collection"
  | blockMapping => "while parsing a block mapping"
  | flowSequence => "while parsing a flow sequence"
  | flowMapping => "while parsing a flow mapping"

/-- A problem, its place, and what was being read with its beginning. -/
structure Fault where
  problem : Problem
  mark : Mark
  context : Option (Context × Mark)
  deriving DecidableEq, Repr

namespace Fault

/-- The wording of a fault. -/
def message (f : Fault) : Text :=
  f.problem.message.toList ++ f.mark.located
    ++ match f.context with
      | none => []
      | some (c, m) =>
        ", ".toList ++ c.message.toList ++ (if m = f.mark then [] else m.located)

end Fault

end Crosswalk.Yaml
