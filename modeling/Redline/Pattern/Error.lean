import Redline.Limit
import Redline.Text.Quoted

/-!
# What is wrong with a pattern

Each flaw has its wording here. A flaw stands at a position of the pattern, save one that concerns
the pattern as a whole; when the pattern has several lines the message names line and column too.
-/

namespace Redline.Pattern

/-- What is wrong with a pattern. -/
inductive Flaw where
  | danglingEscape
  | badEscape (escape : Text)
  | incompleteEscape (escape : Text)
  | octalTooLarge (escape : Text)
  | noCharacterBrace
  | noName (what : String)
  | unterminatedName (terminator : Char)
  | unknownCharacterName (name : Text)
  | openGroup
  | groupOfLookBehind
  | noSuchGroup (index : Nat)
  | unterminatedSet
  | badRange (low high : Text)
  | emptyRepeatRange
  | nothingToRepeat
  | multipleRepeat
  | unexpectedEnd
  | unknownExtension (text : Text)
  | badGroupName (name : Text)
  | unknownGroupName (name : Text)
  | groupNameTaken (name : Text) (index previous : Nat)
  | groupNumberZero
  | unterminatedComment
  | unterminatedGroup
  | unbalancedParenthesis
  | moreThanTwoBranches
  | lateGlobalFlags
  | localeFlag
  | incompatibleFlags
  | unknownFlag
  | missingFlagEnd
  | missingFlag
  | missingFlagColon
  | cannotTurnOn
  | cannotTurnOffAlphabet
  | cannotTurnOff
  | flagOnAndOff
  | variableLookBehind
  | lookBehindTooWide
deriving Repr, DecidableEq

private def str (t : Text) : String :=
  String.ofList t

def Flaw.message : Flaw → String
  | .danglingEscape => "bad escape (end of pattern)"
  | .badEscape e => s!"bad escape {str e}"
  | .incompleteEscape e => s!"incomplete escape {str e}"
  | .octalTooLarge e => s!"octal escape value {str e} outside of range 0-0o377"
  | .noCharacterBrace => "missing \x7b"
  | .noName what => s!"missing {what}"
  | .unterminatedName c => s!"missing {c}, unterminated name"
  | .unknownCharacterName n => s!"undefined character name {Text.quote n}"
  | .openGroup => "cannot refer to an open group"
  | .groupOfLookBehind => "cannot refer to group defined in the same lookbehind subpattern"
  | .noSuchGroup i => s!"invalid group reference {i}"
  | .unterminatedSet => "unterminated character set"
  | .badRange low high => s!"bad character range {str low}-{str high}"
  | .emptyRepeatRange => "min repeat greater than max repeat"
  | .nothingToRepeat => "nothing to repeat"
  | .multipleRepeat => "multiple repeat"
  | .unexpectedEnd => "unexpected end of pattern"
  | .unknownExtension t => s!"unknown extension {str t}"
  | .badGroupName n => s!"bad character in group name {Text.quote n}"
  | .unknownGroupName n => s!"unknown group name {Text.quote n}"
  | .groupNameTaken n i p =>
    s!"redefinition of group name {Text.quote n} as group {i}; was group {p}"
  | .groupNumberZero => "bad group number"
  | .unterminatedComment => "missing ), unterminated comment"
  | .unterminatedGroup => "missing ), unterminated subpattern"
  | .unbalancedParenthesis => "unbalanced parenthesis"
  | .moreThanTwoBranches => "conditional backref with more than two branches"
  | .lateGlobalFlags => "global flags not at the start of the expression"
  | .localeFlag => "bad inline flags: cannot use 'L' flag with a str pattern"
  | .incompatibleFlags => "bad inline flags: flags 'a', 'u' and 'L' are incompatible"
  | .unknownFlag => "unknown flag"
  | .missingFlagEnd => "missing -, : or )"
  | .missingFlag => "missing flag"
  | .missingFlagColon => "missing :"
  | .cannotTurnOn => "bad inline flags: cannot turn on global flag"
  | .cannotTurnOffAlphabet => "bad inline flags: cannot turn off flags 'a', 'u' and 'L'"
  | .cannotTurnOff => "bad inline flags: cannot turn off global flag"
  | .flagOnAndOff => "bad inline flags: flag turned on and off"
  | .variableLookBehind => "look-behind requires fixed-width pattern"
  | .lookBehindTooWide => "looks too much behind"

/-- Why a text is not taken as a pattern. -/
inductive Error where
  | flawed (flaw : Flaw) (position : Option Nat)
  | beyond (limit : Limit)
deriving Repr, DecidableEq

/-- The place of a flaw in words. -/
def placeText (source : Text) (position : Nat) : String :=
  let before := source.take position
  let lines := Text.fields '\n' before
  let column := (lines.getLast?.map (·.length)).getD 0 + 1
  if '\n' ∈ source then s!" at position {position} (line {lines.length}, column {column})"
  else s!" at position {position}"

/-- The message of a flaw in the given pattern. -/
def flawText (source : Text) (flaw : Flaw) (position : Option Nat) : String :=
  match position with
  | some p => flaw.message ++ placeText source p
  | none => flaw.message

end Redline.Pattern
