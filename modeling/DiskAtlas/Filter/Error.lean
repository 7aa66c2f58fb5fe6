/-
What can be wrong with a filter that is written as text, and how it is
said. Positions are byte offsets into the text.
-/
import DiskAtlas.Path.Glob
import DiskAtlas.Text.Quoted

namespace DiskAtlas

open Text

/-- Why a text is not a filter. -/
inductive FilterError where
  /-- A quotation mark at `start` has no partner. -/
  | openQuote (start : Nat)
  /-- A term has no colon. -/
  | missingColon (position : Nat)
  | missingValue (key : String)
  | unknownKey (key : String) (position : Nat)
  /-- Extents cannot be asked for this. -/
  | inodesOnly (key : String) (position : Nat)
  /-- An offset that does not begin with a digit or a point. -/
  | noNumber (raw : String)
  | badNumber (raw : String)
  | unknownUnit (unit raw : String)
  | tooLarge (raw : String)
  | reversed (raw : String)
  /-- A number of the field `field` that cannot be read. -/
  | badField (field raw : String)
  | unknownKind (raw : String)
  | badMask (raw : String)
  | unknownFlag (name : String)
  | badDate (raw : String)
  /-- A date that begins or ends at a midnight that clocks never show, or
  that has no following day. -/
  | missingDate (raw : String)
  | badGlob (raw : String) (error : Glob.PatternError)
  deriving Repr, DecidableEq

def FilterError.message : FilterError → String
  | openQuote start => "missing closing quote near byte " ++ toString start
  | missingColon position =>
    "expected key:value near byte " ++ toString position
  | missingValue key => key ++ ": requires a value"
  | unknownKey key position =>
    "unknown filter key " ++ quoted key ++ " near byte " ++ toString position
  | inodesOnly key position =>
    key ++ ": only applies to inode queries (near byte "
      ++ toString position ++ ")"
  | noNumber raw => "expected a numeric offset in " ++ quoted raw
  | badNumber raw => "failed to parse number in " ++ quoted raw
  | unknownUnit unit raw =>
    "unknown unit " ++ quoted unit ++ " in " ++ quoted raw
  | tooLarge raw => "offset " ++ quoted raw ++ " does not fit in 64 bits"
  | reversed raw =>
    "range start must not exceed its end in " ++ quoted raw
  | badField field raw => field ++ ": failed to parse " ++ quoted raw
  | unknownKind raw => "unknown extent type " ++ quoted raw
  | badMask raw => "invalid flag mask " ++ quoted raw
  | unknownFlag name => "unknown extent flag " ++ quoted name
  | badDate raw => "unrecognized date value " ++ quoted raw
  | missingDate raw =>
    "date " ++ quoted raw ++ " does not exist in the local time zone"
  | badGlob raw error =>
    "invalid path glob " ++ quoted raw ++ ": " ++ error.message

end DiskAtlas
