import ByteSplice.Decimal.Shortest
import ByteSplice.Text.Quoted

/-!
# Values of the wrong shape

A text can be good JSON or good TOML and still not say what is asked for: a number stands where a
text should, a field is missing, a name is not one of those that are known. Such a `Mismatch` is
the same thing in both formats, and both word it in the same way. They differ only in how a number
with a fraction is written, which is why the wording takes a `Layout`.

## Main definitions

* `Found`, what stands where something else was expected.
* `Mismatch` and `Mismatch.message`.
-/

namespace ByteSplice

/-- What stands where something else was expected. -/
inductive Found
  | null
  | boolean (value : Bool)
  | integer (value : Int)
  | float (value : Binary64)
  | text (value : String)
  | sequence
  | map
  deriving DecidableEq, Repr

/-- How it is spoken of. -/
def Found.description (layout : Layout) : Found → String
  | null => "null"
  | boolean value => "boolean `" ++ toString value ++ "`"
  | integer value => "integer `" ++ toString value ++ "`"
  | float value => "floating point `" ++ value.text layout ++ "`"
  | text value => "string " ++ Text.Quoted.text value
  | sequence => "sequence"
  | map => "map"

/-- How a value fails to say what is asked for. -/
inductive Mismatch
  /-- A field without a default is not given. -/
  | missingField (name : String)
  /-- A field is given twice. -/
  | duplicateField (name : String)
  /-- A field is not one of those that are known. -/
  | unknownField (name : String) (known : List String)
  /-- A name is not one of those that are known. -/
  | unknownVariant (name : String) (known : List String)
  /-- Something of another kind is expected. -/
  | invalidType (found : Found) (expected : String)
  /-- A list has too few or too many elements. -/
  | invalidLength (length : Nat) (expected : String)
  /-- A name is expected, or a table that holds one. -/
  | notNameOrTable
  /-- A table that is to hold one name holds none. -/
  | noEntry
  /-- A table that is to hold one name holds several. -/
  | severalEntries
  /-- With a name there is something where an empty value should be. -/
  | payload (expected : String)
  deriving DecidableEq, Repr

namespace Mismatch

/-- The names that are known, as a choice. -/
def choice (known : List String) : String :=
  let quoted := known.map fun name => "`" ++ name ++ "`"
  match quoted with
  | [one] => one
  | [one, other] => one ++ " or " ++ other
  | _ => "one of " ++ ", ".intercalate quoted

/-- The wording of a mismatch. -/
def message (layout : Layout) : Mismatch → String
  | missingField name => "missing field `" ++ name ++ "`"
  | duplicateField name => "duplicate field `" ++ name ++ "`"
  | unknownField name known => "unknown field `" ++ name ++ "`, expected " ++ choice known
  | unknownVariant name known => "unknown variant `" ++ name ++ "`, expected " ++ choice known
  | invalidType found expected =>
    "invalid type: " ++ found.description layout ++ ", expected " ++ expected
  | invalidLength length expected =>
    "invalid length " ++ toString length ++ ", expected " ++ expected
  | notNameOrTable => "wanted string or table"
  | noEntry => "wanted exactly 1 element, found 0 elements"
  | severalEntries => "wanted exactly 1 element, more than 1 element"
  | payload expected => "expected " ++ expected

end Mismatch

end ByteSplice
