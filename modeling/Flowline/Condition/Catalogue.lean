/-!
The operators of conditions by category, with the label of each and the type of the value that it tests
against.
-/

namespace Flowline.Operator

/-- What a list of operators to choose from says about an operator. -/
structure Description where
  name : String
  label : String
  valueType : String
deriving Repr, DecidableEq

def catalogue : List (String × List Description) := [
  ("equality", [
    ⟨"equals", "Equals", "any"⟩,
    ⟨"not_equals", "Not Equals", "any"⟩,
    ⟨"strict_equals", "Strictly Equals", "any"⟩,
    ⟨"strict_not_equals", "Strictly Not Equals", "any"⟩]),
  ("numeric", [
    ⟨"greater_than", "Greater Than", "number"⟩,
    ⟨"greater_than_or_equals", "Greater Than or Equals", "number"⟩,
    ⟨"less_than", "Less Than", "number"⟩,
    ⟨"less_than_or_equals", "Less Than or Equals", "number"⟩,
    ⟨"between", "Between", "range"⟩,
    ⟨"not_between", "Not Between", "range"⟩]),
  ("string", [
    ⟨"contains", "Contains", "string"⟩,
    ⟨"not_contains", "Does Not Contain", "string"⟩,
    ⟨"starts_with", "Starts With", "string"⟩,
    ⟨"ends_with", "Ends With", "string"⟩,
    ⟨"matches", "Matches Regex", "regex"⟩,
    ⟨"not_matches", "Does Not Match Regex", "regex"⟩,
    ⟨"contains_i", "Contains (case-insensitive)", "string"⟩,
    ⟨"equals_i", "Equals (case-insensitive)", "string"⟩]),
  ("array", [
    ⟨"in", "In List", "array"⟩,
    ⟨"not_in", "Not In List", "array"⟩,
    ⟨"has_key", "Has Key", "string"⟩,
    ⟨"has_value", "Has Value", "any"⟩,
    ⟨"array_contains", "Array Contains", "any"⟩,
    ⟨"array_count", "Item Count Equals", "number"⟩,
    ⟨"array_count_gt", "Item Count Greater Than", "number"⟩,
    ⟨"array_count_lt", "Item Count Less Than", "number"⟩]),
  ("type", [
    ⟨"is_empty", "Is Empty", "none"⟩,
    ⟨"is_not_empty", "Is Not Empty", "none"⟩,
    ⟨"is_null", "Is Null", "none"⟩,
    ⟨"is_not_null", "Is Not Null", "none"⟩,
    ⟨"is_true", "Is True", "none"⟩,
    ⟨"is_false", "Is False", "none"⟩,
    ⟨"is_numeric", "Is Numeric", "none"⟩,
    ⟨"is_string", "Is String", "none"⟩,
    ⟨"is_array", "Is Array", "none"⟩]),
  ("date", [
    ⟨"date_equals", "Date Equals", "date"⟩,
    ⟨"date_before", "Date Before", "date"⟩,
    ⟨"date_after", "Date After", "date"⟩,
    ⟨"date_between", "Date Between", "date_range"⟩,
    ⟨"is_today", "Is Today", "none"⟩,
    ⟨"is_past", "Is in Past", "none"⟩,
    ⟨"is_future", "Is in Future", "none"⟩,
    ⟨"days_ago", "Within Days Ago", "number"⟩,
    ⟨"days_from_now", "Within Days From Now", "number"⟩])]

end Flowline.Operator
