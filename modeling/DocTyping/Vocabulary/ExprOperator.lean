import DocTyping.Schema.Basic

namespace DocTyping

/-!
# Expression operators

The operators of aggregation expressions, each with the form of its argument and
the rule for the type of its result.
-/

inductive ExprCategory where
  | array
  | boolean
  | conditional
  | date
  | numeric
  | object
  | string
  | type
  | variable
  | literal
deriving DecidableEq, Repr

inductive ExprArgs where
  /-- One expression; a list of one counts as its item. -/
  | single
  | list (least : Nat) (most : Option Nat)
  /-- One expression, or a list of bounded length. -/
  | singleOrList (least : Nat) (most : Option Nat)
  | named (required optional : List String)
  /-- A date, or an object with `date` and `timezone`. -/
  | dateOrNamed
  /-- Condition, consequence and alternative, in a list or by name. -/
  | cond
  /-- An object with `branches` and perhaps a `default`. -/
  | switch
  /-- The parts of a calendar date or of a week date. -/
  | dateFromParts
  /-- A field name, or an object with named arguments. -/
  | stringOrNamed (required optional : List String)
  | emptyObject
  /-- Any value; it is not evaluated. -/
  | literal
deriving DecidableEq, Repr

inductive ExprReturn where
  | scalar (kind : ScalarKind)
  | arrayOf (kind : ScalarKind)
  | unknownArray
  | sameArray
  | arrayElement
  /-- A type for any of the candidates. -/
  | common
  /-- An array of the type of `in`. -/
  | arrayOfBody
  /-- The type of `in`. -/
  | body
  /-- The objects given, laid over each other. -/
  | mergedObjects
  | dateParts
  | patternMatch
  | patternMatches
  /-- The keys and values of an object. -/
  | keyValuePairs
  | openObject
  /-- The scalar that `to` names. -/
  | converted
  | literal
  | unknown
deriving DecidableEq, Repr

structure ExprOperator where
  name : String
  category : ExprCategory
  args : ExprArgs
  returns : ExprReturn
deriving DecidableEq, Repr

namespace ExprOperator

def all : List ExprOperator :=
  [⟨"$arrayElemAt", .array, .list 2 (some 2), .arrayElement⟩,
    ⟨"$arrayToObject", .array, .single, .openObject⟩,
    ⟨"$concatArrays", .array, .list 0 none, .sameArray⟩,
    ⟨"$filter", .array, .named ["input", "cond"] ["as", "limit"], .sameArray⟩,
    ⟨"$first", .array, .single, .arrayElement⟩,
    ⟨"$last", .array, .single, .arrayElement⟩,
    ⟨"$firstN", .array, .named ["input", "n"] [], .sameArray⟩,
    ⟨"$lastN", .array, .named ["input", "n"] [], .sameArray⟩,
    ⟨"$maxN", .array, .named ["input", "n"] [], .sameArray⟩,
    ⟨"$minN", .array, .named ["input", "n"] [], .sameArray⟩,
    ⟨"$indexOfArray", .array, .list 2 (some 4), .scalar .number⟩,
    ⟨"$isArray", .array, .single, .scalar .bool⟩,
    ⟨"$map", .array, .named ["input", "in"] ["as"], .arrayOfBody⟩,
    ⟨"$objectToArray", .array, .single, .keyValuePairs⟩,
    ⟨"$range", .array, .list 2 (some 3), .arrayOf .number⟩,
    ⟨"$reduce", .array, .named ["input", "initialValue", "in"] [], .body⟩,
    ⟨"$reverseArray", .array, .single, .sameArray⟩,
    ⟨"$size", .array, .single, .scalar .number⟩,
    ⟨"$slice", .array, .list 2 (some 3), .sameArray⟩,
    ⟨"$sortArray", .array, .named ["input", "sortBy"] [], .sameArray⟩,
    ⟨"$zip", .array, .named ["inputs"] ["useLongestLength", "defaults"], .unknownArray⟩,
    ⟨"$in", .array, .list 2 (some 2), .scalar .bool⟩,
    ⟨"$allElementsTrue", .array, .single, .scalar .bool⟩,
    ⟨"$anyElementTrue", .array, .single, .scalar .bool⟩,
    ⟨"$setDifference", .array, .list 2 (some 2), .sameArray⟩,
    ⟨"$setIntersection", .array, .list 0 none, .sameArray⟩,
    ⟨"$setUnion", .array, .list 0 none, .sameArray⟩,
    ⟨"$setEquals", .array, .list 2 none, .scalar .bool⟩,
    ⟨"$setIsSubset", .array, .list 2 (some 2), .scalar .bool⟩,
    ⟨"$and", .boolean, .list 0 none, .scalar .bool⟩,
    ⟨"$or", .boolean, .list 0 none, .scalar .bool⟩,
    ⟨"$not", .boolean, .single, .scalar .bool⟩,
    ⟨"$eq", .boolean, .list 2 (some 2), .scalar .bool⟩,
    ⟨"$ne", .boolean, .list 2 (some 2), .scalar .bool⟩,
    ⟨"$gt", .boolean, .list 2 (some 2), .scalar .bool⟩,
    ⟨"$gte", .boolean, .list 2 (some 2), .scalar .bool⟩,
    ⟨"$lt", .boolean, .list 2 (some 2), .scalar .bool⟩,
    ⟨"$lte", .boolean, .list 2 (some 2), .scalar .bool⟩,
    ⟨"$isNumber", .boolean, .single, .scalar .bool⟩,
    ⟨"$regexMatch", .boolean, .named ["input", "regex"] ["options"], .scalar .bool⟩,
    ⟨"$toBool", .boolean, .single, .scalar .bool⟩,
    ⟨"$cond", .conditional, .cond, .common⟩,
    ⟨"$ifNull", .conditional, .list 2 none, .common⟩,
    ⟨"$switch", .conditional, .switch, .common⟩,
    ⟨"$dateAdd", .date, .named ["startDate", "unit", "amount"] ["timezone"], .scalar .date⟩,
    ⟨"$dateSubtract", .date, .named ["startDate", "unit", "amount"] ["timezone"],
      .scalar .date⟩,
    ⟨"$dateFromParts", .date, .dateFromParts, .scalar .date⟩,
    ⟨"$dateFromString", .date, .named ["dateString"] ["format", "timezone", "onError", "onNull"],
      .scalar .date⟩,
    ⟨"$dateTrunc", .date, .named ["date", "unit"] ["binSize", "timezone", "startOfWeek"],
      .scalar .date⟩,
    ⟨"$toDate", .date, .single, .scalar .date⟩,
    ⟨"$dateToParts", .date, .named ["date"] ["timezone", "iso8601"], .dateParts⟩,
    ⟨"$dateDiff", .date, .named ["startDate", "endDate", "unit"] ["timezone", "startOfWeek"],
      .scalar .number⟩,
    ⟨"$dayOfMonth", .date, .dateOrNamed, .scalar .number⟩,
    ⟨"$dayOfWeek", .date, .dateOrNamed, .scalar .number⟩,
    ⟨"$dayOfYear", .date, .dateOrNamed, .scalar .number⟩,
    ⟨"$hour", .date, .dateOrNamed, .scalar .number⟩,
    ⟨"$isoDayOfWeek", .date, .dateOrNamed, .scalar .number⟩,
    ⟨"$isoWeek", .date, .dateOrNamed, .scalar .number⟩,
    ⟨"$isoWeekYear", .date, .dateOrNamed, .scalar .number⟩,
    ⟨"$millisecond", .date, .dateOrNamed, .scalar .number⟩,
    ⟨"$minute", .date, .dateOrNamed, .scalar .number⟩,
    ⟨"$month", .date, .dateOrNamed, .scalar .number⟩,
    ⟨"$second", .date, .dateOrNamed, .scalar .number⟩,
    ⟨"$week", .date, .dateOrNamed, .scalar .number⟩,
    ⟨"$year", .date, .dateOrNamed, .scalar .number⟩,
    ⟨"$abs", .numeric, .single, .scalar .number⟩,
    ⟨"$add", .numeric, .list 0 none, .scalar .number⟩,
    ⟨"$avg", .numeric, .singleOrList 0 none, .scalar .number⟩,
    ⟨"$ceil", .numeric, .single, .scalar .number⟩,
    ⟨"$cmp", .numeric, .list 2 (some 2), .scalar .number⟩,
    ⟨"$divide", .numeric, .list 2 (some 2), .scalar .number⟩,
    ⟨"$exp", .numeric, .single, .scalar .number⟩,
    ⟨"$floor", .numeric, .single, .scalar .number⟩,
    ⟨"$ln", .numeric, .single, .scalar .number⟩,
    ⟨"$log", .numeric, .list 2 (some 2), .scalar .number⟩,
    ⟨"$log10", .numeric, .single, .scalar .number⟩,
    ⟨"$max", .numeric, .singleOrList 0 none, .common⟩,
    ⟨"$min", .numeric, .singleOrList 0 none, .common⟩,
    ⟨"$mod", .numeric, .list 2 (some 2), .scalar .number⟩,
    ⟨"$multiply", .numeric, .list 0 none, .scalar .number⟩,
    ⟨"$pow", .numeric, .list 2 (some 2), .scalar .number⟩,
    ⟨"$rand", .numeric, .emptyObject, .scalar .number⟩,
    ⟨"$round", .numeric, .singleOrList 1 (some 2), .scalar .number⟩,
    ⟨"$sqrt", .numeric, .single, .scalar .number⟩,
    ⟨"$stdDevPop", .numeric, .singleOrList 0 none, .scalar .number⟩,
    ⟨"$stdDevSamp", .numeric, .singleOrList 0 none, .scalar .number⟩,
    ⟨"$subtract", .numeric, .list 2 (some 2), .scalar .number⟩,
    ⟨"$sum", .numeric, .singleOrList 0 none, .scalar .number⟩,
    ⟨"$trunc", .numeric, .singleOrList 1 (some 2), .scalar .number⟩,
    ⟨"$sin", .numeric, .single, .scalar .number⟩,
    ⟨"$cos", .numeric, .single, .scalar .number⟩,
    ⟨"$tan", .numeric, .single, .scalar .number⟩,
    ⟨"$asin", .numeric, .single, .scalar .number⟩,
    ⟨"$acos", .numeric, .single, .scalar .number⟩,
    ⟨"$atan", .numeric, .single, .scalar .number⟩,
    ⟨"$atan2", .numeric, .list 2 (some 2), .scalar .number⟩,
    ⟨"$degreesToRadians", .numeric, .single, .scalar .number⟩,
    ⟨"$radiansToDegrees", .numeric, .single, .scalar .number⟩,
    ⟨"$indexOfBytes", .numeric, .list 2 (some 4), .scalar .number⟩,
    ⟨"$indexOfCP", .numeric, .list 2 (some 4), .scalar .number⟩,
    ⟨"$strcasecmp", .numeric, .list 2 (some 2), .scalar .number⟩,
    ⟨"$strLenBytes", .numeric, .single, .scalar .number⟩,
    ⟨"$strLenCP", .numeric, .single, .scalar .number⟩,
    ⟨"$toDecimal", .numeric, .single, .scalar .decimal⟩,
    ⟨"$toDouble", .numeric, .single, .scalar .double⟩,
    ⟨"$toInt", .numeric, .single, .scalar .int⟩,
    ⟨"$toLong", .numeric, .single, .scalar .long⟩,
    ⟨"$convert", .type, .named ["input", "to"] ["onError", "onNull"], .converted⟩,
    ⟨"$getField", .object, .stringOrNamed ["field"] ["input"], .unknown⟩,
    ⟨"$mergeObjects", .object, .singleOrList 0 none, .mergedObjects⟩,
    ⟨"$setField", .object, .named ["field", "input", "value"] [], .openObject⟩,
    ⟨"$regexFind", .object, .named ["input", "regex"] ["options"], .patternMatch⟩,
    ⟨"$regexFindAll", .object, .named ["input", "regex"] ["options"], .patternMatches⟩,
    ⟨"$concat", .string, .list 0 none, .scalar .string⟩,
    ⟨"$dateToString", .string, .named ["date"] ["format", "timezone", "onNull"],
      .scalar .string⟩,
    ⟨"$ltrim", .string, .named ["input"] ["chars"], .scalar .string⟩,
    ⟨"$rtrim", .string, .named ["input"] ["chars"], .scalar .string⟩,
    ⟨"$trim", .string, .named ["input"] ["chars"], .scalar .string⟩,
    ⟨"$replaceAll", .string, .named ["input", "find", "replacement"] [], .scalar .string⟩,
    ⟨"$replaceOne", .string, .named ["input", "find", "replacement"] [], .scalar .string⟩,
    ⟨"$split", .string, .list 2 (some 2), .arrayOf .string⟩,
    ⟨"$substr", .string, .list 3 (some 3), .scalar .string⟩,
    ⟨"$substrBytes", .string, .list 3 (some 3), .scalar .string⟩,
    ⟨"$substrCP", .string, .list 3 (some 3), .scalar .string⟩,
    ⟨"$toLower", .string, .single, .scalar .string⟩,
    ⟨"$toUpper", .string, .single, .scalar .string⟩,
    ⟨"$toString", .string, .single, .scalar .string⟩,
    ⟨"$toObjectId", .type, .single, .scalar .objectId⟩,
    ⟨"$type", .type, .single, .scalar .string⟩,
    ⟨"$let", .variable, .named ["vars", "in"] [], .body⟩,
    ⟨"$literal", .literal, .literal, .literal⟩]

def named? (name : String) : Option ExprOperator := all.find? fun operator => operator.name == name

end ExprOperator

end DocTyping
