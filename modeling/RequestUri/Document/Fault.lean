import RequestUri.Json.Text
import RequestUri.Numeral.Decimal

/-! Why a JSON value is not a tree document. -/

namespace RequestUri.Document

inductive Fault where
  | notText (field : String) (got : Json)
  | notList (field : String) (got : Json)
  | notPair (field : String) (got : Json)
  | required (field : String)
  | strayArray
  | noSource
  | badVersion (text : String)
  | badCast (got : Json)
  | badCount (got : Json)
  | badOption (got : Json)
  | unknownOption (name : String)
  | badSelector (got : Json)
  | badApply
  | badAggregation
  | unknownOperator (keyword : String)
  | noLeft
  | noRight
  | noBody
  | badGuid (text : String)
  | badDateTime (text : String)
  | badDecimal (text : String) (cause : Numeral.Decimal.Fault)

def Fault.message : Fault → String
  | notText field got => field ++ " must be a string, got " ++ got.text
  | notList field got => field ++ " must be an array, got " ++ got.text
  | notPair field got => field ++ " entries must be [name, value] pairs, got " ++ got.text
  | required field => field ++ " is required"
  | strayArray => "arrays are only allowed as list operands"
  | noSource => "navigation and singleton nodes need a source"
  | badVersion text => "invalid protocol version '" ++ text ++ "'"
  | badCast got => "cast must be a type name, got " ++ got.text
  | badCount got => "count must be \"segment\", true or false, got " ++ got.text
  | badOption got => "query option must be a single-key object, got " ++ got.text
  | unknownOption name => "unknown query option '" ++ name ++ "'"
  | badSelector got => "invalid orderBy selector " ++ got.text
  | badApply => "apply must be an object"
  | badAggregation => "aggregation must be an object"
  | unknownOperator keyword => "unknown operator '" ++ keyword ++ "'"
  | noLeft => "binary node needs left"
  | noRight => "binary node needs right"
  | noBody => "lambda needs a body"
  | badGuid text => "'" ++ text ++ "' is not a guid"
  | badDateTime text => "'" ++ text ++ "' is not a date-time with offset"
  | badDecimal text cause => "invalid decimal '" ++ text ++ "': " ++ cause.message

end RequestUri.Document
