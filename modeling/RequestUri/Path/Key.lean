import RequestUri.Text.Quote

/-! The key that picks one entity of a collection. -/

namespace RequestUri

inductive KeyStyle where
  | parentheses
  /-- A key of one property is a path segment of its own, without quotes. -/
  | slash
deriving DecidableEq

def KeyStyle.text : KeyStyle → List (String × String) → String
  | _, [] => ""
  | slash, [(_, value)] => "/" ++ Text.unquote value
  | parentheses, [(_, value)] => "(" ++ value ++ ")"
  | _, pairs =>
    "(" ++ String.intercalate "," (pairs.map fun (name, value) => name ++ "=" ++ value) ++ ")"

end RequestUri
