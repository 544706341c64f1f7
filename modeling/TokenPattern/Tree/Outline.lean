import TokenPattern.Text.Quoted
import TokenPattern.Tree

namespace TokenPattern

open Text

def outlineOption : Option (List Char) → List Char
  | none => "None".toList
  | some form => "Some(".toList ++ form ++ [')']

def TokenSpec.outline (spec : TokenSpec) : List Char :=
  "TokenSpec \x7b category: ".toList ++ quoted spec.category ++
    ", value: ".toList ++ outlineOption (spec.value.map quoted) ++ " \x7d".toList

def RepeatBounds.outline (bounds : RepeatBounds) : List Char :=
  "Repeat \x7b min: ".toList ++ decimal bounds.min ++
    ", max: ".toList ++ outlineOption (bounds.max.map decimal) ++ " \x7d".toList

namespace Tree

mutual

def outline : Tree → List Char
  | .token spec => "Token(".toList ++ spec.outline ++ [')']
  | .any => "Any".toList
  | .sequence items => "Sequence([".toList ++ [',', ' '].intercalate (outlineAll items) ++ [']', ')']
  | .alternative choices =>
      "Alternative([".toList ++ [',', ' '].intercalate (outlineAll choices) ++ [']', ')']
  | .optional item => "Optional(".toList ++ item.outline ++ [')']
  | .repetition item times =>
      "Repeat \x7b item: ".toList ++ item.outline ++
        ", bounds: ".toList ++ times.outline ++ " \x7d".toList
  | .negation item => "Not(".toList ++ item.outline ++ [')']

def outlineAll : List Tree → List (List Char)
  | [] => []
  | item :: items => item.outline :: outlineAll items

end

end Tree

end TokenPattern
