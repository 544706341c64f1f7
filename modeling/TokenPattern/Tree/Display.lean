import TokenPattern.Text.Quoted
import TokenPattern.Tree

/-!
The short form of a tree, on one line:

| tree                | form                     |
|---------------------|--------------------------|
| token with a text   | `KEYWORD("BEGIN")`       |
| token with any text | `IDENTIFIER`             |
| any token           | `_`                      |
| sequence            | `(a b c)`                |
| alternative         | `(a | b)`                |
| optional            | `[a]`                    |
| repetition          | `a{2,3}` `a{1,}` `a{2}`  |
| negation            | `!a`                     |

A repeated negation and a negated repetition have their item in round brackets, as in `(!a){2}` and
`!(a{2})`. Nothing else needs grouping, since lists carry brackets of their own.
-/

namespace TokenPattern

open Text

def TokenSpec.display (spec : TokenSpec) : List Char :=
  match spec.value with
  | none => spec.category.toList
  | some value => spec.category.toList ++ '(' :: quoted value ++ [')']

def RepeatBounds.display (bounds : RepeatBounds) : List Char :=
  match bounds.max with
  | none => '\x7b' :: decimal bounds.min ++ [',', '\x7d']
  | some max =>
      if bounds.min = max then
        '\x7b' :: decimal bounds.min ++ ['\x7d']
      else
        '\x7b' :: decimal bounds.min ++ ',' :: decimal max ++ ['\x7d']

namespace Tree

def isRepetition : Tree → Bool
  | .repetition _ _ => true
  | _ => false

def isNegation : Tree → Bool
  | .negation _ => true
  | _ => false

def grouped (needed : Bool) (form : List Char) : List Char :=
  if needed then '(' :: form ++ [')'] else form

mutual

def display : Tree → List Char
  | .token spec => spec.display
  | .any => ['_']
  | .sequence items => '(' :: [' '].intercalate (displayAll items) ++ [')']
  | .alternative choices => '(' :: [' ', '|', ' '].intercalate (displayAll choices) ++ [')']
  | .optional item => '[' :: item.display ++ [']']
  | .repetition item times => grouped item.isNegation item.display ++ times.display
  | .negation item => '!' :: grouped item.isRepetition item.display

def displayAll : List Tree → List (List Char)
  | [] => []
  | item :: items => item.display :: displayAll items

end

@[simp] theorem displayAll_eq (items : List Tree) : displayAll items = items.map display := by
  induction items with
  | nil => rfl
  | cons item items each => simp [displayAll, each]

end Tree

end TokenPattern
