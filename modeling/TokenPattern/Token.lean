namespace TokenPattern

namespace Category

def keyword : String := "KEYWORD"
def identifier : String := "IDENTIFIER"
def number : String := "NUMBER"
def string : String := "STRING"
def symbol : String := "SYMBOL"
def delimiter : String := "DELIMITER"

end Category

structure Token where
  category : String
  text : String
  deriving DecidableEq, Repr

namespace Token

def keyword (text : String) : Token := ⟨Category.keyword, text⟩
def identifier (text : String) : Token := ⟨Category.identifier, text⟩
def number (text : String) : Token := ⟨Category.number, text⟩
def symbol (text : String) : Token := ⟨Category.symbol, text⟩
def delimiter (text : String) : Token := ⟨Category.delimiter, text⟩

instance : ToString Token := ⟨Token.text⟩

end Token

/-- The text with the letters `A` to `Z`, and no others, in lower case. -/
def foldCase (text : String) : String := text.map Char.toLower

structure TokenSpec where
  category : String
  value : Option String
  deriving DecidableEq, Repr

namespace TokenSpec

def accepts (ignoreCase : Bool) (spec : TokenSpec) (token : Token) : Bool :=
  token.category == spec.category &&
    match spec.value with
    | none => true
    | some value =>
        if ignoreCase then foldCase value == foldCase token.text else value == token.text

@[simp] theorem accepts_iff {ignoreCase : Bool} {spec : TokenSpec} {token : Token} :
    spec.accepts ignoreCase token = true ↔
      token.category = spec.category ∧ ∀ value, spec.value = some value →
        if ignoreCase then foldCase value = foldCase token.text else value = token.text := by
  cases ignoreCase <;> cases value : spec.value <;> simp [accepts, value]

end TokenSpec

end TokenPattern
