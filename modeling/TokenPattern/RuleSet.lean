import TokenPattern.Scan

namespace TokenPattern

structure Rule where
  name : String
  matcher : Matcher

namespace Rule

def pattern (rule : Rule) : Pattern := rule.matcher.pattern

def withOptions (rule : Rule) (options : MatchOptions) : Rule :=
  { rule with matcher := { rule.matcher with options } }

end Rule

/-- Earlier rules take precedence. The options stand with every rule, which is matched under them,
and with the set, whose scans ask them for empty matches. -/
structure RuleSet where
  rules : List Rule := []
  options : MatchOptions := {}
  distinct : (rules.map Rule.name).Nodup := by simp
  agreed : ∀ rule ∈ rules, rule.matcher.options = options := by simp

structure DuplicateRule where
  name : String
  deriving DecidableEq, Repr

def DuplicateRule.message : DuplicateRule → String
  | ⟨name⟩ => s!"duplicate rule name '{name}'"

namespace RuleSet

def empty : RuleSet := {}

def names (set : RuleSet) : List String := set.rules.map Rule.name

def size (set : RuleSet) : Nat := set.rules.length

def isEmpty (set : RuleSet) : Bool := set.rules.isEmpty

def get? (set : RuleSet) (name : String) : Option Pattern :=
  (set.rules.find? fun rule => rule.name == name).map Rule.pattern

def withOptions (set : RuleSet) (options : MatchOptions) : RuleSet where
  rules := set.rules.map (·.withOptions options)
  options := options
  distinct := by
    simpa [Rule.withOptions, Function.comp_def] using set.distinct
  agreed := by simp [Rule.withOptions]

/-- The rules and a further one, which comes after them. -/
def insert (set : RuleSet) (name : String) (pattern : Pattern) : Except DuplicateRule RuleSet :=
  if taken : name ∈ set.names then
    .error ⟨name⟩
  else
    .ok {
      rules := set.rules ++ [⟨name, pattern, set.options⟩]
      options := set.options
      distinct := by
        simpa [List.nodup_append, set.distinct, names] using taken
      agreed := by
        intro rule member
        rcases List.mem_append.mp member with present | added
        · exact set.agreed rule present
        · rw [List.mem_singleton.mp added] }

theorem get?_eq_none_iff {set : RuleSet} {name : String} :
    set.get? name = none ↔ name ∉ set.names := by
  simp [get?, names]

theorem insert_eq_error_iff {set : RuleSet} {name : String} {pattern : Pattern}
    {error : DuplicateRule} :
    set.insert name pattern = .error error ↔ name ∈ set.names ∧ error = ⟨name⟩ := by
  by_cases taken : name ∈ set.names <;> simp [insert, taken, eq_comm]

theorem names_insert {set larger : RuleSet} {name : String} {pattern : Pattern}
    (added : set.insert name pattern = .ok larger) : larger.names = set.names ++ [name] := by
  by_cases taken : name ∈ set.names
  · simp [insert, taken] at added
  · simp only [insert, taken, ↓reduceDIte, Except.ok.injEq] at added
    subst added
    simp [names]

def matchAt (set : RuleSet) (tokens : List Token) (offset : Nat) : Option (Found String) :=
  set.rules.findSome? fun rule => (rule.matcher.matchAt tokens offset).map (⟨rule.name, ·⟩)

/-- One pass over the rules, up to the first that takes tokens. The first empty match on the way is
kept as `fallback`, if empty matches are reported. -/
def pass (reportEmpty : Bool) (ahead : List Token) (fallback : Option (String × Nat)) :
    List Rule → Option (String × Nat)
  | [] => fallback
  | rule :: rules =>
      match rule.matcher.consume ahead with
      | none => pass reportEmpty ahead fallback rules
      | some 0 =>
          if reportEmpty && fallback.isNone then
            pass reportEmpty ahead (some (rule.name, 0)) rules
          else
            pass reportEmpty ahead fallback rules
      | some (more + 1) => some (rule.name, more + 1)

def probe (set : RuleSet) (ahead : List Token) : Option (String × Nat) :=
  pass set.options.reportEmpty ahead none set.rules

def firstRule (set : RuleSet) (accepted : Nat → Bool) (ahead : List Token) :
    Option (String × Nat) :=
  set.rules.findSome? fun rule =>
    ((rule.matcher.consume ahead).filter accepted).map (rule.name, ·)

/-- The pass comes to two searches: one for a rule that takes tokens, and if there is none, one for
a rule that matches empty. -/
theorem pass_eq (reportEmpty : Bool) (ahead : List Token) (fallback : Option (String × Nat))
    (rules : List Rule) :
    pass reportEmpty ahead fallback rules =
      (rules.findSome? fun rule =>
        ((rule.matcher.consume ahead).filter (· != 0)).map (rule.name, ·)).or
      (fallback.or (if reportEmpty then rules.findSome? fun rule =>
        ((rule.matcher.consume ahead).filter (· == 0)).map (rule.name, ·) else none)) := by
  induction rules generalizing fallback with
  | nil => cases reportEmpty <;> simp [pass]
  | cons rule rules rest =>
      rcases taken : rule.matcher.consume ahead with _ | _ | more
      · simp [pass, taken, rest]
      · cases reportEmpty <;> cases fallback <;> simp [pass, taken, rest, Option.filter_some]
      · simp [pass, taken, Option.filter_some]

theorem probe_eq (set : RuleSet) (ahead : List Token) :
    set.probe ahead = (set.firstRule (· != 0) ahead).or
      (if set.options.reportEmpty then set.firstRule (· == 0) ahead else none) := by
  rw [probe, pass_eq, Option.none_or]
  rfl

def scan (set : RuleSet) (tokens : List Token) : Scan String := .start set.probe tokens

def matcher (set : RuleSet) (rule : Rule) : Matcher := ⟨rule.pattern, set.options⟩

theorem matcher_eq {set : RuleSet} {rule : Rule} (member : rule ∈ set.rules) :
    set.matcher rule = rule.matcher := by
  rw [matcher, ← set.agreed rule member, Rule.pattern]

end RuleSet

end TokenPattern
