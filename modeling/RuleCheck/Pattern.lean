import RuleCheck.Pattern.Meaning
import RuleCheck.Pattern.Reader
import RuleCheck.Pattern.Size

/-!
# Patterns

A pattern is a text together with what decides which texts it matches. A text that can be read as a
regular expression of bounded size is decided by its language. For a foreign text nothing is known
here of what it matches, or whether it is a pattern at all: the verdicts on it are given from
outside, and may be any.
-/

namespace RuleCheck

/-- The language of a text that can be read as a pattern and does not stand for too large an
automaton. -/
def Pattern.language (source : String) : Except Pattern.ReadFault Pattern.Regex :=
  match (read source).map Expr.form with
  | .error fault => .error fault
  | .ok form => if form.fits then .ok form.toRegex else .error .malformed

/-- What decides whether a text matches: a language that is known, or verdicts that are given. -/
inductive Pattern.Matcher where
  | language (regex : Pattern.Regex)
  | foreign (verdict : String → Bool)

/-- Verdicts decide for foreign texts only. -/
inductive Pattern.Matcher.Decides : Pattern.Matcher → String → Prop where
  | language {source : String} {regex : Pattern.Regex}
      (language_eq : Pattern.language source = .ok regex) : Decides (.language regex) source
  | foreign {source : String} (unread : Pattern.language source = .error .foreign)
      (verdict : String → Bool) : Decides (.foreign verdict) source

structure Pattern where
  source : String
  matcher : Pattern.Matcher
  decides : matcher.Decides source

namespace Pattern

/-- The pattern of a text that is not foreign. -/
def ofSource? (source : String) : Option Pattern :=
  match language_eq : language source with
  | .error _ => none
  | .ok regex => some ⟨source, .language regex, .language language_eq⟩

def isMatch (pattern : Pattern) (text : String) : Bool :=
  match pattern.matcher with
  | .language regex => regex.search text
  | .foreign verdict => verdict text

end Pattern

end RuleCheck
