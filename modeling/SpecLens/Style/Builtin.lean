import SpecLens.Style.Basic

/-!
# The built-in styles

Each style is a table of its keywords.
-/

namespace SpecLens.Style

/-- The package of the base classes of all built-in styles. -/
def basePackage : String := "io.kotest.core.spec.style."

/-- `feature` containers hold `scenario` tests; both can be configured. -/
def feature : Style where
  name := "Feature Spec"
  fqn := basePackage ++ "FeatureSpec"
  leafCalls := Keyword.pair "scenario"
  leafChains := Keyword.pair "scenario"
  containerCalls := Keyword.pair "feature"
  containerChains := Keyword.pair "feature"
  bareStrings := false
  stubKeyword := some "scenario"

/-- `context` containers hold `test` tests. -/
def funStyle : Style where
  name := "Fun Spec"
  fqn := basePackage ++ "FunSpec"
  leafCalls := Keyword.pair "test"
  leafChains := Keyword.pair "test"
  containerCalls := Keyword.pair "context"
  containerChains := []
  bareStrings := false
  stubKeyword := some "test"

/-- `describe` and `context` containers hold `it` tests. -/
def describe : Style where
  name := "Describe Spec"
  fqn := basePackage ++ "DescribeSpec"
  leafCalls := Keyword.pair "it"
  leafChains := Keyword.pair "it"
  containerCalls := Keyword.pair "describe" ++ Keyword.pair "context"
  containerChains := []
  bareStrings := false
  stubKeyword := some "it"

/-- `context` containers hold `should` tests. -/
def should : Style where
  name := "Should Spec"
  fqn := basePackage ++ "ShouldSpec"
  leafCalls := Keyword.pair "should"
  leafChains := Keyword.pair "should"
  containerCalls := Keyword.pair "context"
  containerChains := []
  bareStrings := false
  stubKeyword := some "should"

/-- The four spellings of a behavior keyword: in lower case and capitalized, skipped or not. -/
def behaviorKeywords (name capitalized lead : String) : List Keyword :=
  [.enabled name, .enabled capitalized, .skipped ("x" ++ name), .skipped ("x" ++ capitalized)].map
    (Keyword.withLead · lead)

def thenKeywords : List Keyword := behaviorKeywords "then" "Then" "Then: "

/-- `given`, `when` and `and` containers hold `then` tests, all shown with a lead. -/
def behavior : Style where
  name := "Behavior Spec"
  fqn := basePackage ++ "BehaviorSpec"
  leafCalls := thenKeywords
  leafChains := thenKeywords
  containerCalls := behaviorKeywords "given" "Given" "Given: " ++
    behaviorKeywords "when" "When" "When: " ++ behaviorKeywords "and" "And" "And: "
  containerChains := []
  bareStrings := false
  stubKeyword := some "then"

/-- Tests are string literals with a lambda; there are no containers. -/
def string : Style where
  name := "String Spec"
  fqn := basePackage ++ "StringSpec"
  leafCalls := []
  leafChains := []
  containerCalls := []
  containerChains := []
  bareStrings := true
  stubKeyword := none

/-- All built-in styles in the order of their registration. -/
def builtin : List Style := [feature, funStyle, describe, should, behavior, string]

end SpecLens.Style
