import ProjectScope.Specifier.Basic
import ProjectScope.Version.Parser

/-!
# Reading specifiers

An operator, then a version, with blanks allowed around both and none inside. `==` and `!=` take
a wildcard `.*` after a plain release, and they alone take a local label.
-/

namespace ProjectScope

/-- Why a text is not a specifier. -/
inductive SpecifierFault where
  | unknownOperator
  | missingVersion
  | blankInside
  | wildcardNotAllowed (operator : Operator)
  | malformedVersion (input : String) (fault : VersionFault)
  | wildcardAfterSuffix
  | localNotAllowed (operator : Operator)
  | singleSegment
  deriving DecidableEq, Repr

/-- The fault in words. -/
def SpecifierFault.message : SpecifierFault → String
  | unknownOperator => "missing or unknown operator"
  | missingVersion => "missing version"
  | blankInside => "whitespace inside version"
  | wildcardNotAllowed operator => "wildcard not allowed with '" ++ operator.symbol ++ "'"
  | malformedVersion input fault => (Error.invalidVersion input fault.message).message
  | wildcardAfterSuffix => "wildcard only applies to a release prefix"
  | localNotAllowed operator => "local version not allowed with '" ++ operator.symbol ++ "'"
  | singleSegment => "'~=' needs at least two release segments"

/-- The text before a suffix, if the text ends in it. -/
def Text.stripSuffix? (suffix s : List Char) : Option (List Char) :=
  (suffix.reverse.isPrefixOf? s.reverse).map List.reverse

namespace Specifier

/-- The operator that a text starts with, and the rest. -/
def operator? (s : List Char) : Option (Operator × List Char) :=
  Operator.all.findSome? fun op => (op.symbol.toList.isPrefixOf? s).map (op, ·)

/-- Read the version of a clause. -/
def readVersion (s : List Char) : Except SpecifierFault Version :=
  (Version.ofText (String.ofList s)).mapError (.malformedVersion (String.ofList s))

/-- Read what follows the operator. -/
def ofOperand (op : Operator) (s : List Char) : Except SpecifierFault Specifier := do
  if op = .arbitrary then return { operator := op, operand := .text (String.ofList s) }
  match Text.stripSuffix? ['.', '*'] s with
  | some stem =>
    if !op.isEquality then throw (.wildcardNotAllowed op)
    let v ← readVersion stem
    if v.isPrerelease || v.isPostrelease || v.isLocal then throw .wildcardAfterSuffix
    return { operator := op, operand := .wildcard v.epoch v.release }
  | none =>
    let v ← readVersion s
    if v.isLocal && !op.isEquality then throw (.localNotAllowed op)
    if op = .compatible then
      if v.release.length < 2 then throw .singleSegment
      return { operator := op, operand := .version v, shared := v.release.length - 1 }
    return { operator := op, operand := .version v }

/-- Read a clause. -/
def ofChars (s : List Char) : Except SpecifierFault Specifier := do
  match operator? (Text.trim s) with
  | none => throw .unknownOperator
  | some (op, rest) =>
    let operand := Text.trim rest
    if operand.isEmpty then throw .missingVersion
    if operand.any Text.isBlank then throw .blankInside
    ofOperand op operand

/-- Read a clause; the error names the text as it was given. -/
def parse (s : String) : Except Error Specifier :=
  (ofChars s.toList).mapError fun fault => .invalidSpecifier s fault.message

end Specifier

end ProjectScope
