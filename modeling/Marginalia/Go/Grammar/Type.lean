/-
Module: Marginalia.Go.Grammar.Type
Purpose: The rules for types, parameter lists, fields and interface elements.
Main exports:
  typeRule, parameters, result?, typeParameters, typeElem, typeArguments
-/
import Marginalia.Go.Grammar.Phrase

namespace Marginalia.Go.Grammar

variable (phrases : Phrases)

/-! ### Parts of types -/

/-- One or more types with bars between them. -/
def typeElem (line : Bool) : Reading Draft :=
  node .typeElem do
    let first ← phrases (.type line)
    let others ← repeatWhile do
      if ← atMark line .bar then
        return some [← mark .bar, ← phrases (.type line)]
      else return none
    return first :: others

/-- The arguments of a generic type. -/
def typeArguments : Reading (List Draft) := do
  let ts ← enclosed .bracketL .bracketR false (one (typeElem phrases false))
  if ts.length ≤ 2 then failure
  return ts

/-- A name, perhaps qualified by a package. -/
def typeName (line : Bool) : Reading Draft := do
  let name ← word .typeIdentifier
  if ← atMark line .dot then
    match name with
    | .node _ _ start _ _ =>
      let dot ← mark .dot
      let inner ← word .typeIdentifier
      return .node .qualifiedType none start inner.stop
        [.node .packageIdentifier (some .package) start name.stop [], dot, inner.withRole .name]
  else return name

/-- A name with the type arguments that follow it, if any do. -/
def namedType (line : Bool) : Reading Draft := do
  let name ← typeName line
  if ← atMark line .bracketL then
    (do
      let arguments ← typeArguments phrases
      return .node .genericType none name.start (← lastNumber)
        (name.withRole .type :: arguments)) <|> return name
  else return name

/-! ### Parameters -/

/-- Whether a parameter ends here. -/
def atParameterEnd : Reading Bool := do
  return (← atMark false .comma) || (← atMark false .parenR)

/-- A parameter: a type, a name and a type, or either with `...` before the type. -/
def parameter : Reading (List Draft) := do
  let variadic : Reading (List Draft) := do
    return [← mark .ellipsis, ← phrases (.type false)]
  match ← peek false with
  | some (.mark .ellipsis) => variadic
  | some (.word k) =>
    let named : Reading (List Draft) := do
      if (k.map Keyword.beginsType).getD false then failure
      let name ← word .identifier
      match ← peek false with
      | some (.mark .ellipsis) => return name :: (← variadic)
      | some token =>
        if beginsType token then
          let t ← phrases (.type false)
          if ← atParameterEnd then return [name, t] else failure
        else failure
      | none => failure
    named <|> one (phrases (.type false))
  | _ => one (phrases (.type false))

/-- A list of parameters between parentheses. -/
def parameters : Reading Draft :=
  node .parameterList (enclosed .parenL .parenR true (parameter phrases))

/-- The result of a function, if there is one: parameters or a type. -/
def result? (line : Bool) : Reading (List Draft) := do
  match ← peek line with
  | some (.mark .parenL) => return [(← parameters phrases).withRole .result]
  | some token =>
    if beginsType token then return [(← phrases (.type line)).withRole .result] else return []
  | none => return []

/-- The parameters of a generic declaration: names, then a constraint. -/
def typeParameters : Reading Draft :=
  node .typeParameterList do
    let ts ← enclosed .bracketL .bracketR false do
      let names ← separated false (one (word .identifier))
      return names ++ [← typeElem phrases false]
    if ts.length ≤ 2 then failure
    return ts

/-! ### Fields and interface elements -/

/-- Whether a field may end here: before its tag, a terminator or the closing brace. -/
def atFieldEnd : Reading Bool := do
  match ← peek true with
  | some .newline => return true
  | some .quoted => return true
  | some .raw => return true
  | some (.mark m) => return m == .semicolon || m == .braceR || m == .nul
  | _ => return false

/-- An embedded field: a type name, perhaps behind a star. -/
def embeddedField : Reading (List Draft) := do
  let star ← mark? false .star
  let t ← namedType phrases true
  if ← atFieldEnd then return star ++ [t.withRole .type] else failure

/-- A field with names. -/
def namedField : Reading (List Draft) := do
  let names ← separated false (one (inRole .name (word .fieldIdentifier)))
  let t ← phrases (.type true)
  if ← atFieldEnd then return names ++ [t.withRole .type] else failure

/-- A field of a struct with its tag. -/
def fieldDeclaration : Reading Draft :=
  node .fieldDeclaration do
    let parts ← embeddedField phrases <|> namedField phrases
    match ← peek true with
    | some .quoted => return parts ++ [(← stringLiteral).withRole .tag]
    | some .raw => return parts ++ [(← stringLiteral).withRole .tag]
    | _ => return parts

/-- The fields of a struct. -/
def fieldList : Reading Draft :=
  node .fieldDeclarationList (listed .braceL .braceR (fieldDeclaration phrases))

/-- A method of an interface. -/
def methodElem : Reading Draft :=
  node .methodElem do
    let name ← word .fieldIdentifier
    if ← atMark true .parenL then
      let ps ← parameters phrases
      return [name.withRole .name, ps.withRole .parameters] ++ (← result? phrases true)
    else failure

/-- An element of an interface. -/
def interfaceElem : Reading Draft := do
  match ← peek false with
  | some (.word (some k)) =>
    if k.beginsType then typeElem phrases true
    else methodElem phrases <|> typeElem phrases true
  | some (.word none) => methodElem phrases <|> typeElem phrases true
  | _ => typeElem phrases true

/-! ### Types -/

/-- A function type, or the head of a function literal. -/
def functionType (line : Bool) : Reading (List Draft) := do
  let func ← keyword .funcWord
  let ps ← parameters phrases
  return func :: ps.withRole .parameters :: (← result? phrases line)

/-- A type that begins with a bracket: a slice, or an array with its length. -/
def bracketType (line : Bool) : Reading Draft := do
  let slice : Reading Draft := node .sliceType do
    return [← mark .bracketL, ← mark .bracketR, ← phrases (.type line)]
  let array : Reading Draft := node .arrayType do
    return [← mark .bracketL, ← phrases (.expression {}), ← mark .bracketR,
      ← phrases (.type line)]
  slice <|> array

/-- A type that begins with a keyword. -/
def keywordType (line : Bool) : Keyword → Reading Draft
  | .structWord => node .structType do
    return [← keyword .structWord, ← fieldList phrases]
  | .interfaceWord => node .interfaceType do
    return (← keyword .interfaceWord) :: (← listed .braceL .braceR (interfaceElem phrases))
  | .mapWord => node .mapType do
    return [← keyword .mapWord, ← mark .bracketL, ← phrases (.type false), ← mark .bracketR,
      ← phrases (.type line)]
  | .chanWord => node .channelType do
    return (← keyword .chanWord) :: (← mark? false .arrow) ++ [← phrases (.type line)]
  | .funcWord => node .functionType (functionType phrases line)
  | _ => namedType phrases line

/-- The rule for types; with `line`, a newline ends the type as soon as it is complete. -/
def typeRule (line : Bool) : Reading Draft := do
  match ← peek false with
  | some (.word (some k)) => keywordType phrases line k
  | some (.word none) => namedType phrases line
  | some (.mark .star) => node .pointerType do
    return [← mark .star, ← phrases (.type line)]
  | some (.mark .parenL) => node .parenthesizedType do
    return [← mark .parenL, ← phrases (.type false), ← mark .parenR]
  | some (.mark .bracketL) => bracketType phrases line
  | some (.mark .arrow) => node .channelType do
    return [← mark .arrow, ← keyword .chanWord, ← phrases (.type line)]
  | some (.mark .tilde) => node .negatedType do
    return [← mark .tilde, ← phrases (.type line)]
  | _ => failure

end Marginalia.Go.Grammar
