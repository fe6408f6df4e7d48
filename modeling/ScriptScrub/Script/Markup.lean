import ScriptScrub.Script.Goal

/-!
# Markup

Elements between tags, with attributes, text and expressions in braces.
-/

namespace ScriptScrub.Script

open Phrase

/-- The end of a name in markup that holds a hyphen. -/
def hyphenatedEnd? (input : Input) (i : Nat) : Option Nat :=
  let isStart (c : Char) : Bool := c.isAlpha || c == '_' || c == '$'
  if isStart (input.char i) then
    let j := input.skip (fun c => isStart c || c.isDigit) i
    if input.char j == '-' then
      some (input.skip (fun c => isStart c || c.isDigit || c == '-') j)
    else none
  else none

/-- A name in markup. -/
def markupName : Phrase :=
  choice [token "identifier" true hyphenatedEnd?,
    token "identifier" true fun input i => input.wordEnd? i]

/-- The end of a named or numbered character. -/
def characterReferenceEnd? (input : Input) (i : Nat) : Option Nat :=
  let ended (least most : Nat) (p : Char → Bool) (j : Nat) : Option Nat :=
    let k := input.skipWhile p most j
    if j + least ≤ k && input.char k == ';' then some (k + 1) else none
  if input.char i != '&' then none
  else if input.char (i + 1) == '#' then
    if input.char (i + 2) == 'x' || input.char (i + 2) == 'X' then ended 1 6 isHexDigit (i + 3)
    else ended 1 5 Char.isDigit (i + 2)
  else ended 1 30 Char.isAlpha (i + 1)

/-- A named or numbered character. -/
def characterReference : Phrase := immediate "html_character_reference" true characterReferenceEnd?

/-- A quoted value of an attribute. -/
def markupText (quote : Char) : Phrase :=
  let plain := immediate "string_fragment" true fun input i =>
    let j := input.skip (fun c => c != quote && c != '&') i
    if i < j then some j
    else if input.char i == '&' && (characterReferenceEnd? input i).isNone then some (i + 1)
    else none
  node "string" [mark quote, many (choice [characterReference, plain]),
    immediate (String.singleton quote) false fun input i =>
      if input.char i == quote then some (i + 1) else none]

section
variable (self : Rules)

/-- An expression in braces. -/
def markupExpression : Phrase :=
  node "jsx_expression" [braces (maybe (choice [
    node "spread_element" [sign "...", self (.expression {})], self (.expressions {})]))]

/-- A name with a name space. -/
def namespacedName : Phrase := node "jsx_namespace_name" [markupName, mark ':', markupName]

/-- The name of an element. -/
def elementName : Phrase :=
  let dotted := Reader.bind markupName fun first => Reader.grow first fun object =>
    nodeAfter "member_expression" object [mark '.', propertyWord]
  choice [namespacedName, dotted]

/-- An attribute of an element. -/
def tagAttribute : Phrase :=
  let name := choice [namespacedName, renamed "property_identifier" markupName]
  let value := choice [markupText '"', markupText '\'', markupExpression self, self .markup]
  choice [
    node "jsx_attribute" [name, maybe (seq [mark '=', value])],
    markupExpression self]

/-- What stands inside an element: text reaches to the next tag or brace. -/
def markupChild : Phrase :=
  choice [
    immediate "jsx_text" true fun input i => input.markupTextEnd? (input.size - i) false false i,
    characterReference,
    markupExpression self,
    self .markup]

/-- The start of an element after the sign that opens it. -/
def tagInner : Phrase :=
  seq [field "name" elementName, maybe (typed (self .typeArguments)), many (tagAttribute self)]

/-- What `Goal.markup` means. -/
def element : Phrase :=
  let opening := node "jsx_opening_element" [mark '<', maybe (tagInner self), mark '>']
  let closing := node "jsx_closing_element"
    [token "</" false fun input i => if input.startsAt i ['<', '/'] then some (i + 2) else none,
      maybe (field "name" elementName), mark '>']
  choice [
    node "jsx_self_closing_element" [mark '<', tagInner self,
      token "/>" false fun input i => if input.startsAt i ['/', '>'] then some (i + 2) else none],
    node "jsx_element" [opening, many (seq [notAhead closing, markupChild self]), closing]]

end

end ScriptScrub.Script
