import ScriptScrub.Text.Quoted

/-!
# Faults of documents

Why a text is no YAML document, or one with a value that cannot be had.
-/

namespace ScriptScrub.Yaml

/-- What is wrong with a document. -/
inductive Fault where
  /-- A character that no document may hold. -/
  | unprintable (c : Char)
  /-- A character with which nothing begins. -/
  | stray (c : Char)
  /-- A key in one line without the colon that it needs. -/
  | missingColon
  | misplacedItem
  | misplacedKey
  | misplacedValue
  | badDirective
  | badName
  | badTag
  | badScalarHeader
  | openQuote
  | badEscape
  /-- The tokens are all right but make up no document. -/
  | badStructure
  | manyDocuments
  | unknownAlias (name : String)
  | repeatedAnchor (name : String)
  | unknownTag (tag : String)
  /-- A list or a table stands where a key is needed. -/
  | badKey
  /-- Something else than tables is merged into a table. -/
  | badMerge
  /-- The node does not have the form that its tag asks for. -/
  | wrongKind (tag : String)
  /-- A text that should be a whole number is none. -/
  | notWhole (base : Nat) (text : String)
  /-- A text that should be a number is none. -/
  | notNumber (text : String)
  /-- A text that should be a flag is none. -/
  | notFlag (text : String)
  /-- A text that should be a date is none. -/
  | noDate
  /-- A part of a date is out of its range. -/
  | badDate (why : String)
  /-- There is no character with so great a code. -/
  | badCode
deriving Repr, DecidableEq, Inhabited

namespace Fault

/-- The sentence about a fault. -/
def message : Fault → String
  | unprintable c => s!"special characters are not allowed: {Text.quoted c.toString}"
  | stray c => s!"found character {Text.quoted c.toString} that cannot start any token"
  | missingColon => "could not find expected ':'"
  | misplacedItem => "sequence entries are not allowed here"
  | misplacedKey => "mapping keys are not allowed here"
  | misplacedValue => "mapping values are not allowed here"
  | badDirective => "cannot read a directive"
  | badName => "expected alphabetic or numeric character"
  | badTag => "cannot read a tag"
  | badScalarHeader => "expected chomping or indentation indicators"
  | openQuote => "found unexpected end of a quoted scalar"
  | badEscape => "found unknown escape character"
  | badStructure => "expected the node content"
  | manyDocuments => "expected a single document in the stream"
  | unknownAlias name => s!"found undefined alias {Text.quoted name}"
  | repeatedAnchor name => s!"found duplicate anchor {Text.quoted name}"
  | unknownTag tag => s!"could not determine a constructor for the tag {Text.quoted tag}"
  | badKey => "found unhashable key"
  | badMerge => "expected a mapping or list of mappings for merging"
  | wrongKind tag => s!"unexpected kind of node for the tag {Text.quoted tag}"
  | notWhole base text => s!"invalid literal for int() with base {base}: {Text.quoted text}"
  | notNumber text => s!"could not convert string to float: {Text.quoted text}"
  | notFlag text => Text.quoted text
  | noDate => "not a date"
  | badDate why => why
  | badCode => "chr() arg not in range(0x110000)"

/-- Does the fault lie in what a value says? All other faults lie in the form of the document. -/
def isOfValue : Fault → Bool
  | notWhole _ _ | notNumber _ | notFlag _ | noDate | badDate _ | badCode => true
  | _ => false

end Fault

end ScriptScrub.Yaml
