/-!
# Tokens

What a document consists of when its indentation has been turned into marks: every block of items
or of keys has a beginning and an end, and every key that only its colon shows is marked as one.
-/

namespace ScriptScrub.Yaml

/-- A token of a document. -/
inductive Token where
  /-- A version with its major number. -/
  | version (major : Nat)
  /-- A short name for the beginning of tags. -/
  | tagName (handle start : String)
  | otherDirective
  | documentStart
  | documentEnd
  | itemsStart
  | keysStart
  | blockEnd
  | flowItemsStart
  | flowItemsEnd
  | flowKeysStart
  | flowKeysEnd
  | item
  | comma
  | key
  | value
  | alias (name : String)
  | anchor (name : String)
  /-- A tag, or its end if it is written with a handle. -/
  | tag (handle : Option String) (text : String)
  | scalar (text : String) (plain : Bool)
deriving Repr, DecidableEq, Inhabited

end ScriptScrub.Yaml
