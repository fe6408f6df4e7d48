import ScriptScrub.Syntax.Node
import ScriptScrub.Failure

/-!
# Grammars

A grammar turns the bytes of a script into a tree. `parse` asks it for the tree of a file and
accepts the tree only if it is free of faults.
-/

namespace ScriptScrub

/-- What gives a script of a dialect its tree, or tells why no grammar for the dialect is to be
had. -/
abbrev Grammar := Dialect → Bytes → Except String Node

/-- What gives the source of the file at a path its tree, or tells why the source has none. -/
abbrev Parser := String → Bytes → Except Failure Node

/-- The tree of a file's source, if the file has a dialect and the source no fault. -/
def Grammar.parse (grammar : Grammar) : Parser := fun path source =>
  match Dialect.ofPath? path with
  | none => .error ⟨path, .unsupportedType (Path.suffix path), none⟩
  | some dialect =>
    match grammar dialect source with
    | .error reason => .error ⟨path, .noGrammar dialect reason, none⟩
    | .ok root =>
      if root.hasError then
        match root.firstFault? with
        | none => .error ⟨path, .syntaxError, none⟩
        | some n =>
          let cause := if n.missing then .missingToken n.kind else .unexpectedToken
          .error ⟨path, cause, some (n.location source)⟩
      else .ok root

end ScriptScrub
