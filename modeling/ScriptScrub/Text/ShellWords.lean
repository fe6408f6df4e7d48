/-!
# Shell words

A command in one line falls into words at its blanks, as a shell sees it. Between single quotes
every character stands for itself. A backslash takes the meaning from the character after it;
between double quotes it does so only for a double quote and another backslash.
-/

namespace ScriptScrub.Text

/-- Why a line is no command. -/
inductive ShellFault where
  | openQuote
  | danglingBackslash
deriving Repr, DecidableEq, Inhabited

/-- The sentence about a fault. -/
def ShellFault.message : ShellFault → String
  | openQuote => "No closing quotation"
  | danglingBackslash => "No escaped character"

/-- Where in a line a character stands. -/
inductive ShellPlace where
  /-- In no quotes. -/
  | plain
  | inQuotes (quote : Char)
  /-- After a backslash, which stands itself in no quotes or in double ones. -/
  | escaped (inDouble : Bool)
deriving Repr, DecidableEq, Inhabited

/-- The blanks between words. -/
def isShellBlank (c : Char) : Bool := c == ' ' || c == '\t' || c == '\r' || c == '\n'

/-- The word so far with more characters. -/
def extended (word : Option (List Char)) (cs : List Char) : Option (List Char) :=
  some (word.getD [] ++ cs)

/-- The words of the rest of a line. The word that is being read may be empty, but has to have
begun to be one. -/
def shellWordsFrom : ShellPlace → Option (List Char) → List Char →
    Except ShellFault (List String)
  | .plain, word, [] => .ok (word.toList.map String.ofList)
  | .inQuotes _, _, [] => .error .openQuote
  | .escaped _, _, [] => .error .danglingBackslash
  | .plain, word, c :: cs =>
    if isShellBlank c then
      (shellWordsFrom .plain none cs).map (word.toList.map String.ofList ++ ·)
    else if c = '"' || c = '\'' then shellWordsFrom (.inQuotes c) (extended word []) cs
    else if c = '\\' then shellWordsFrom (.escaped false) word cs
    else shellWordsFrom .plain (extended word [c]) cs
  | .inQuotes quote, word, c :: cs =>
    if c = quote then shellWordsFrom .plain word cs
    else if c = '\\' && quote = '"' then shellWordsFrom (.escaped true) word cs
    else shellWordsFrom (.inQuotes quote) (extended word [c]) cs
  | .escaped false, word, c :: cs => shellWordsFrom .plain (extended word [c]) cs
  | .escaped true, word, c :: cs =>
    let kept := if c = '"' || c = '\\' then [c] else ['\\', c]
    shellWordsFrom (.inQuotes '"') (extended word kept) cs

/-- The words of a line. -/
def shellWords (line : String) : Except ShellFault (List String) :=
  shellWordsFrom .plain none line.toList

end ScriptScrub.Text
