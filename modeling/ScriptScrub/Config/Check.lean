import ScriptScrub.Config.Value
import ScriptScrub.Decimal.Reading

/-!
# Checking values

Readers turn an unchecked value into what a setting needs, or tell everything that is wrong with
it and where. They are lenient where a value can be meant in one way only: a flag may be a word or
a number, a whole number may be written as a text.
-/

namespace ScriptScrub.Config

/-- One step on the way from a document to a value inside it. -/
inductive Step where
  | field (name : String)
  | item (index : Nat)
deriving Repr, DecidableEq

/-- What is wrong with a value. -/
inductive Complaint where
  | missing
  | notText
  | notList
  | notChoice
  | notTable
  | notFlag
  | unreadableFlag
  | notWhole
  | unreadableWhole
  | fractional
  | negative
deriving Repr, DecidableEq

/-- The code under which a complaint is reported. -/
def Complaint.code : Complaint → String
  | missing => "missing"
  | notText => "string_type"
  | notList => "list_type"
  | notChoice => "enum"
  | notTable => "model_type"
  | notFlag => "bool_type"
  | unreadableFlag => "bool_parsing"
  | notWhole => "int_type"
  | unreadableWhole => "int_parsing"
  | fractional => "int_from_float"
  | negative => "greater_than_equal"

/-- A complaint and the place of the value that it is about. -/
structure Violation where
  place : List Step
  complaint : Complaint
deriving Repr, DecidableEq

/-- A value, or everything that is wrong. -/
abbrev Checked (α : Type) := Except (List Violation) α

namespace Checked

/-- A single complaint about the value itself. -/
def refuse {α : Type} (c : Complaint) : Checked α := .error [⟨[], c⟩]

/-- Applies a checked function; the complaints of both sides are kept in order. -/
def ap {α β : Type} (f : Checked (α → β)) (x : Checked α) : Checked β :=
  match f, x with
  | .ok f, .ok x => .ok (f x)
  | .ok _, .error bad => .error bad
  | .error bad, .ok _ => .error bad
  | .error bad, .error worse => .error (bad ++ worse)

/-- The complaints, seen from one step further out. -/
def under {α : Type} (s : Step) : Checked α → Checked α
  | .ok x => .ok x
  | .error bad => .error (bad.map fun v => ⟨s :: v.place, v.complaint⟩)

end Checked

namespace Value

/-- Takes texts only. -/
def asText : Value → Checked String
  | text s => .ok s
  | _ => .refuse .notText

/-- The words for true and for false, in small letters. -/
def flagWords : List (String × Bool) :=
  [("0", false), ("off", false), ("f", false), ("false", false), ("n", false), ("no", false),
   ("1", true), ("on", true), ("t", true), ("true", true), ("y", true), ("yes", true)]

/-- Takes flags, the numbers 0 and 1, and the words for true and false. -/
def asFlag : Value → Checked Bool
  | flag b => .ok b
  | whole n => if n == 0 then .ok false else if n == 1 then .ok true else .refuse .unreadableFlag
  | number x =>
    if x == 0.0 then .ok false
    else if x == 1.0 then .ok true
    else .refuse (if x.isFinite then .unreadableFlag else .notFlag)
  | text s =>
    match flagWords.lookup (s.map Char.toLower) with
    | some b => .ok b
    | none => .refuse .unreadableFlag
  | _ => .refuse .notFlag

/-- The whole number that a text of plain digits writes, a fraction of zeros allowed. -/
def wholeText? (s : String) : Option Int :=
  let (negative, cs) := Decimal.signed (Text.trimBy Text.isBlank s.toList)
  match Decimal.digitRun cs with
  | ([], _) => none
  | (ds, rest) =>
    let zeros := match rest with
      | [] => true
      | '.' :: (z :: zs) => (z :: zs).all (· == '0')
      | _ => false
    if zeros then some (if negative then -(Text.digitsValue ds : Int) else Text.digitsValue ds)
    else none

/-- Takes whole numbers, flags, numbers without a fraction, and texts of such numbers. -/
def asWhole : Value → Checked Int
  | whole n => .ok n
  | flag b => .ok (if b then 1 else 0)
  | number x =>
    if x.floor == x then .ok (if x < 0.0 then -((-x).toUInt64.toNat : Int) else x.toUInt64.toNat)
    else .refuse .fractional
  | text s =>
    match wholeText? s with
    | some n => .ok n
    | none => .refuse .unreadableWhole
  | _ => .refuse .notWhole

/-- Takes null for nothing. -/
def asOptional {α : Type} (read : Value → Checked α) : Value → Checked (Option α)
  | null => .ok none
  | v => (read v).map some

/-- Takes the name of one of the choices. -/
def asChoice {α : Type} (ofName? : String → Option α) : Value → Checked α
  | text s =>
    match ofName? s with
    | some a => .ok a
    | none => .refuse .notChoice
  | _ => .refuse .notChoice

/-- Reads the items of a list from the index `i` on. -/
def itemsFrom {α : Type} (read : Value → Checked α) : Nat → List Value → Checked (List α)
  | _, [] => .ok []
  | i, v :: vs =>
    Checked.ap (Checked.ap (.ok List.cons) ((read v).under (.item i))) (itemsFrom read (i + 1) vs)

/-- Takes lists, every item of which is read. -/
def asList {α : Type} (read : Value → Checked α) : Value → Checked (List α)
  | list vs => itemsFrom read 0 vs
  | _ => .refuse .notList

/-- The entries of a table. -/
def asEntries : Value → Checked Entries
  | table es => .ok es
  | _ => .refuse .notTable

end Value

namespace Entries

/-- Reads the value under a name, which has to be there. -/
def required {α : Type} (entries : Entries) (name : String) (read : Value → Checked α) :
    Checked α :=
  match named? entries name with
  | some v => (read v).under (.field name)
  | none => (Checked.refuse .missing).under (.field name)

/-- Reads the value under a name, if it is there. -/
def optional {α : Type} (entries : Entries) (name : String) (read : Value → Checked α)
    (default : α) : Checked α :=
  match named? entries name with
  | some v => (read v).under (.field name)
  | none => .ok default

end Entries

end ScriptScrub.Config
