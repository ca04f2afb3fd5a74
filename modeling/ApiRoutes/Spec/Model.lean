import ApiRoutes.Failure
import ApiRoutes.Text.Utf8
import ApiRoutes.Value
/-!
# Fitting values to models

The checks that the models of an API document are made of.  A check finds every fault of its value,
in order; values that no model mentions are kept and can be put into the form that interchange
formats have for them (`Value.interchange`).
-/
namespace ApiRoutes

namespace Spec

/-- A value checked: what it is, or all its faults. -/
abbrev Checked := Except (List Fault)

def fault {α : Type} (complaint : Complaint) : Checked α := .error [⟨[], complaint⟩]

/-- The faults of a value inside another. -/
def within {α : Type} (step : Step) (c : Checked α) : Checked α :=
  c.mapError (·.map (Fault.under step))

/-- Two checks, whose faults come one after the other. -/
def both {α β : Type} (a : Checked α) (b : Checked β) : Checked (α × β) :=
  match a, b with
  | .ok a, .ok b => .ok (a, b)
  | .ok _, .error fs => .error fs
  | .error fs, .ok _ => .error fs
  | .error fs, .error gs => .error (fs ++ gs)

def all {α : Type} : List (Checked α) → Checked (List α)
  | [] => .ok []
  | c :: rest => (both c (all rest)).map fun (a, as) => a :: as

/-- A text; bytes that are UTF-8 count as one. -/
def checkText : Value → Checked Text
  | .text t => .ok t
  | .bytes bs => match Text.ofUtf8? bs with
    | some t => .ok t
    | none => fault .notUtf8
  | _ => fault .notText

def checkTextOrNull : Value → Checked (Option Text)
  | .null => .ok none
  | v => (checkText v).map some

/-- The step into the entry with a key.  Keys that are no integers go by their word. -/
def stepOf (key : Value) : Step :=
  match key with
  | .bool b => .index (if b then 1 else 0)
  | .int i => if -0x8000000000000000 ≤ i ∧ i < 0x8000000000000000 then .index i else .key (Text.ofInt i)
  | k => .key k.plain

def checkMapping : Value → Checked (List (Text × Value))
  | .map entries =>
    all (entries.map fun (k, v) =>
      within (stepOf k) ((within (.key "[key]") (checkText k)).map fun k => (k, v)))
  | _ => fault .notAMapping

def checkList : Value → Checked (List Value)
  | .list items | .set items => .ok items
  | _ => fault .notAList

/-- The entries of a model that are in none of its fields. -/
def checkOthers (fields : List Text) (entries : Entries) : Checked (List (Text × Value)) :=
  all ((entries.filter fun (k, _) => !fields.any fun f => k == .text f).map fun (k, v) =>
    match k with
    | .text t => .ok (t, v)
    | k => within (stepOf k) (fault .notAnIdentifier))

/-- A field that there must be. -/
def required {α : Type} (name : Text) (check : Value → Checked α) (entries : Entries) :
    Checked α :=
  within (.key name) <|
    match Value.lookup? (.text name) entries with
    | some v => check v
    | none => fault .missing

/-- A field that there may be. -/
def allowed {α : Type} (name : Text) (check : Value → Checked α) (entries : Entries) :
    Checked (Option α) :=
  match Value.lookup? (.text name) entries with
  | some v => within (.key name) ((check v).map some)
  | none => .ok none

end Spec

namespace Value

def interchangeKey : Value → Outcome Text
  | .text t => .ok t
  | .bool b => .ok (if b then "true" else "false")
  | .float x => .ok (match x with
    | .finite .. => x.text .plain
    | _ => "None")
  | .dateTime d => .ok d.interchangeText
  | .bytes bs => match Text.ofUtf8? bs with
    | some t => .ok t
    | none => .error (.misuse .undecodable)
  | k => .ok k.plain

mutual

/-- A value as interchange formats have it: days and moments as texts, bytes as the text that they
spell, sets as lists, numbers that are not finite as nothing, and keys as texts. -/
def interchange : Value → Outcome Value
  | .date d => return .text d.isoText
  | .dateTime d => return .text d.interchangeText
  | .bytes bs => match Text.ofUtf8? bs with
    | some t => .ok (.text t)
    | none => .error (.misuse .undecodable)
  | .float x => return match x with
    | .finite .. => .float x
    | _ => .null
  | .list items => return .list (← interchangeItems items)
  | .set items => return .list (← interchangeItems items)
  | .map entries => return .map (ofEntries (← interchangeEntries entries))
  | .null => return .null
  | .bool b => return .bool b
  | .int i => return .int i
  | .text t => return .text t

def interchangeItems : List Value → Outcome (List Value)
  | [] => return []
  | v :: rest => do
    let v ← interchange v
    return v :: (← interchangeItems rest)

def interchangeEntries : Entries → Outcome Entries
  | [] => return []
  | (k, v) :: rest => do
    let k ← interchangeKey k
    let v ← interchange v
    return (.text k, v) :: (← interchangeEntries rest)

end

end Value

end ApiRoutes
