import TypeStrip.Json.Reading

/-!
Records in JSON: objects with known keys, or arrays with the values of those keys in order. All of
their fields may be left out. Values are read in the order of the text, so the first fault counts.
-/
namespace TypeStrip.Json

/-- A field of a record: the keys it goes by, and what its value makes of a record. -/
structure Field (ε σ : Type) where
  keys : List String
  read : Json → σ → Except ε σ

def hasKey (fields : List (Field ε σ)) (key : String) : Bool :=
  fields.any fun field => field.keys.contains key

/-- The record with the members of an object. A field may occur once; what goes by other keys only
has to be well formed. -/
def readMembers (fault : ε) (fields : List (Field ε σ)) :
    List (Field ε σ) → List (Option String × Json) → σ → Except ε σ
  | _, [], record => .ok record
  | _, (none, _) :: _, _ => .error fault
  | unread, (some key, v) :: members, record =>
    match unread.find? fun field => field.keys.contains key with
    | some field => do
      let unread := unread.filter fun field => !field.keys.contains key
      readMembers fault fields unread members (← field.read v record)
    | none =>
      if hasKey fields key || !v.isWhole then .error fault
      else readMembers fault fields unread members record

/-- The record with the items of an array, one for each field from the first on. -/
def readItems (fault : ε) : List (Field ε σ) → List Json → σ → Except ε σ
  | _, [], record => .ok record
  | [], _ :: _, _ => .error fault
  | field :: fields, v :: vs, record => do readItems fault fields vs (← field.read v record)

/-- The record that a value gives, starting from one in which all fields are left out. -/
def readRecord (fault : ε) (fields : List (Field ε σ)) (v : Json) (record : σ) : Except ε σ := do
  let (record, closed) ← match v with
    | .object members closed => pure (← readMembers fault fields fields members record, closed)
    | .array items closed => pure (← readItems fault fields items record, closed)
    | _ => .error fault
  if closed then .ok record else .error fault

def recordOfText (fault : ε) (fields : List (Field ε σ)) (s : String) (record : σ) :
    Except ε σ := do
  let (v, isAll) := ofText s
  let record ← readRecord fault fields v record
  if isAll then .ok record else .error fault

def text? : Json → Option String
  | .string s => s
  | _ => none

def orNull (read : Json → Option α) : Json → Option (Option α)
  | .null => some none
  | v => (read v).map some

end TypeStrip.Json
