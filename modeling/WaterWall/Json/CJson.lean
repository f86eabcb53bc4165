import Mathlib

/-!
# `cJSON` items

The configuration parsers read the settings of a tunnel as a tree of `cJSON` items.  A `Json` is
such an item as those parsers see it: its type, and for a number whether it is an integer.  An
object keeps its members in order, with repeated keys as they came, since
`cJSON_GetObjectItemCaseSensitive` returns the first member of a name and `cJSON_ArrayForEach`
visits every member.

`jsonGetIntegerInRange` (`ww/utils/json_helpers.h`) is the check every integer setting goes
through: a number whose `valuedouble` equals its `valueint`, within the bounds.
-/

set_option autoImplicit false

namespace WaterWall
namespace CJson

/-- A `cJSON` item. -/
inductive Json where
  | null
  | bool (b : Bool)
  /-- A number: `some v` when `valuedouble` is the integer `v` that `valueint` also holds, `none`
  for any other number. -/
  | number (int : Option Int)
  | string (s : String)
  | array (items : List Json)
  | object (members : List (String × Json))

def cJSON_IsObject : Json → Bool
  | .object _ => true
  | _ => false

def cJSON_IsArray : Json → Bool
  | .array _ => true
  | _ => false

/-- `cJSON_GetObjectItemCaseSensitive`: the first member of that name; `NULL` is `none`. -/
def cJSON_GetObjectItemCaseSensitive : Json → String → Option Json
  | .object members, key => (members.find? fun m => m.1 == key).map Prod.snd
  | _, _ => none

def cJSON_GetArraySize : Json → Nat
  | .array items => items.length
  | .object members => members.length
  | _ => 0

def cJSON_GetArrayItem : Json → Nat → Option Json
  | .array items, i => items[i]?
  | .object members, i => (members[i]?).map Prod.snd
  | _, _ => none

/-- `jsonGetIntegerInRange`: the value of an integer item within `[minimum, maximum]`. -/
def jsonGetIntegerInRange (item : Option Json) (minimum maximum : Int) : Option Int :=
  match item with
  | some (.number (some val)) => if val < minimum ∨ val > maximum then none else some val
  | _ => none

theorem jsonGetIntegerInRange_bounds {item : Option Json} {minimum maximum val : Int}
    (h : jsonGetIntegerInRange item minimum maximum = some val) : minimum ≤ val ∧ val ≤ maximum := by
  unfold jsonGetIntegerInRange at h
  split at h
  · split at h
    · cases h
    · cases h
      omega
  · cases h

end CJson
end WaterWall
