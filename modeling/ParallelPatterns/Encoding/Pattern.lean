import ParallelPatterns.Json.Encode

/-!
# Reports of patterns in a comparable form

Some members of a pattern's report stand for sets. In the comparable form their items are sorted,
and real numbers are written with nine places.
-/

namespace ParallelPatterns.Json

def sortItems : Json → Json
  | .arr xs => .arr (sortValues xs)
  | j => j

def sortRest : Json → Json
  | .arr (x :: xs) => .arr (x :: sortValues xs)
  | j => j

def sortEntries (place : Nat) : Json → Json
  | .arr xs => .arr (xs.mapIdx fun i x =>
    match x with
    | .str s =>
      if i == place then .str (",".intercalate ((Text.split "," s).mergeSort fun a b => a ≤ b)) else x
    | _ => x)
  | j => j

def sortAllEntries (place : Nat) : Json → Json
  | .arr xs => .arr (sortValues (xs.map (sortEntries place)))
  | j => j

def setMembers : List String :=
  ["called_functions", "nestedLoops", "declared_global_variables", "contained_cu_ids",
    "map_to_vars", "map_from_vars", "map_to_from_vars", "map_alloc_vars", "map_delete_vars",
    "device_cu_ids", "data_region_depend_in", "data_region_depend_out"]

def sortMember (key : String) (j : Json) : Json :=
  if setMembers.contains key then j.sortItems
  else if key == "constructs" then j.sortRest
  else if key == "update_instructions" then j.sortAllEntries 3
  else if key == "data_region_entry_points" || key == "data_region_exit_points" then j.sortAllEntries 0
  else j

mutual

def comparable : Json → Json
  | .real x => encode x
  | .arr xs => .arr (comparableItems xs)
  | .obj ms => .obj (comparableMembers ms)
  | j => j

def comparableItems : List Json → List Json
  | [] => []
  | x :: xs => comparable x :: comparableItems xs

def comparableMembers : List (String × Json) → List (String × Json)
  | [] => []
  | (k, v) :: ms => (k, sortMember k (comparable v)) :: comparableMembers ms

end

end ParallelPatterns.Json
