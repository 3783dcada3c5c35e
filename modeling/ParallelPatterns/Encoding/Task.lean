import ParallelPatterns.Encoding.Graph
import ParallelPatterns.Task.Overview

/-!
# Suggestions of tasks as JSON

Lists of names have no order. The groups of a suggestion appear as the number of their list, for
which `Plan.showGroups` puts the groups. `Planning.addRecord` makes the suggestion that a record
describes.
-/

namespace ParallelPatterns

def sortedNames (names : List String) : List String := names.mergeSort fun a b => !(b < a)

def listMembers (lists : List (String × List String)) : List (String × Json) :=
  (lists.filter fun l => !l.2.isEmpty).map fun l => (l.1, encode (Unordered.mk l.2))

instance : Encode Suggestion where
  encode
    | .task t => .obj ([("node", .str t.node), ("kind", .str t.kind.name), ("start", .str t.regionStart),
        ("end", encode t.regionEnd), ("pragma", encode t.pragma), ("line", .str t.line.text),
        ("group", encode t.group)] ++ listMembers (TaskClause.all.map fun c => (c.name, t.names c)))
    | .region r => .obj [("node", .str r.node), ("kind", .str "PARALLELREGION"), ("start", encode r.regionStart),
        ("end", encode r.regionEnd), ("pragma", .str RegionSuggestion.pragma)]
    | .omittable o => .obj ([("node", .str o.node), ("kind", .str "OMITTABLE"), ("with", .str o.partner)] ++
        listMembers [(TaskClause.dependIn.name, o.dependIn),
          (TaskClause.dependOut.name, o.dependOut), (TaskClause.dependInOut.name, o.dependInOut)])

def Suggestion.sorted : Suggestion → Suggestion
  | .task t => .task (TaskClause.all.foldl (fun t c => t.put ⟨0, sortedNames (t.names c)⟩ c) t)
  | .omittable o => .omittable { o with
      dependIn := sortedNames o.dependIn, dependOut := sortedNames o.dependOut
      dependInOut := sortedNames o.dependInOut }
  | s => s

def Suggestion.attributes (p : Plan) (s : Suggestion) : List (String × Json) :=
  let site (id : NodeId) (first last : LineId) : List (String × Json) :=
    ({ PatternSite.ofNode ((p.graph.node? id).getD default) with
      node := id, startLine := first, endLine := last }).attributes
  match s.sorted with
  | .task t =>
    site t.node t.first t.last ++ [("type", .str t.kind.name), ("pragma", encode t.pragma),
      ("pragma_line", match t.line with
        | .written l => .str l
        | .computed n => .int n),
      ("region_start_line", .str t.regionStart), ("region_end_line", encode t.regionEnd),
      ("task_group", encode (p.groups.getD t.group []))] ++ TaskClause.all.map fun c => (c.name, encode (t.names c))
  | .region r =>
    site r.node r.first r.last ++ [("region_start_line", encode r.regionStart),
      ("region_end_line", encode r.regionEnd), ("pragma", .str RegionSuggestion.pragma),
      ("type", .str "PARALLELREGION")]
  | .omittable o =>
    site o.node o.first o.last ++ [("combine_with_node", .str o.partner), ("cwn_id", .str o.partner),
      ("in_dep", encode o.dependIn), ("out_dep", encode o.dependOut), ("in_out_dep", encode o.dependInOut)]

namespace Planning

def listed : Planning (List Suggestion) := do return (← currentSuggestions).map (·.2)

def sortedTexts : Planning (List String) := do
  (← get).current.mapM fun n => do
    let p ← get
    let (r, _) := (do modifySuggestion n Suggestion.sorted; textOf n : Planning String).runOn p
    lift r

def setRecorded (i : Nat) (j : Json) : Planning Unit := do
  for (c, key) in [(TaskClause.dependIn, "in"), (.dependOut, "out"), (.dependInOut, "inout")] do
    setNames i c (decode (j.field key))
  modifyTask i fun t => { t with regionEnd := decode (j.field "end") }

def addRecord (j : Json) : Planning Nat := do
  let n ← node (decode (j.field "node"))
  let kind : String := decode (j.field "kind")
  let mark : Planning Unit := do
    for name in (decode (j.field "mark") : List String) do
      modifyNode n.id fun n => n.setProperty name (.bool true)
  match kind with
  | "REGION" => add (.region {
      node := n.id, first := n.start, last := n.finish, regionStart := decode (j.field "start")
      regionEnd := decode (j.field "end") })
  | "OMITTABLE" =>
    let partner ← node (decode (j.field "with"))
    mark
    add (.omittable {
      node := n.id, first := n.start, last := n.finish, partner := partner.id
      dependIn := decode (j.field "in"), dependOut := decode (j.field "out")
      dependInOut := decode (j.field "inout") })
  | _ =>
    let k ← (TaskKind.ofName? kind).getDM (throw .unknownKey)
    let pragma := (j.get? "pragma").elim [k.word] decode
    let i ← newTask n k pragma (decode (j.field "line")) (decode (j.field "fp")) (decode (j.field "priv"))
      (decode (j.field "shared"))
    setRecorded i j
    mark
    return i

def addRecords (js : List Json) : Planning Unit := do append (← js.mapM addRecord)

def appendSorted (ns : List Nat) : Planning Unit := do
  let keyed ← ns.mapM fun i => do return (i, (encode (← suggestion i)).sortText)
  append ((keyed.mergeSort fun a b => !(b.2 < a.2)).map (·.1))

end Planning

def Plan.showGroups (p : Plan) : Json → Json
  | .arr suggestions => .arr (suggestions.map fun s =>
    match s with
    | .obj ms => .obj (ms.map fun (k, v) => (k, if k == "group" then encode (p.groups.getD (decode v) []) else v))
    | s => s)
  | j => j

instance : Encode DependenceSorts := ⟨fun s => encode (s.tasks, s.waits, s.joined, s.others)⟩

instance : Encode JoinedTask where
  encode t := .obj [("nodes", encode t.nodes), ("mw", .str t.role.name),
    ("lines", encode (t.first, t.last, (Text.cut ":" t.first).2))]

def WorkTask.toJson : WorkTask → Json
  | .mk node first last role children =>
    .arr [.str node, .str first, .str last, .str role.name, .arr (children.attach.map fun ⟨c, _⟩ => c.toJson)]

instance : Encode WorkTask := ⟨WorkTask.toJson⟩

instance : Encode WorkRole := ⟨fun r => .str r.name⟩

instance : Encode LocalName := ⟨fun x => encode (x.name, x.function, x.first, x.last)⟩

instance : Encode AliasClass := ⟨fun c =>
  .arr (encode c.origin :: Json.sortValues (c.others.map encode))⟩

instance : Encode Effect := ⟨fun e => encode (e.written, e.guessed)⟩

instance : Encode ArgumentEffect := ⟨fun a => encode (a.name, a.effect.written, a.effect.guessed)⟩

instance : EncodeKey (Option String) := ⟨fun k => k.getD "null"⟩

end ParallelPatterns
