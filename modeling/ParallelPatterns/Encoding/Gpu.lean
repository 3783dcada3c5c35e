import ParallelPatterns.Encoding.Pattern
import ParallelPatterns.Findings

/-!
# Loops and regions for an accelerator as JSON

The views of a loop, and of the regions that loops form, by the names under which they are asked
for.
-/

namespace ParallelPatterns

namespace GpuLoop

def view (g : Graph) (files : Files) (doAll : Option (List DoAllPattern)) (p : GpuLoop)
    (what : String) (a b : Json) : Result (Json × GpuLoop) := do
  match what with
  | "info" => return (Json.comparable (.obj (p.attributes (.full g))), p)
  | "data_str" =>
    let (text, mapToFrom) ← g.rankText p
    return (.str text, { p with mapToFrom })
  | "find" => return (.bool (p.isMapped (decode a) (decode b)), p)
  | "print" => return (.str (← p.mappingText), p)
  | "next" => return (.null, p)
  | "collapse" =>
    let doAll ← doAll.getDM (throw .missingProperty)
    let n ← g.collapsedLoops (doAll.map (·.site.node)) (← g.node p.site.node)
    return (.int (p.collapse + n), { p with collapse := p.collapse + n })
  | "constructs" =>
    let p ← p.withConstructs g files
    return ((Json.arr (p.constructs.map fun c => .obj c.attributes)).sortRest.comparable, p)
  | "string" =>
    let (text, p) ← p.text g files
    return (.str text, p)
  | "tojson" => return (.str (← p.record g files), p)
  | _ => throw .unknownKey

end GpuLoop

namespace GpuRegion

def view (g : Graph) (files : Files) (folder : String) (loops : List GpuLoop) (what : String)
    (a b : Json) : Result Json := do
  let regions : Result (List GpuRegion) := g.gpuRegions files folder loops
  match what with
  | "reachable" => return .bool (← g.followsDirectly (decode a) (decode b))
  | "parent" => return .bool (← g.insideLoop (← g.node (decode a)))
  | "regions" =>
    let linked := GpuLoop.linkNext loops
    return .arr ((← g.gpuRegionsOf linked).map encode ++ [encode (linked.map (·.next))])
  | "old" => return .str (← g.regionMappingText loops)
  | "entry" => return encode ((← regions).map fun r => Unordered.mk (r.entries g))
  | "exit" =>
    return encode ((← regions).map fun r =>
      let (inside, outside) := r.exits g
      [Unordered.mk inside, Unordered.mk outside])
  | "string" => return encode (← (← regions).mapM fun r => do return (← r.text g files).1)
  | _ => return Json.comparable (.arr ((← regions).map fun r => .obj (r.attributes (.full g))))

end GpuRegion

namespace Findings

def recordsOf (f : Findings) (kind : String) : Result (List String) := do
  let k ← (if kind == "gd" then some .geometric else PatternKind.ofName? kind).getDM (.error .missingProperty)
  if f.order.contains k then return (f.attributesOf .outline k).map outlineText else .error .missingProperty

end Findings

end ParallelPatterns
