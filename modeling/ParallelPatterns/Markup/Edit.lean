import ParallelPatterns.Markup.Basic

/-!
# Changes of marked-up documents

Setting an attribute or the text of an element, and changing, adding or removing its children.
-/

namespace ParallelPatterns.Markup

def setAttribute (name value : String) : Markup → Markup
  | .element tag attributes content =>
    let changed := if (attributes.lookup name).isSome
      then attributes.map fun a => if a.1 == name then (name, value) else a
      else attributes ++ [(name, value)]
    .element tag changed content
  | m => m

def setText (s : String) : Markup → Markup
  | .element tag attributes content => .element tag attributes (.text s :: content.dropWhile isText)
  | m => m

/-- Removes attributes, text and children. -/
def clear : Markup → Markup
  | .element tag _ _ => .element tag [] []
  | m => m

def append (ms : List Markup) : Markup → Markup
  | .element tag attributes content => .element tag attributes (content ++ ms)
  | m => m

def modifyNth (tag : String) (f : Markup → List Markup) : Nat → List Markup → List Markup
  | _, [] => []
  | n, m :: ms =>
    if m.isElement && m.tag == tag then
      match n with
      | 0 => f m ++ ms
      | n + 1 => m :: modifyNth tag f n ms
    else m :: modifyNth tag f n ms

def modifyChild (tag : String) (n : Nat) (f : Markup → Markup) : Markup → Markup
  | .element t attributes content => .element t attributes (modifyNth tag (fun m => [f m]) n content)
  | m => m

def removeChild (tag : String) (n : Nat) : Markup → Markup
  | .element t attributes content => .element t attributes (modifyNth tag (fun _ => []) n content)
  | m => m

def attributeOf (m : Markup) (name : String) : Result String :=
  (m.attribute? name).getDM (.error .missingProperty)

end ParallelPatterns.Markup
