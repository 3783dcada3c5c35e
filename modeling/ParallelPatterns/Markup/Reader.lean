import ParallelPatterns.Markup.Token

/-!
# Reading a marked-up document

The tokens of a document are put together with a stack of the elements that are still open. A text
of blanks between elements is layout and is dropped; a text of blanks that is the only content of an
element is kept.
-/

namespace ParallelPatterns.Markup

structure OpenElement where
  tag : String
  attributes : List (String × String)
  content : List Markup

def OpenElement.finish (o : OpenElement) : Markup := .element o.tag o.attributes o.content.reverse

def keepsBlank (content : List Markup) (next : Option Token) : Bool :=
  match content with
  | [] =>
    match next with
    | some (.closing _) => true
    | _ => false
  | c :: _ => c.isText || content.getLast?.any isText

/-- Puts tokens together; the head of the stack is the innermost open element. -/
def build : List OpenElement → Option Markup → List Token → Option Markup
  | [], root, [] => root
  | _ :: _, _, [] => none
  | [], none, .opening tag attributes closed :: ts =>
    if closed then build [] (some (.element tag attributes [])) ts
    else build [⟨tag, attributes, []⟩] none ts
  | [], some _, .opening _ _ _ :: _ => none
  | [], root, .text s :: ts => if s.toList.all isSpace then build [] root ts else none
  | [], root, .remark :: ts => build [] root ts
  | [], _, .closing _ :: _ => none
  | o :: os, root, .opening tag attributes closed :: ts =>
    if closed then build ({ o with content := .element tag attributes [] :: o.content } :: os) root ts
    else build (⟨tag, attributes, []⟩ :: o :: os) root ts
  | o :: os, root, .text s :: ts =>
    if s.isEmpty || (s.toList.all isSpace && !keepsBlank o.content ts.head?) then build (o :: os) root ts
    else build ({ o with content := .text s :: o.content } :: os) root ts
  | o :: os, root, .remark :: ts => build ({ o with content := .remark :: o.content } :: os) root ts
  | o :: os, root, .closing tag :: ts =>
    if o.tag == tag then
      match os with
      | [] => build [] (some o.finish) ts
      | p :: ps => build ({ p with content := o.finish :: p.content } :: ps) root ts
    else none

def parse (s : String) : Result Markup := ((tokens? s).bind (build [] none)).getDM (.error .malformedMarkup)

end ParallelPatterns.Markup
