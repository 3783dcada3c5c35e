import ParallelPatterns.Markup.Basic

/-!
# Writing a marked-up document

Every element is written on a line of its own, indented by its depth. What is in an element that
holds text stays on the line of the element, since blanks would change the text.
-/

namespace ParallelPatterns.Markup

def writtenChar (quoted : Bool) (c : Char) : String :=
  if c = '<' then "&lt;"
  else if c = '>' then "&gt;"
  else if c = '&' then "&amp;"
  else if quoted && c = '"' then "&quot;"
  else if c = '\r' || (quoted && (c = '\n' || c = '\t')) || 0x80 ≤ c.toNat then "&#" ++ toString c.toNat ++ ";"
  else c.toString

def writtenText (quoted : Bool) (s : String) : String := String.join (s.toList.map (writtenChar quoted))

def writtenAttributes (attributes : List (String × String)) : String :=
  String.join (attributes.map fun a => " " ++ a.1 ++ "=\"" ++ writtenText true a.2 ++ "\"")

mutual

def writtenAt (apart : Bool) (depth : Nat) : Markup → String
  | .element tag attributes content =>
    let margin := if apart then Text.times depth "  " else ""
    let inner := apart && !content.any isText
    let rest :=
      if content.isEmpty then "/>"
      else ">" ++ (if inner then "\n" else "") ++ allWrittenAt inner (depth + 1) content ++
        (if inner then margin else "") ++ "</" ++ tag ++ ">"
    margin ++ "<" ++ tag ++ writtenAttributes attributes ++ rest ++ (if apart then "\n" else "")
  | .text s => writtenText false s
  | .remark => (if apart then Text.times depth "  " else "") ++ "<!---->" ++ (if apart then "\n" else "")

def allWrittenAt (apart : Bool) (depth : Nat) : List Markup → String
  | [] => ""
  | m :: ms => writtenAt apart depth m ++ allWrittenAt apart depth ms

end

def written (m : Markup) : String := writtenAt true 0 m

end ParallelPatterns.Markup
