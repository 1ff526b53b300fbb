/-
Plain scalars: words without quotation marks, up to a comment, to a colon
that ends a name, to a mark of the brackets around them, or to a line that
is not indented deeper than the block. Their lines fold as in quotation
marks.

The mark of a document ends a scalar only where it could stand, at the very
start of a line; further right it is a word like any other.
-/
import Metrograph.Yaml.Quoted

namespace Metrograph.Yaml

/-- Whether a character belongs to a plain scalar: all do but a colon that is
set off from what follows and, in brackets, their marks. -/
def isPlain (flow : Bool) (c : Char) (rest : List Char) : Bool :=
  if c = ':' then !(endsToken rest || (flow && rest.head?.any isFlowMark))
  else !(flow && isFlowMark c)

/-- Whether a dash stands before a mark of the brackets around it. -/
def isBareDash (flow : Bool) (c : Char) (rest : List Char) : Bool :=
  flow && c == '-' && rest.head?.any isFlowMark

/-- The characters of a plain scalar; `lane` says what may still stand on the
line, and `gap` what stands since the last word. -/
def plainFrom (flow : Bool) (least : Int) :
    Lane → Gap → Place → List Char → Option (List Char × Cursor)
  | _, _, p, [] => some ([], ⟨p, []⟩)
  | .comment, gap, p, c :: rest =>
    if c = '\n' then plainFrom flow least .anything gap p.afterBreak rest
    else plainFrom flow least .comment gap p.afterMark rest
  | lane, gap, p, c :: rest =>
    if c = '\n' then plainFrom flow least .anything gap.addBreak p.afterBreak rest
    else if isBlank c then
      let barred := c == '\t' && p.fresh && p.isLeftOf least
      plainFrom flow least (if barred then .nothing else lane) (gap.addBlank c) p.afterBlank rest
    else match lane, gap with
      | .nothing, _ =>
        if c = '#' then plainFrom flow least .comment gap p.afterMark rest else none
      | _, .none =>
        if isPlain flow c rest then
          (plainFrom flow least .anything .none p.afterMark rest).map fun (cs, after) =>
            (c :: cs, after)
        else some ([], ⟨p, c :: rest⟩)
      | _, gap =>
        if (!flow && p.isLeftOf least) || (p.column == 0 && isDocumentMark (c :: rest)) ||
            c == '#' then
          some ([], ⟨p, c :: rest⟩)
        else if isBareDash flow c rest then none
        else if isPlain flow c rest then
          (plainFrom flow least .anything .none p.afterMark rest).map fun (cs, after) =>
            (gap.text ++ c :: cs, after)
        else some ([], ⟨p, c :: rest⟩)

/-- Takes a plain scalar off in a block at column `indent`; a scalar takes at
least one character. -/
def plain (flow : Bool) (indent : Int) (c : Cursor) : Option (String × Cursor) :=
  let least := indent + 1
  match c.rest with
  | [] => none
  | first :: rest =>
    if (flow && (c.place.isLeftOf least || isBareDash flow first rest)) ||
        !isPlain flow first rest then none
    else (plainFrom flow least .anything .none c.place c.rest).map fun (cs, after) =>
      (String.ofList cs, after)

end Metrograph.Yaml
