import VhdlCatalog.Text.Blank

/-!
**Spellings of paths.**

Two spellings of a path that differ in doubled slashes, in `.` or in `name/..` are taken to name
one file.

Main definitions:

* `VhdlCatalog.Path.components` — the parts between slashes;
* `VhdlCatalog.Path.normalize` — the one spelling that stands for all.
-/

set_option relaxedAutoImplicit false
set_option autoImplicit false

namespace VhdlCatalog.Path

/-- The parts of a path between slashes, without the empty ones. -/
def components (path : List Char) : List (List Char) :=
  (Text.pieces (· == '/') path).filter fun part => !part.isEmpty

/-- How many slashes the normal spelling begins with.  Two are kept as two, three and more are
like one. -/
def leadingSlashes (path : List Char) : Nat :=
  match (path.takeWhile (· == '/')).length with
  | 0 => 0
  | 2 => 2
  | _ => 1

/-- One more component after those of `stack`, last one first.  `..` takes back the component
before it; where there is none it is kept, unless the path starts at the root. -/
def pushComponent (rooted : Bool) (stack : List (List Char)) (part : List Char) :
    List (List Char) :=
  if part = ['.'] then stack
  else if part = ['.', '.'] then
    match stack with
    | [] => if rooted then [] else [part]
    | top :: below => if top = ['.', '.'] then part :: stack else below
  else part :: stack

/-- The normal spelling of a path. -/
def normalizeChars (path : List Char) : List Char :=
  let slashes := leadingSlashes path
  let stack := (components path).foldl (pushComponent (slashes != 0)) []
  let spelled := List.replicate slashes '/' ++ Text.join ['/'] stack.reverse
  if spelled.isEmpty then ['.'] else spelled

/-- The normal spelling of a path. -/
def normalize (path : String) : String := String.ofList (normalizeChars path.toList)

end VhdlCatalog.Path
