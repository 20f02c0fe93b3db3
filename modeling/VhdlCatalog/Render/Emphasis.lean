/-!
**Keywords in bold.**

On a terminal the keywords of a source are set in bold.  A keyword counts in any case, and only as
a whole token of ASCII letters, digits and underscores.

Main definitions:

* `VhdlCatalog.Emphasis.keywords` — the keywords;
* `VhdlCatalog.Emphasis.emphasize` — a text with its keywords in bold.
-/

set_option relaxedAutoImplicit false
set_option autoImplicit false

namespace VhdlCatalog.Emphasis

/-- Switches bold on. -/
def on : List Char := [Char.ofNat 0x1b, '[', '1', 'm']

/-- Switches bold off. -/
def off : List Char := [Char.ofNat 0x1b, '[', '0', 'm']

/-- The words that are set in bold. -/
def keywords : List String :=
  ["array", "assert", "begin", "boolean", "buffer", "constant", "downto", "end", "entity",
    "failure", "false", "function", "generic", "impure", "in", "inout", "integer", "is",
    "natural", "of", "others", "out", "package", "port", "positive", "procedure", "pure",
    "range", "record", "report", "return", "severity", "signed", "std_logic",
    "std_logic_vector", "string", "subtype", "time", "to", "true", "type", "unsigned"]

/-- `c` can begin a token. -/
def beginsToken (c : Char) : Bool := c.isAlpha || c == '_'

/-- `c` can go on a token. -/
def continuesToken (c : Char) : Bool := c.isAlphanum || c == '_'

/-- The token is a keyword, in any case. -/
def isKeyword (token : List Char) : Bool :=
  keywords.any fun k => k.toList == token.map Char.toLower

/-- A token, in bold if it is a keyword. -/
def mark (token : List Char) : List Char :=
  if isKeyword token then on ++ token ++ off else token

/-- Sets keywords in bold in a text that follows the token `token` (last character first), which may
be empty and may go on. -/
def emphasizeFrom (token : List Char) : List Char → List Char
  | [] => mark token.reverse
  | c :: cs =>
      if token.isEmpty then
        if beginsToken c then emphasizeFrom [c] cs else c :: emphasizeFrom [] cs
      else if continuesToken c then emphasizeFrom (c :: token) cs
      else mark token.reverse ++ c :: emphasizeFrom [] cs

/-- The text with its keywords in bold. -/
def emphasize (cs : List Char) : List Char := emphasizeFrom [] cs

end VhdlCatalog.Emphasis
