import ScimLdap.Ldap.Escape

/-!
# Search filters

The filters of RFC 4515 that this library writes. The text is fully parenthesized with the sign in front, so
it follows the tree and needs no precedence. Values are written with escapes; a numeral is written as it
stands, which is the same thing for the numerals that a filter text can hold.
-/

namespace ScimLdap.Ldap

/-- What an attribute is compared with. The two are written differently, and a numeral needs no escape. -/
inductive Value where
  | text (s : String)
  | numeral (lexeme : String)
  deriving DecidableEq, Repr, Inhabited

namespace Value

def raw : Value → String
  | text s => s
  | numeral lexeme => lexeme

def render : Value → String
  | text s => escape s
  | numeral lexeme => lexeme

end Value

inductive Part where
  | initial
  | any
  | final
  deriving DecidableEq, Repr, Inhabited

inductive SearchFilter where
  | and (filters : List SearchFilter)
  | or (filters : List SearchFilter)
  | not (filter : SearchFilter)
  | present (name : String)
  | equal (name : String) (value : Value)
  | atLeast (name : String) (value : Value)
  | atMost (name : String) (value : Value)
  | substring (name : String) (part : Part) (value : Value)
  deriving Repr, Inhabited

namespace SearchFilter

def withStars (part : Part) (value : String) : String :=
  match part with
  | .initial => value ++ "*"
  | .any => "*" ++ value ++ "*"
  | .final => "*" ++ value

mutual

def render : SearchFilter → String
  | and filters => "(&" ++ renderAll filters ++ ")"
  | or filters => "(|" ++ renderAll filters ++ ")"
  | not filter => "(!" ++ render filter ++ ")"
  | present name => "(" ++ name ++ "=*)"
  | equal name value => "(" ++ name ++ "=" ++ value.render ++ ")"
  | atLeast name value => "(" ++ name ++ ">=" ++ value.render ++ ")"
  | atMost name value => "(" ++ name ++ "<=" ++ value.render ++ ")"
  | substring name part value => "(" ++ name ++ "=" ++ withStars part value.render ++ ")"

def renderAll : List SearchFilter → String
  | [] => ""
  | f :: fs => render f ++ renderAll fs

end

/-- Neither equal nor less. The directory has no strict order, so equality is taken out. -/
def greater (name : String) (value : Value) : SearchFilter :=
  and [atLeast name value, not (equal name value)]

def less (name : String) (value : Value) : SearchFilter :=
  and [atMost name value, not (equal name value)]

/-- A part looked for in the values of an attribute. Every value has the empty part, and a filter has no way to
    write one, so the attribute need only be present. -/
def holding (name : String) (part : Part) (value : Value) : SearchFilter :=
  if value.raw.isEmpty then present name else substring name part value

end SearchFilter

end ScimLdap.Ldap
