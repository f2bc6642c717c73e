import GroupPlan.Rdf.Term

/-! The text of terms and triple patterns. In the value of a literal quotes, backslashes
and the control characters of ASCII are escaped, those with a letter of their own by that
letter and the others by four hexadecimal digits; every other character stands for
itself. -/

namespace GroupPlan.Rdf

namespace Quoted

def hexDigit (n : Nat) : Char := (Nat.digitChar n).toUpper

def hexDigits (n : Nat) : List Char :=
  [hexDigit (n / 4096 % 16), hexDigit (n / 256 % 16), hexDigit (n / 16 % 16), hexDigit (n % 16)]

def isControl (c : Char) : Bool := c.toNat < 32 || c.toNat = 127

def escape (c : Char) : List Char :=
  if c = '\x08' then ['\\', 'b']
  else if c = '\t' then ['\\', 't']
  else if c = '\n' then ['\\', 'n']
  else if c = '\x0c' then ['\\', 'f']
  else if c = '\r' then ['\\', 'r']
  else if c = '"' then ['\\', '"']
  else if c = '\\' then ['\\', '\\']
  else if isControl c then '\\' :: 'u' :: hexDigits c.toNat
  else [c]

def quote (s : String) : String :=
  String.ofList ('"' :: (s.toList.flatMap escape ++ ['"']))

end Quoted

def Variable.render (v : Variable) : String := "?" ++ v.name

def Iri.render (i : Iri) : String := "<" ++ i.value ++ ">"

def BlankNode.render (b : BlankNode) : String := "_:" ++ b.id

def Literal.render : Literal → String
  | simple value => Quoted.quote value
  | tagged value tag => Quoted.quote value ++ "@" ++ tag
  | typed value datatype => Quoted.quote value ++ "^^" ++ datatype.render

def Term.render : Term → String
  | var v => v.render
  | iri i => i.render
  | blank b => b.render
  | literal l => l.render

def Predicate.render : Predicate → String
  | var v => v.render
  | iri i => i.render

def TriplePattern.render (t : TriplePattern) : String :=
  t.subject.render ++ " " ++ t.predicate.render ++ " " ++ t.object.render

instance : ToString TriplePattern := ⟨TriplePattern.render⟩

end GroupPlan.Rdf
