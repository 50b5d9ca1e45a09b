import MixinNaming.Toml.Date
import MixinNaming.Toml.Numeral
/-! Values that are neither texts nor in brackets: truth values, numbers and dates. -/
namespace MixinNaming.Toml

/-- Brackets, commas, equals signs, comments, blanks and line breaks end a scalar. -/
def isScalarChar (c : Char) : Bool := !"=,[]\x7b\x7d# \t\r\n".toList.contains c

/-- Whether a scalar goes on after blanks, as a time does after its date. -/
def resumes (cs : List Char) : Bool :=
  (skipBlanks cs).head?.any fun c => isScalarChar c && !".'\"".toList.contains c

def takeScalar : List Char → List Char × List Char
  | [] => ([], [])
  | c :: rest =>
    if isScalarChar c || (isBlank c && resumes rest) then
      let (word, rest) := takeScalar rest
      (c :: word, rest)
    else ([], c :: rest)

def readScalar (cs : List Char) : Option (Toml × List Char) :=
  let (word, rest) := takeScalar cs
  if word = "true".toList then some (.truth true, rest)
  else if word = "false".toList then some (.truth false, rest)
  else if isDateTime word then some (.date, rest)
  else (numeral? word).map fun hasValue => (.number hasValue, rest)

end MixinNaming.Toml
