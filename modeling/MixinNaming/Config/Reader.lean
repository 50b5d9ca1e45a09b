import MixinNaming.Config.Basic
import MixinNaming.Text.Span
import MixinNaming.Toml.Reader
/-! Settings as a TOML document states them. Every section and key may be left out and unknown ones
are ignored. Interfaces are allowed by internal name; dots are taken for slashes. -/
namespace MixinNaming

inductive ConfigError where
  | malformed
  | invalidInterface (entry : String)
  deriving DecidableEq, Repr

def configFileName : String := ".mixin-remap.toml"

def ConfigError.message : ConfigError → String
  | .malformed => "Failed to parse " ++ configFileName
  | .invalidInterface entry =>
    "Invalid configuration: interfaces.allow entry '" ++ entry ++
      "' must be an internal class name such as com/example/Api"

namespace Config

/-- The values of the known keys of a section, which may also be written as a list in order. What
stands under other keys only has to have a value; more items of a list not even that. A date stands
for a section without any of the keys. -/
def sectionValues (keys : List String) : Toml → Option (List (Option Toml))
  | .table fields =>
    if Toml.fieldsHaveValue (fields.filter fun field => !keys.contains field.1) then
      some (keys.map fun key => fields.lookup key)
    else none
  | .list items => some (keys.mapIdx fun i _ => items[i]?)
  | .date => some (keys.map fun _ => none)
  | _ => none

def setting {α : Type} (default : α) (read : Toml → Option α) : Option Toml → Option α
  | none => some default
  | some v => read v

/-- A choice is a word, or a table or list that holds nothing under that word. -/
def readChoice : Toml → Option MissingFeatures
  | .text word => MissingFeatures.ofWord? word
  | .table [(word, .table [])] => MissingFeatures.ofWord? word
  | .table [(word, .list [])] => MissingFeatures.ofWord? word
  | _ => none

def readDiagnostics (v : Toml) : Option MissingFeatures := do
  match ← sectionValues ["missing_features"] v with
  | [mode] => setting .fail readChoice mode
  | _ => none

def readTruth : Toml → Option Bool
  | .truth b => some b
  | _ => none

def readText : Toml → Option String
  | .text s => some s
  | _ => none

def readTexts : Toml → Option (List String)
  | .list items => items.mapM readText
  | _ => none

def readInterfaces (v : Toml) : Option InterfaceSettings := do
  match ← sectionValues ["forbid_member_renames", "allow"] v with
  | [forbid, allow] => return ⟨← setting true readTruth forbid, ← setting [] readTexts allow⟩
  | _ => none

def ofToml (v : Toml) : Option Config := do
  match ← sectionValues ["diagnostics", "interfaces"] v with
  | [diagnostics, interfaces] =>
    return ⟨← setting .fail readDiagnostics diagnostics,
      ← setting ⟨true, []⟩ readInterfaces interfaces⟩
  | _ => none

/-- An entry that is empty or spelled as a descriptor names no class. -/
def isClassEntry (entry : String) : Bool :=
  let cs := entry.toList
  cs ≠ [] && !(cs.head? == some 'L' && cs.getLast? == some ';')

def normalizeEntry (entry : String) : Except ConfigError String :=
  if isClassEntry entry then .ok (Text.slashed entry) else .error (.invalidInterface entry)

def parse (text : String) : Except ConfigError Config :=
  match (Toml.read text).bind ofToml with
  | none => .error .malformed
  | some c => do
    let allow ← c.interfaces.allow.mapM normalizeEntry
    return { c with interfaces := { c.interfaces with allow } }

def renderTruth (b : Bool) : String := if b then "true" else "false"

/-- The document that a new configuration file starts as. -/
def defaultText : String :=
  "# mixin-remap configuration\n\n[diagnostics]\nmissing_features = \"" ++
    default.missingFeatures.word ++ "\"\n\n[interfaces]\nforbid_member_renames = " ++
    renderTruth default.interfaces.forbidMemberRenames ++ "\nallow = []\n"

end Config

end MixinNaming
