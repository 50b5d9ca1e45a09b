import MixinNaming.InjectionPoint
import MixinNaming.Member
/-! What can be wrong with a mixin. A violation makes the mixin invalid whatever the policy; a gap
is something that no rule interprets, and the policy decides whether it stops the run. Both know
where they were met: a location that opens the text. -/
namespace MixinNaming

def selectorAdvice : String :=
  "Potential ways of resolving this issue include:\n" ++
    "\t1. Splitting the mixin class so that each target class has its own mixin.\n" ++
    "\t2. Using a fully qualified target selector (L<owner>;<name><descriptor>).\n" ++
    "\t3. Using @Desc, optionally with an explicit owner, instead of a selector string."

def tornDescAdvice : String :=
  "Following steps can be taken to mitigate this issue:\n" ++
    "\t1. Only define a single @Mixin.targets/@Mixin.value per mixin class.\n" ++
    "\t2. Explicitly define @Desc.owner for this @Desc annotation (and if necessary separate a " ++
    "single @Desc into multiple @Desc annotations).\n" ++
    "\t3. Validate the name hierarchy used to remap the @Desc, ensuring that no two classes " ++
    "define different names for the same member."

def constantAdvice : String :=
  "Following approaches towards resolving the issue exist:\n" ++
    "\t1. Specify exactly one key=value entry in the 'args' element of the @At annotation.\n" ++
    "\t2. Check that no whitespace surrounds the equals sign."

def absentValueCause : String :=
  "This error is usually caused by improperly written ASM transformers generating the mixin " ++
    "improperly."

/-- A structural fault of the mixin. A handler is named by its location text. -/
inductive Violation where
  | mixedSelector
  | selectorOwner (owner selector : String)
  | selectorName (name selector : String)
  | selectorFieldType (selector : String)
  | descriptor (error : DescriptorError)
  | selectorKind (kind : String)
  | tornSelector (text first second : String) (candidates : List MemberRef)
  | notDesc (found : String)
  | descValueKind (kind : String)
  | descWithoutValue
  | descLiteral (element kind : String)
  | descOwner (owner : String)
  | tornDesc (first second name desc : String)
  | descWithoutOwner
  | notAt (found : String)
  | atValueKind (kind : String)
  | atWithoutValue
  | atTargetKind
  | atDescKind
  | atArgumentsKind
  | redundantArguments (point : InjectionPoint)
  | constantWithoutArguments
  | constantRepeated
  | constantKey (key : String)
  | constantMissing
  | constantDescriptor (value : String)
  | constantDots (value : String)
  | notSlice (found : String)
  | sliceBoundaryKind (element : String)
  | handlerArray (element handler : String)
  | handlerElementKind (element handler kind : String)
  | handlerWithoutCallback (handler callback callbackReturnable : String)
  | conflictingAnnotations (member : MemberRef) (first second : String)
  | shadowLeadKind (member : MemberRef)
  | aliasesKind (label : String) (member : MemberRef)
  | disjointNames (member : MemberRef) (label name first second : String)
  | protectedInterface (member : MemberRef) (label interface : String)
  | mixinValueKind (mixin kind : String)
  | mixinTarget (mixin target : String)
  | mixinTargetNames (mixin : String)
  | stated (text : String)
  deriving DecidableEq, Repr

def Violation.message : Violation → String
  | .mixedSelector =>
    "The usage of the colon (':') indicates a field string, but the target selector contains a " ++
      "'(', which is an illegal character within field selectors."
  | .selectorOwner owner selector =>
    "Malformed owner '" ++ owner ++ "' in target selector '" ++ selector ++
      "'; an owner is written as L<internal name>;"
  | .selectorName name selector =>
    "Malformed member name '" ++ name ++ "' in target selector '" ++ selector ++ "'"
  | .selectorFieldType selector =>
    "The target selector '" ++ selector ++
      "' declares a field but no field descriptor follows the colon"
  | .descriptor e => "Malformed descriptor: " ++ e.message
  | .selectorKind kind =>
    "Expected a target selector string or @Desc annotation, found a " ++ kind ++ " value"
  | .tornSelector text first second candidates =>
    "Torn target selector '" ++ text ++
      "': the candidate members map to different members in the target namespace (" ++ first ++
      " and " ++ second ++
      "), so the selector cannot be renamed without knowing which member is targeted. " ++
      selectorAdvice ++ "\nList of all candidate references: " ++ MemberRef.renderList candidates
  | .notDesc found => "Invalid annotation descriptor: " ++ found
  | .descValueKind kind => "@Desc.value must be a string, found a " ++ kind ++ " value"
  | .descWithoutValue =>
    "The @Desc annotation is missing the required element 'value'. " ++ absentValueCause
  | .descLiteral element kind =>
    "@Desc." ++ element ++ " must be a class literal, found a " ++ kind ++ " value"
  | .descOwner owner => "@Desc.owner " ++ owner ++ " is not a class reference"
  | .tornDesc first second name desc =>
    "Torn @Desc: multiple potential owners define multiple potential names (" ++ first ++ " and " ++
      second ++ ") for " ++ name ++ desc ++ ". " ++ tornDescAdvice
  | .descWithoutOwner =>
    "No owners exist that would influence this @Desc (did you forget specifying a target in the " ++
      "@Mixin annotation?)."
  | .notAt found => "Expected an @At annotation, found " ++ found
  | .atValueKind kind => "@At.value must be a string, found a " ++ kind ++ " value"
  | .atWithoutValue =>
    "The annotation is missing the required element 'value'. " ++ absentValueCause
  | .atTargetKind => "@At.target must be a string"
  | .atDescKind => "@At.desc must be a @Desc annotation"
  | .atArgumentsKind => "@At.args must be an array of strings"
  | .redundantArguments point =>
    "The " ++ point.shortName ++
      " @At injection point selector does not expect an args argument, but the redundant " ++
      "discriminator was specified. Drop the 'args' element in the @At annotation."
  | .constantWithoutArguments =>
    "The CONSTANT @At injection point selector requires an args argument, but the discriminator " ++
      "was not specified. " ++ constantAdvice
  | .constantRepeated =>
    "The CONSTANT @At injection point selector requires a single args entry, but the " ++
      "discriminator specifies multiple of them. " ++ constantAdvice
  | .constantKey key =>
    "Unknown CONSTANT @At injection point key: '" ++ key ++
      "'. Note: whitespace is not allowed on either side of the equals sign."
  | .constantMissing =>
    "Cannot find any constant values in @At(\"CONSTANT\") args. An example would be " ++
      "@At(value = \"CONSTANT\", args = \x7b\"intValue=5\"\x7d). " ++ constantAdvice
  | .constantDescriptor value =>
    "Illegal class descriptor '" ++ value ++
      "' for CONSTANT @At injection point argument. A class descriptor is formatted as follows: " ++
      "L<internalName>;."
  | .constantDots value =>
    "Illegal class descriptor '" ++ value ++
      "' for CONSTANT @At injection point argument. Packages within internal names are " ++
      "separated using forward slashes ('/') and not dots ('.')."
  | .notSlice found => "Expected a @Slice annotation, found " ++ found
  | .sliceBoundaryKind element => "@Slice." ++ element ++ " must be an @At annotation"
  | .handlerArray element handler =>
    "Element '" ++ element ++ "' of " ++ handler ++
      " takes a single target selector, not an array"
  | .handlerElementKind element handler kind =>
    "Element '" ++ element ++ "' of " ++ handler ++ " must hold annotations, found a " ++ kind ++
      " value"
  | .handlerWithoutCallback handler callback callbackReturnable =>
    "Annotated " ++ handler ++ " lacks type argument " ++ callback ++ " or " ++ callbackReturnable
  | .conflictingAnnotations member first second =>
    "Illegal mixin " ++ member.noun ++ " " ++ member.render ++ ": The mixin " ++ member.noun ++
      " is annotated with two or more incompatible annotations: " ++ first ++ " and " ++ second
  | .shadowLeadKind member => "@Shadow.prefix of " ++ member.render ++ " must be a string"
  | .aliasesKind label member =>
    label ++ ".aliases of " ++ member.render ++ " must be an array of strings"
  | .disjointNames member label name first second =>
    "Disjoint mapping names while trying to remap " ++
      (if name = member.name then "the name" else "'" ++ name ++ "'") ++ " of " ++ label ++
      "-annotated " ++ member.noun ++ ": " ++ member.render ++ " (mapped to both " ++ first ++
      " and " ++ second ++
      "). This is likely caused by different target classes having different names for the same " ++
      "member. Potential ways of resolving this issue include:\n" ++
      "\t1. Splitting the mixin class so that each target class has its own mixin.\n" ++
      "\t2. Using an " ++ (if member.isMethod then "@Invoker" else "@Accessor") ++
      " instead (not supported by this remapper)."
  | .protectedInterface member label interface =>
    "Attempt to " ++ label ++ " method " ++ member.render ++
      " which is provided by the interface " ++ interface ++
      ". The interface does not allow remapping its members. Potential ways of " ++
      "resolving this issue include:\n" ++
      "\t1. Rename the method in the interface or alter its descriptor.\n" ++
      "\t2. Do not implement the interface in the mixin.\n" ++
      "\t3. Use @Unique with silent = true.\n" ++
      "\t4. Allow renames for " ++ interface ++ " in the [interfaces] section of the configuration."
  | .mixinValueKind mixin kind =>
    "Mixin class " ++ mixin ++ " declares a " ++ kind ++
      " value in @Mixin.value where a class literal is expected"
  | .mixinTarget mixin target =>
    "Mixin class " ++ mixin ++ " targets type " ++ target ++
      ", which is not an L-type reference (arrays and primitives cannot be transformed and are " ++
      "illegal targets for mixins!)"
  | .mixinTargetNames mixin =>
    "Mixin class " ++ mixin ++ " declares a non-string entry in @Mixin.targets"
  | .stated text => text

/-- Something in the mixin that no rule interprets. -/
inductive Feature where
  | unresolvedSelector (text : String) (known : List (String × List MemberRef))
  | descElement (name : String)
  | descFieldType
  | atElement (name : String)
  | injectionPoint (value : String)
  | fieldDiscriminator (entry : String)
  | sliceElement (name : String)
  | handlerElement (desc name handler : String)
  | unknownOnClass (mixin desc : String)
  | mixinElement (name mixin : String)
  | unknownOnMember (member : MemberRef) (desc : String)
  | shadowElement (name : String) (member : MemberRef)
  | shadowedMember (member : MemberRef) (shadowed : String)
  | overwriteElement (name : String) (member : MemberRef)
  | uniqueElement (name : String) (member : MemberRef)
  | stated (text : String)
  deriving DecidableEq, Repr

def knownMembers (known : String × List MemberRef) : String :=
  "\nKnown members of " ++ known.1 ++ ": " ++ MemberRef.renderList known.2

def Feature.message : Feature → String
  | .unresolvedSelector text known =>
    "The target selector '" ++ text ++
      "' is not fully qualified (it lacks an owner, a name, a descriptor or a combination " ++
      "thereof) and no single member could be inferred for it. " ++ selectorAdvice ++
      String.join (known.map knownMembers)
  | .descElement name => "Unimplemented key in @Desc: " ++ name
  | .descFieldType =>
    "The @Desc annotation is expected to match a field, but has not explicitly set the field " ++
      "descriptor using ret."
  | .atElement name => "Unimplemented key in @At: " ++ name
  | .injectionPoint value => "Unknown @At injection point selector value: " ++ value
  | .fieldDiscriminator entry => "Unimplemented FIELD @At discriminator: '" ++ entry ++ "'"
  | .sliceElement name => "Unimplemented key in @Slice: " ++ name
  | .handlerElement desc name handler =>
    "Unimplemented key in " ++ desc ++ ": " ++ name ++ " within " ++ handler
  | .unknownOnClass mixin desc =>
    "Unknown annotation at class level for node " ++ mixin ++ ": " ++ desc
  | .mixinElement name mixin => "Unimplemented key in @Mixin: " ++ name ++ " within node " ++ mixin
  | .unknownOnMember member desc =>
    "Unknown mixin annotation on " ++ member.noun ++ " " ++ member.render ++ ": " ++ desc
  | .shadowElement name member =>
    "Unimplemented key in @Shadow: " ++ name ++ " within " ++ member.render
  | .shadowedMember member shadowed =>
    "@Shadow-annotated " ++ member.noun ++ " " ++ member.render ++ " shadows " ++ shadowed ++
      ", but no target class hierarchy declares such a member"
  | .overwriteElement name member =>
    "Unimplemented key in @Overwrite: " ++ name ++ " within " ++ member.render
  | .uniqueElement name member =>
    "Unimplemented key in @Unique: " ++ name ++ " within " ++ member.render
  | .stated text => text

structure Gap where
  location : String
  feature : Feature
  deriving DecidableEq, Repr

def Gap.description (g : Gap) : String := g.location ++ g.feature.message

/-- Why a run stopped. -/
inductive Fault where
  | illegal (location : String) (violation : Violation)
  | missing (gap : Gap)
  deriving DecidableEq, Repr

namespace Fault

/-- Whether the mixin itself is invalid, whatever the policy. -/
def isStructural : Fault → Bool
  | .illegal _ _ => true
  | .missing _ => false

def message : Fault → String
  | .illegal location violation => location ++ violation.message
  | .missing gap => gap.description

/-- The message after the name of its category. -/
def render (f : Fault) : String :=
  (if f.isStructural then "Illegal mixin: " else "Missing feature: ") ++ f.message

/-- The same fault, met inside a further location. -/
def within (location : String) : Fault → Fault
  | .illegal inner violation => .illegal (location ++ inner) violation
  | .missing gap => .missing { gap with location := location ++ gap.location }

end Fault

end MixinNaming
