import MixinNaming.MixinClass
import MixinNaming.Vocabulary
/-! Putting mixin classes and injection annotations together call by call. The @Mixin declaration is
always the first annotation of the class. -/
namespace MixinNaming

structure MixinBuilder where
  draft : MixinClass
  targetTypes : List ClassLiteral
  targetNames : List String

namespace MixinBuilder

def new (name : String) : MixinBuilder := ⟨⟨name, [], [], [], []⟩, [], []⟩

def targetType (b : MixinBuilder) (c : String) : MixinBuilder :=
  { b with targetTypes := b.targetTypes ++ [.object c] }

def targetName (b : MixinBuilder) (name : String) : MixinBuilder :=
  { b with targetNames := b.targetNames ++ [name] }

def implementing (b : MixinBuilder) (interface : String) : MixinBuilder :=
  { b with draft := { b.draft with interfaces := b.draft.interfaces ++ [interface] } }

def annotate (b : MixinBuilder) (a : Annotation) : MixinBuilder :=
  { b with draft := { b.draft with annotations := b.draft.annotations ++ [a] } }

def method (b : MixinBuilder) (m : Member) : MixinBuilder :=
  { b with draft := { b.draft with methods := b.draft.methods ++ [m] } }

def field (b : MixinBuilder) (m : Member) : MixinBuilder :=
  { b with draft := { b.draft with fields := b.draft.fields ++ [m] } }

/-- The elements of the declaration; one that would be empty is left out. -/
def declaration (b : MixinBuilder) : Annotation :=
  ⟨Vocabulary.mixin,
    (if b.targetTypes = [] then [] else [("value", .array (b.targetTypes.map .type))]) ++
      (if b.targetNames = [] then [] else [("targets", .strings b.targetNames)])⟩

def build (b : MixinBuilder) : MixinClass :=
  { b.draft with annotations := b.declaration :: b.draft.annotations }

end MixinBuilder

/-- An @At at a point; further elements keep the order of the calls. -/
def Annotation.newAt (value : String) : Annotation :=
  ⟨Vocabulary.atType, [("value", .string value)]⟩

/-- A @Desc of a member name. -/
def Annotation.newDesc (name : String) : Annotation :=
  ⟨Vocabulary.descType, [("value", .string name)]⟩

def literals (descriptors : List String) : AnnotationValue :=
  .array (descriptors.map fun desc => .type ⟨desc⟩)

end MixinNaming
