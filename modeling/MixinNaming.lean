import MixinNaming.Builder
import MixinNaming.Main
import MixinNaming.Proofs.Accord
import MixinNaming.Proofs.Config.Search
import MixinNaming.Proofs.Coupling.Injection
import MixinNaming.Proofs.Declaration.Targets
import MixinNaming.Proofs.Desc.Arguments
import MixinNaming.Proofs.Desc.Owners
import MixinNaming.Proofs.Desc.Renaming
import MixinNaming.Proofs.Descriptor.Grammar
import MixinNaming.Proofs.Descriptor.Offence
import MixinNaming.Proofs.Descriptor.Parts
import MixinNaming.Proofs.Descriptor.Splitting
import MixinNaming.Proofs.Descriptor.Stops
import MixinNaming.Proofs.Effect.ClassPass
import MixinNaming.Proofs.Effect.Shadow
import MixinNaming.Proofs.ElementOrder.Members
import MixinNaming.Proofs.FirstGap
import MixinNaming.Proofs.Frame.ClassPass
import MixinNaming.Proofs.Frame.ToleratedGaps
import MixinNaming.Proofs.Handler.Callback
import MixinNaming.Proofs.Handler.ImplicitTarget
import MixinNaming.Proofs.Hierarchy.Reachability
import MixinNaming.Proofs.Hierarchy.Relevance
import MixinNaming.Proofs.Hierarchy.Termination
import MixinNaming.Proofs.Idempotence.ClassPass
import MixinNaming.Proofs.Locality.ClassPass
import MixinNaming.Proofs.LoneValue
import MixinNaming.Proofs.MappingFile
import MixinNaming.Proofs.Member.Dispatch
import MixinNaming.Proofs.Qualified.ClassPass
import MixinNaming.Proofs.Qualified.Composition
import MixinNaming.Proofs.Selector.Grammar
import MixinNaming.Proofs.Selector.Inference
import MixinNaming.Proofs.Spelling
import MixinNaming.Proofs.TargetOrder.ClassPass
import MixinNaming.Workbench
