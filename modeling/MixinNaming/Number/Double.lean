import MixinNaming.Number.Power
/-! A 64-bit floating point number, told apart by its bits: the two zeros differ. Values of this
kind are only read, kept and written. -/
namespace MixinNaming

structure Double where
  bits : UInt64
  deriving DecidableEq, Repr

def Double.ofFloat (x : Float) : Double := ⟨x.toBits⟩

/-- The sign, the biased exponent and the fraction of the binary64 format. -/
def Double.negative (d : Double) : Bool := d.bits ≥ 0x8000000000000000

def Double.biasedExponent (d : Double) : Nat := d.bits.toNat / twoTo 52 % twoTo 11

def Double.fraction (d : Double) : Nat := d.bits.toNat % twoTo 52

def Double.IsFinite (d : Double) : Prop := d.biasedExponent ≠ 2047

instance (d : Double) : Decidable d.IsFinite := inferInstanceAs (Decidable (_ ≠ _))

end MixinNaming
