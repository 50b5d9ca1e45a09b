/-! Powers of the two bases that number formats use. -/
namespace MixinNaming

def twoTo (exponent : Nat) : Nat := Nat.pow 2 exponent

def tenTo (exponent : Nat) : Nat := Nat.pow 10 exponent

end MixinNaming
