set_option autoImplicit false

/-!
The ranges of machine words of 64 bits.
-/

namespace VibeLens.Word

def size : Nat := 0x10000000000000000

def half : Nat := 0x8000000000000000

def isSigned (n : Int) : Bool := -(half : Int) ≤ n && n < half

def isSignedOrUnsigned (n : Int) : Bool := -(half : Int) ≤ n && n < size

theorem isSignedOrUnsigned_natCast {n : Nat} :
    isSignedOrUnsigned (n : Int) ↔ n < size := by
  simp only [isSignedOrUnsigned, Bool.and_eq_true, decide_eq_true_eq]
  omega

end VibeLens.Word
