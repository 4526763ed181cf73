import ExprMachine.Digest.Tree
import ExprMachine.Program.Encoding

/-!
# Fingerprints

The fingerprint of a program is the digest of its bytes. Equal programs have
equal fingerprints, and different ones differ unless two inputs of the digest
collide. This is so for any digest; the one of `Digest` is needed only for the
texts of fingerprints.
-/

namespace ExprMachine.Program

variable (p : Program)

/-- The fingerprint of a program under a digest. -/
def fingerprint (digest : List UInt8 → List UInt8) : List UInt8 := digest p.encoding

/-- The fingerprint in hexadecimal, of 32 bytes. -/
def fingerprintText : String := Digest.hex (p.fingerprint Digest.digest)

/-- The first six bytes of the fingerprint in hexadecimal. -/
def shortFingerprint : String := Digest.hex ((p.fingerprint Digest.digest).take 6)

end ExprMachine.Program
