import CtapEnroll.Sha256
/-!
# HMAC

Message authentication with SHA-256, as in RFC 2104.
-/

namespace CtapEnroll.Hmac

def blockLength : Nat := 64

/-- A key as one block: hashed if it is longer, then filled up with zeros. -/
def block (key : Bytes) : Bytes :=
  let key := if key.length > blockLength then Sha256.hash key else key
  key ++ List.replicate (blockLength - key.length) 0

def sign (key message : Bytes) : Bytes :=
  let inner := Sha256.hash ((block key).map (· ^^^ 0x36) ++ message)
  Sha256.hash ((block key).map (· ^^^ 0x5c) ++ inner)

@[simp] theorem length_sign (key message : Bytes) : (sign key message).length = 32 :=
  Sha256.length_hash _

end CtapEnroll.Hmac
