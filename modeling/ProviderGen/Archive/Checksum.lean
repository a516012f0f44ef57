/-!
The cyclic redundancy check of 32 bits that archives carry, with the polynomial taken from its
lowest bit.
-/

namespace ProviderGen.Archive

def polynomial : UInt32 := 0xedb88320

def shiftBit (r : UInt32) : UInt32 :=
  if r &&& 1 = 1 then (r >>> 1) ^^^ polynomial else r >>> 1

def shiftByte (r : UInt32) (x : UInt8) : UInt32 :=
  Nat.repeat shiftBit 8 (r ^^^ x.toUInt32)

def checksum (bytes : ByteArray) : UInt32 :=
  bytes.foldl shiftByte 0xffffffff ^^^ 0xffffffff

end ProviderGen.Archive
