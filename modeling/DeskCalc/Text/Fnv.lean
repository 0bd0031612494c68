/-!
# The FNV-1a hash

The 64-bit hash FNV-1a: each byte is mixed in by an exclusive or and then spread by a
multiplication. It sees only the bytes in their order, so two texts one after the other hash like
their concatenation, wherever the border between them is.
-/

namespace DeskCalc

/-- The hash of some bytes. -/
def fnv (bytes : List UInt8) : UInt64 :=
  bytes.foldl (fun hash b => (hash ^^^ b.toUInt64) * 0x100000001B3) 0xCBF29CE484222325

end DeskCalc
