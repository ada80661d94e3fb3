/-
PixelTurtle.Instruction.Packed — a target as one signed 64 bit integer.

A line stands for itself and an exit status `s` for `-s - 1`, so the sign
tells the two apart.
-/
import PixelTurtle.Instruction

namespace PixelTurtle.Target

/-- The integer form of a target. A line of 2^63 or more wraps around. -/
def pack : Target → Int64
  | jump line => Int64.ofNat line
  | exit status => -(Int64.ofNat status.toNat) - 1

/-- The target an integer stands for. There is none for an integer whose
exit status would need more than 32 bits. -/
def ofPacked? (packed : Int64) : Option Target :=
  if 0 ≤ packed then some (jump packed.toNatClampNeg)
  else
    let status := (-(packed + 1)).toNatClampNeg
    if status < UInt32.size then some (exit (UInt32.ofNat status)) else none

end PixelTurtle.Target
