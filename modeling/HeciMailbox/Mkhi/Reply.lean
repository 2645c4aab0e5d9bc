import HeciMailbox.Bytes

/-! What MKHI replies carry: firmware versions, the capability bitmap and the platform type. -/

set_option autoImplicit false

namespace HeciMailbox.Mkhi

structure Version where
  major : UInt16
  minor : UInt16
  hotfix : UInt16
  build : UInt16
  deriving DecidableEq, Repr

namespace Version

def size : Nat := 8

/-- The version at the front of `bytes`. It arrives as minor, major, build and hotfix. -/
def ofBytes? : List UInt8 → Option Version
  | n0 :: n1 :: m0 :: m1 :: b0 :: b1 :: h0 :: h1 :: _ =>
    some ⟨Bytes.half m0 m1, Bytes.half n0 n1, Bytes.half h0 h1, Bytes.half b0 b1⟩
  | _ => none

def toBytes (version : Version) : List UInt8 :=
  Bytes.ofHalf version.minor ++ Bytes.ofHalf version.major ++
    Bytes.ofHalf version.build ++ Bytes.ofHalf version.hotfix

def describe (version : Version) : String :=
  toString version.major.toNat ++ "." ++ toString version.minor.toNat ++ "." ++
    toString version.hotfix.toNat ++ "." ++ toString version.build.toNat

end Version

structure Versions where
  code : Version
  recovery : Version
  /-- Present only in images that were built with the flash image tool. -/
  fitc : Option Version
  deriving DecidableEq, Repr

structure Capabilities where
  raw : UInt32
  deriving DecidableEq, Repr

/-- Whether a capability is set; bits from 32 on never are. -/
def Capabilities.isSet (capabilities : Capabilities) (index : Nat) : Bool :=
  capabilities.raw.toNat.testBit index

structure PlatformType where
  raw : UInt32
  deriving DecidableEq, Repr

namespace PlatformType

private def nibble (platform : PlatformType) (low : Nat) : Nat := (platform.raw.toNat >>> low) % 16

def usage (platform : PlatformType) : Nat := platform.nibble 0
def superSku (platform : PlatformType) : Bool := platform.raw.toNat.testBit 6
def image (platform : PlatformType) : Nat := platform.nibble 8
def brand (platform : PlatformType) : Nat := platform.nibble 12

end PlatformType

end HeciMailbox.Mkhi
