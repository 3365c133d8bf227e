import CheckedConfig.Format.Sha256

namespace CheckedConfig

structure Checksum where
  hex : String
  deriving DecidableEq, Repr

namespace Checksum

def of (text : String) : Checksum := ⟨Sha256.hex text.toUTF8.toList⟩

def short (c : Checksum) : String := String.ofList (c.hex.toList.take 12)

def verify (c : Checksum) (text : String) : Bool := of text == c

end Checksum

end CheckedConfig
