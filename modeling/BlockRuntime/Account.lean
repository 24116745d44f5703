import BlockRuntime.Codec.Basic

namespace BlockRuntime

structure BlockHash where
  bytes : FixedBytes 32
  deriving DecidableEq

namespace BlockHash

def codec : Codec BlockHash := (Codec.fixedBytes 32).through BlockHash.mk BlockHash.bytes

def zero : BlockHash := ⟨FixedBytes.replicate 32 0⟩

instance : Inhabited BlockHash := ⟨zero⟩

end BlockHash

structure AccountId where
  bytes : FixedBytes 32
  deriving DecidableEq

namespace AccountId

def isZero (id : AccountId) : Bool := id.bytes.toBytes.all (· == 0)

def codec : Codec AccountId := (Codec.fixedBytes 32).through AccountId.mk AccountId.bytes

end AccountId

structure AccountRecord where
  nonce : UInt64
  consumers : UInt32
  providers : UInt32
  sufficients : UInt32
  deriving DecidableEq

namespace AccountRecord

def fresh : AccountRecord := ⟨0, 0, 0, 0⟩

instance : Inhabited AccountRecord := ⟨fresh⟩

def codec : Codec AccountRecord :=
  (Codec.u64.pair (Codec.u32.pair (Codec.u32.pair Codec.u32))).through
    (fun parts => ⟨parts.1, parts.2.1, parts.2.2.1, parts.2.2.2⟩)
    (fun record => (record.nonce, record.consumers, record.providers, record.sufficients))

end AccountRecord

end BlockRuntime
