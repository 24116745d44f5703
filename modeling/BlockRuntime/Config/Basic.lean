import BlockRuntime.Account
import BlockRuntime.Limits
import BlockRuntime.Text.Hex

namespace BlockRuntime

structure SpecVersions where
  specName : String
  specVersion : UInt32
  transactionVersion : UInt32
  deriving DecidableEq

structure Parameters where
  versions : SpecVersions
  genesisHash : BlockHash
  blockHashCount : UInt64
  blockLength : BlockLength
  blockWeights : BlockWeights
  deriving DecidableEq

structure Config where
  specName : String
  specVersion : UInt32
  transactionVersion : UInt32
  genesisHash : Bytes
  blockHashCount : UInt64
  blockLength : BlockLength
  blockWeights : BlockWeights
  deriving DecidableEq

inductive ConfigError where
  | invalidGenesisHash (bytes : Bytes) (cause : CodecError)
  | zeroBlockHashCount
  | normalLengthExceedsOperational (normal operational : UInt32)
  | reservedExceedsMaxTotal (c : DispatchClass)
  | extrinsicExceedsMaxTotal (c : DispatchClass)
  deriving DecidableEq

def ConfigError.message : ConfigError → String
  | invalidGenesisHash bytes _ => "genesis_hash is invalid: " ++ Hex.encode bytes
  | zeroBlockHashCount => "block_hash_count must be > 0"
  | normalLengthExceedsOperational normal operational =>
    "normal block length exceeds operational (normal=" ++ Nat.repr normal.toNat
      ++ ", operational=" ++ Nat.repr operational.toNat ++ ")"
  | reservedExceedsMaxTotal c => "reserved weight exceeds max_total for " ++ c.name
  | extrinsicExceedsMaxTotal c => "max_extrinsic exceeds max_total for " ++ c.name

namespace ClassLimits

def limitExceeds (limit : Option Weight) (weight : Weight) : Bool :=
  limit.any fun limit => limit.exceeds weight

def validate (limits : ClassLimits) (c : DispatchClass) : Except ConfigError Unit :=
  match limits.maxTotal with
  | none => .ok ()
  | some total =>
    if limitExceeds limits.reserved total then .error (.reservedExceedsMaxTotal c)
    else if limitExceeds limits.maxExtrinsic total then .error (.extrinsicExceedsMaxTotal c)
    else .ok ()

end ClassLimits

def BlockWeights.validate (weights : BlockWeights) : Except ConfigError Unit :=
  DispatchClass.all.forM fun c => (weights.get c).validate c

namespace Config

def standardBlockHashCount : UInt64 := 2400

def validate (config : Config) : Except ConfigError Parameters :=
  match BlockHash.codec.decode config.genesisHash with
  | .error cause => .error (.invalidGenesisHash config.genesisHash cause)
  | .ok genesisHash =>
    let lengths := config.blockLength.max
    if config.blockHashCount = 0 then .error .zeroBlockHashCount
    else if lengths.operational < lengths.normal then
      .error (.normalLengthExceedsOperational lengths.normal lengths.operational)
    else
      match config.blockWeights.validate with
      | .error cause => .error cause
      | .ok () => .ok {
          versions := ⟨config.specName, config.specVersion, config.transactionVersion⟩
          genesisHash := genesisHash
          blockHashCount := config.blockHashCount
          blockLength := config.blockLength
          blockWeights := config.blockWeights }

end Config

end BlockRuntime
