import BlockRuntime.Config.Document
import BlockRuntime.Dispatch.Outcome
import BlockRuntime.Dispatch.Class
import BlockRuntime.Text.Json.Parser

namespace BlockRuntime

def Weight.toJson (weight : Weight) : Json :=
  .object [("ref_time", .natural weight.refTime.toNat),
    ("proof_size", .natural weight.proofSize.toNat)]

def Weight.optionToJson : Option Weight → Json
  | some weight => weight.toJson
  | none => .null

def PerClass.toJson {α : Type} (item : α → Json) (family : PerClass α) : Json :=
  .object [("normal", item family.normal), ("operational", item family.operational),
    ("mandatory", item family.mandatory)]

def WeightLedger.toJson (ledger : WeightLedger) : Json := PerClass.toJson Weight.toJson ledger

def BlockLength.toJson (limits : BlockLength) : Json :=
  .object [("max", PerClass.toJson (fun n => .natural n.toNat) limits.max)]

def ClassLimits.toJson (limits : ClassLimits) : Json :=
  .object [("base_extrinsic", limits.baseExtrinsic.toJson),
    ("max_extrinsic", Weight.optionToJson limits.maxExtrinsic),
    ("max_total", Weight.optionToJson limits.maxTotal),
    ("reserved", Weight.optionToJson limits.reserved)]

def BlockWeights.toJson (weights : BlockWeights) : Json :=
  .object [("base_block", weights.baseBlock.toJson), ("max_block", weights.maxBlock.toJson),
    ("per_class", PerClass.toJson ClassLimits.toJson weights.perClass)]

def SpecVersions.toJson (versions : SpecVersions) : Json :=
  .object [("spec_name", .text versions.specName),
    ("spec_version", .natural versions.specVersion.toNat),
    ("transaction_version", .natural versions.transactionVersion.toNat)]

def hexToJson (bytes : Bytes) : Json := .text (Hex.encode bytes)

def Config.toJson (config : Config) : Json :=
  .object [("spec_name", .text config.specName),
    ("spec_version", .natural config.specVersion.toNat),
    ("transaction_version", .natural config.transactionVersion.toNat),
    ("genesis_hash", hexToJson config.genesisHash),
    ("block_hash_count", .natural config.blockHashCount.toNat),
    ("block_length", config.blockLength.toJson),
    ("block_weights", config.blockWeights.toJson)]

def DispatchClass.toJson : DispatchClass → Json
  | normal => .text "normal"
  | operational => .text "operational"
  | mandatory => .text "mandatory"

def DispatchClass.ofJson? (value : Json) : Option DispatchClass :=
  match value.variant? with
  | some "normal" => some normal
  | some "operational" => some operational
  | some "mandatory" => some mandatory
  | _ => none

def Fee.toJson : Fee → Json
  | paid => .text "Yes"
  | waived => .text "No"

def Fee.ofJson? (value : Json) : Option Fee :=
  match value.variant? with
  | some "Yes" => some paid
  | some "No" => some waived
  | _ => none

def Config.ofJsonText? (text : String) : Option Config :=
  (Json.parse? text).bind (Config.ofDocument? Json.form)

def Config.toJsonText (config : Config) : String := config.toJson.render

end BlockRuntime
