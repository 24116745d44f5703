import BlockRuntime.Config.Json
import BlockRuntime.Proofs.Text.Members
import BlockRuntime.Proofs.Text.Render

namespace BlockRuntime

open DocumentForm

namespace Json

variable {α : Type}

structure Lossless (write : α → Json) (read : Json → Option α) : Prop where
  readable : ∀ a, (write a).Readable
  reads : ∀ a, read (write a) = some a

theorem Lossless.parse {write : α → Json} {read : Json → Option α} (h : Lossless write read) (a : α) :
    (parse? (write a).render).bind read = some a := by
  rw [parse?_render (h.readable a), Option.bind_some, h.reads a]

theorem lossless_u32 : Lossless (fun n : UInt32 => .natural n.toNat) form.u32? where
  readable _ := trivial
  reads n := by
    have hread : form.u32? (.natural n.toNat) =
        if n.toNat < UInt32.size then some (UInt32.ofNat n.toNat) else none := rfl
    rw [hread, if_pos n.toNat_lt_size, UInt32.ofNat_toNat]

theorem lossless_u64 : Lossless (fun n : UInt64 => .natural n.toNat) form.u64? where
  readable _ := trivial
  reads n := by
    have hread : form.u64? (.natural n.toNat) =
        if n.toNat < UInt64.size then some (UInt64.ofNat n.toNat) else none := rfl
    rw [hread, if_pos n.toNat_lt_size, UInt64.ofNat_toNat]

theorem lossless_text : Lossless text form.text? where
  readable _ := trivial
  reads _ := rfl

theorem lossless_hex : Lossless hexToJson (hexOfDocument? form) where
  readable _ := trivial
  reads := Hex.decode?_encode

end Json

open Json (Lossless form lossless_u32 lossless_u64 lossless_text lossless_hex members?_object)

theorem Weight.lossless : Lossless Weight.toJson (Weight.ofDocument? form) where
  readable _ := ⟨trivial, trivial, trivial⟩
  reads weight := by
    have hmembers : form.members? ["ref_time", "proof_size"] weight.toJson =
        some [some (.natural weight.refTime.toNat), some (.natural weight.proofSize.toNat)] :=
      members?_object ["ref_time", "proof_size"] [.natural _, .natural _] (by decide) rfl
    unfold Weight.ofDocument?
    simp only [hmembers, required, lossless_u64.reads]

theorem Weight.readable_option (weight : Option Weight) : (Weight.optionToJson weight).Readable := by
  cases weight with
  | none => trivial
  | some weight => exact Weight.lossless.readable weight

/-- A weight is never written as null, so a limit that is missing is told from one that is not. -/
theorem Weight.optional_toJson (weight : Option Weight) :
    form.optional (Weight.ofDocument? form) (some (Weight.optionToJson weight)) = some weight := by
  cases weight with
  | none => rfl
  | some weight =>
    have hnull : form.isNull weight.toJson = false := rfl
    rw [Weight.optionToJson, DocumentForm.optional, hnull, Weight.lossless.reads]
    rfl

/-- A family is written without loss if its members are. -/
theorem PerClass.lossless {α : Type} {write : α → Json} {read : Json → Option α}
    (h : Lossless write read) : Lossless (PerClass.toJson write) (PerClass.ofDocument? form read) where
  readable family :=
    ⟨h.readable family.normal, h.readable family.operational, h.readable family.mandatory, trivial⟩
  reads family := by
    have hmembers : form.members? ["normal", "operational", "mandatory"] (family.toJson write) =
        some [some (write family.normal), some (write family.operational),
          some (write family.mandatory)] :=
      members?_object ["normal", "operational", "mandatory"] [_, _, _] (by decide) rfl
    unfold PerClass.ofDocument?
    simp only [hmembers, required, h.reads]

theorem BlockLength.lossless : Lossless BlockLength.toJson (BlockLength.ofDocument? form) where
  readable limits := ⟨(PerClass.lossless lossless_u32).readable limits.max, trivial⟩
  reads limits := by
    have hmembers : form.members? ["max"] limits.toJson =
        some [some (PerClass.toJson (fun n => .natural n.toNat) limits.max)] :=
      members?_object ["max"] [_] (by decide) rfl
    unfold BlockLength.ofDocument?
    simp only [hmembers, required, (PerClass.lossless lossless_u32).reads, Option.map_some]

theorem ClassLimits.lossless : Lossless ClassLimits.toJson (ClassLimits.ofDocument? form) where
  readable limits := ⟨Weight.lossless.readable limits.baseExtrinsic,
    Weight.readable_option limits.maxExtrinsic, Weight.readable_option limits.maxTotal,
    Weight.readable_option limits.reserved, trivial⟩
  reads limits := by
    have hmembers :
        form.members? ["base_extrinsic", "max_extrinsic", "max_total", "reserved"] limits.toJson =
          some [some limits.baseExtrinsic.toJson, some (Weight.optionToJson limits.maxExtrinsic),
            some (Weight.optionToJson limits.maxTotal), some (Weight.optionToJson limits.reserved)] :=
      members?_object ["base_extrinsic", "max_extrinsic", "max_total", "reserved"] [_, _, _, _]
        (by decide) rfl
    unfold ClassLimits.ofDocument?
    simp only [hmembers, required, Weight.lossless.reads, Weight.optional_toJson]

theorem BlockWeights.lossless : Lossless BlockWeights.toJson (BlockWeights.ofDocument? form) where
  readable weights := ⟨Weight.lossless.readable weights.baseBlock,
    Weight.lossless.readable weights.maxBlock,
    (PerClass.lossless ClassLimits.lossless).readable weights.perClass, trivial⟩
  reads weights := by
    have hmembers : form.members? ["base_block", "max_block", "per_class"] weights.toJson =
        some [some weights.baseBlock.toJson, some weights.maxBlock.toJson,
          some (PerClass.toJson ClassLimits.toJson weights.perClass)] :=
      members?_object ["base_block", "max_block", "per_class"] [_, _, _] (by decide) rfl
    unfold BlockWeights.ofDocument?
    simp only [hmembers, required, Weight.lossless.reads, (PerClass.lossless ClassLimits.lossless).reads]

namespace Config

def fieldValues (config : Config) : List Json :=
  [.text config.specName, .natural config.specVersion.toNat, .natural config.transactionVersion.toNat,
    hexToJson config.genesisHash, .natural config.blockHashCount.toNat, config.blockLength.toJson,
    config.blockWeights.toJson]

/-- A configuration is found again, since all its fields are. -/
theorem lossless : Lossless Config.toJson (Config.ofDocument? form) where
  readable config := ⟨lossless_text.readable _, lossless_u32.readable _, lossless_u32.readable _,
    lossless_hex.readable _, lossless_u64.readable _, BlockLength.lossless.readable config.blockLength,
    BlockWeights.lossless.readable config.blockWeights, trivial⟩
  reads config := by
    have hmembers : form.members? Config.fieldNames config.toJson =
        some (config.fieldValues.map some) :=
      members?_object Config.fieldNames config.fieldValues (by decide) rfl
    unfold Config.ofDocument?
    simp only [hmembers, fieldValues, List.map, required, withDefault, lossless_text.reads,
      lossless_u32.reads,
      lossless_hex.reads, lossless_u64.reads, BlockLength.lossless.reads, BlockWeights.lossless.reads]

theorem ofJsonText?_toJsonText (config : Config) : ofJsonText? config.toJsonText = some config :=
  lossless.parse config

/-- The fields of a configuration may come in any order, with fields of other names among them. -/
theorem ofDocument?_perm {fields known strangers : List (String × Json)}
    (hperm : fields.Perm (known ++ strangers)) (hstrangers : ∀ field ∈ strangers, field.1 ∉ fieldNames) :
    ofDocument? form (.object fields) = ofDocument? form (.object known) := by
  have hmembers : form.members? fieldNames (.object fields) =
      form.members? fieldNames (.object known) :=
    (ofBindings?_perm hperm).trans (ofBindings?_append hstrangers)
  unfold ofDocument?
  rw [hmembers]

theorem ofDocument?_array {values : List Json} (h : values.length = fieldNames.length) :
    ofDocument? form (.array values) = ofDocument? form (.object (fieldNames.zip values)) := by
  have hmembers := Json.members?_array fieldNames values (by decide) h.symm
  unfold ofDocument?
  rw [hmembers]

/-- A text with its fields in another order and one too many, with blanks, a marked hexadecimal text in
large letters, an array for a structure and the defaults left out. -/
def laxText : String :=
  "  \x7b \"later\" : [1, \x7b\"a\": null\x7d],\n \"transaction_version\":2, \"genesis_hash\" : \"0xAB cd\", " ++
  "\"spec_name\":\"a \\u00e9 \\\"b\\\"\", \"spec_version\":1, \"block_length\": [[1,2,3]] \x7d "

def laxConfig : Config :=
  ⟨"a é \"b\"", 1, 2, [0xAB, 0xCD], standardBlockHashCount, ⟨⟨1, 2, 3⟩⟩, BlockWeights.standard⟩

/-- A configuration survives JSON, and a text that is read as a configuration is written anew as one text
that stays. What is read of an object depends on its known fields alone, in whatever order they come and
with whatever strangers among them, and an array is read as the fields in their order. -/
theorem json_round_trip :
    (∀ config : Config, ofJsonText? config.toJsonText = some config) ∧
    (∀ (text : String) (config : Config), ofJsonText? text = some config →
      ofJsonText? config.toJsonText = some config ∧
      (ofJsonText? config.toJsonText).map toJsonText = some config.toJsonText) ∧
    (∀ fields known strangers : List (String × Json), fields.Perm (known ++ strangers) →
      (∀ field ∈ strangers, field.1 ∉ fieldNames) →
      ofDocument? form (.object fields) = ofDocument? form (.object known)) ∧
    (∀ values : List Json, values.length = fieldNames.length →
      ofDocument? form (.array values) = ofDocument? form (.object (fieldNames.zip values))) := by
  refine ⟨ofJsonText?_toJsonText, ?_, ?_, ?_⟩
  · -- how the text was written no longer matters once it has been read
    intro text config _
    have hagain := ofJsonText?_toJsonText config
    exact ⟨hagain, congrArg (Option.map toJsonText) hagain⟩
  · intro fields known strangers hperm hstrangers
    exact ofDocument?_perm hperm hstrangers
  · intro values hlength
    exact ofDocument?_array hlength

theorem lax_round_trip :
    (ofJsonText? laxText = some laxConfig ∧ laxText ≠ laxConfig.toJsonText ∧
      ofJsonText? laxConfig.toJsonText = some laxConfig ∧
      (ofJsonText? laxConfig.toJsonText).map toJsonText = some laxConfig.toJsonText) ∧
    ofDocument? form (.object (("later", .null) :: (fieldNames.zip laxConfig.fieldValues).reverse)) =
      some laxConfig ∧
    ofDocument? form (.array laxConfig.fieldValues) = some laxConfig := by
  obtain ⟨-, hagain, hobject, harray⟩ := json_round_trip
  have hread : ofJsonText? laxText = some laxConfig := by decide +kernel
  have hne : laxText ≠ laxConfig.toJsonText := by decide +kernel
  have hplain : ofDocument? form (.object (fieldNames.zip laxConfig.fieldValues)) = some laxConfig :=
    lossless.reads laxConfig
  have hperm : (("later", Json.null) :: (fieldNames.zip laxConfig.fieldValues).reverse).Perm
      (fieldNames.zip laxConfig.fieldValues ++ [("later", .null)]) :=
    ((List.reverse_perm _).cons _).trans (List.perm_append_singleton _ _).symm
  have hstranger : ∀ field ∈ [("later", Json.null)], field.1 ∉ fieldNames := by decide
  exact ⟨⟨hread, hne, hagain laxText laxConfig hread⟩,
    (hobject _ _ _ hperm hstranger).trans hplain, (harray laxConfig.fieldValues rfl).trans hplain⟩

end Config

end BlockRuntime
