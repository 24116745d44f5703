import BlockRuntime.Config.Basic
import BlockRuntime.Text.Document

namespace BlockRuntime

open DocumentForm

variable {ν : Type} (form : DocumentForm ν)

def Weight.ofDocument? (node : ν) : Option Weight :=
  match form.members? ["ref_time", "proof_size"] node with
  | some [time, size] =>
    match required form.u64? time, required form.u64? size with
    | some time, some size => some ⟨time, size⟩
    | _, _ => none
  | _ => none

def PerClass.ofDocument? {α : Type} (item : ν → Option α) (node : ν) : Option (PerClass α) :=
  match form.members? ["normal", "operational", "mandatory"] node with
  | some [normal, operational, mandatory] =>
    match required item normal, required item operational, required item mandatory with
    | some normal, some operational, some mandatory => some ⟨normal, operational, mandatory⟩
    | _, _, _ => none
  | _ => none

def BlockLength.ofDocument? (node : ν) : Option BlockLength :=
  match form.members? ["max"] node with
  | some [max] => (required (PerClass.ofDocument? form form.u32?) max).map BlockLength.mk
  | _ => none

def ClassLimits.ofDocument? (node : ν) : Option ClassLimits :=
  match form.members? ["base_extrinsic", "max_extrinsic", "max_total", "reserved"] node with
  | some [base, cap, total, reserve] =>
    match required (Weight.ofDocument? form) base, form.optional (Weight.ofDocument? form) cap,
      form.optional (Weight.ofDocument? form) total,
      form.optional (Weight.ofDocument? form) reserve with
    | some base, some cap, some total, some reserve => some ⟨base, cap, total, reserve⟩
    | _, _, _, _ => none
  | _ => none

def BlockWeights.ofDocument? (node : ν) : Option BlockWeights :=
  match form.members? ["base_block", "max_block", "per_class"] node with
  | some [base, max, perClass] =>
    match required (Weight.ofDocument? form) base, required (Weight.ofDocument? form) max,
      required (PerClass.ofDocument? form (ClassLimits.ofDocument? form)) perClass with
    | some base, some max, some perClass => some ⟨base, max, perClass⟩
    | _, _, _ => none
  | _ => none

def SpecVersions.ofDocument? (node : ν) : Option SpecVersions :=
  match form.members? ["spec_name", "spec_version", "transaction_version"] node with
  | some [name, spec, transaction] =>
    match required form.text? name, required form.u32? spec, required form.u32? transaction with
    | some name, some spec, some transaction => some ⟨name, spec, transaction⟩
    | _, _, _ => none
  | _ => none

def hexOfDocument? (node : ν) : Option Bytes := (form.text? node).bind Hex.decode?

def Config.fieldNames : List String :=
  ["spec_name", "spec_version", "transaction_version", "genesis_hash", "block_hash_count",
    "block_length", "block_weights"]

/-- A configuration is a structure in which the number of kept hashes and the limits have
defaults. -/
def Config.ofDocument? (node : ν) : Option Config :=
  match form.members? Config.fieldNames node with
  | some [name, spec, transaction, genesis, count, length, weights] =>
    match required form.text? name, required form.u32? spec, required form.u32? transaction,
      required (hexOfDocument? form) genesis,
      withDefault Config.standardBlockHashCount form.u64? count,
      withDefault BlockLength.standard (BlockLength.ofDocument? form) length,
      withDefault BlockWeights.standard (BlockWeights.ofDocument? form) weights with
    | some name, some spec, some transaction, some genesis, some count, some length,
        some weights =>
      some ⟨name, spec, transaction, genesis, count, length, weights⟩
    | _, _, _, _, _, _, _ => none
  | _ => none

end BlockRuntime
