import BlockRuntime.Books
import BlockRuntime.Digest.Sha256
import BlockRuntime.Store.Memory

namespace BlockRuntime.Sample

def account (seed : UInt8) : AccountId := ⟨FixedBytes.replicate 32 seed⟩

def blockHash (n : UInt64) : BlockHash :=
  ⟨⟨Sha256.digest (bigEndian 8 n.toNat), Sha256.length_digest _⟩⟩

def genesisHash : BlockHash := blockHash 0

def parameters : Parameters where
  versions := ⟨"sample", 1, 1⟩
  genesisHash := genesisHash
  blockHashCount := 16
  blockLength := BlockLength.withNormalShare 1024 75
  blockWeights := BlockWeights.withNormalShare ⟨1000, 1000⟩ 75

def memory : Memory :=
  let seeded := Block.seed parameters Memory.empty
  (Block.start parameters 1 genesisHash seeded).2

variable {σ ε : Type} [Store σ]

/-- Finishes the current block and starts the next one on it. It aborts if the books cannot be read
or if there is no next number. -/
def advanceOne : Program σ ε Unit := do
  let n ← (Program.query Books.blockNumber).expect
  (Block.finish parameters).expect
  match n.checkedAdd? 1 with
  | some next => (Block.start parameters next (blockHash n)).expect
  | none => Program.abort

def advance : (count : Nat) → Program σ ε Unit
  | 0 => pure ()
  | count + 1 => do
    advanceOne
    advance count

end BlockRuntime.Sample
