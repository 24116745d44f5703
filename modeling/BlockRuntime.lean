import BlockRuntime.Account
import BlockRuntime.Books
import BlockRuntime.Bytes
import BlockRuntime.Check.Basic
import BlockRuntime.Check.Chain
import BlockRuntime.Check.Resources
import BlockRuntime.Check.Standard
import BlockRuntime.Codec.Basic
import BlockRuntime.Codec.Sequence
import BlockRuntime.Config.Basic
import BlockRuntime.Config.Document
import BlockRuntime.Config.File
import BlockRuntime.Config.Json
import BlockRuntime.Digest.Sha256
import BlockRuntime.Digest.XxHash
import BlockRuntime.Dispatch.Class
import BlockRuntime.Dispatch.Outcome
import BlockRuntime.Era
import BlockRuntime.Extrinsic
import BlockRuntime.Layer
import BlockRuntime.Limits
import BlockRuntime.Program
import BlockRuntime.Proofs.Block.Accounting
import BlockRuntime.Proofs.Block.Ancestry
import BlockRuntime.Proofs.Block.Finish
import BlockRuntime.Proofs.Block.Footprint
import BlockRuntime.Proofs.Block.Limits
import BlockRuntime.Proofs.Block.Nonces
import BlockRuntime.Proofs.Block.Run
import BlockRuntime.Proofs.Books.Items
import BlockRuntime.Proofs.Check.Agreement
import BlockRuntime.Proofs.Check.Alone
import BlockRuntime.Proofs.Check.Chain
import BlockRuntime.Proofs.Check.Charge
import BlockRuntime.Proofs.Check.Longevity
import BlockRuntime.Proofs.Check.Order
import BlockRuntime.Proofs.Check.Phases
import BlockRuntime.Proofs.Check.Refund
import BlockRuntime.Proofs.Check.Resources
import BlockRuntime.Proofs.Check.Room
import BlockRuntime.Proofs.Check.Shares
import BlockRuntime.Proofs.Check.Standard
import BlockRuntime.Proofs.Check.Untouched
import BlockRuntime.Proofs.Codec.Bijective
import BlockRuntime.Proofs.Codec.Sequence
import BlockRuntime.Proofs.Codec.Words
import BlockRuntime.Proofs.Config.Json
import BlockRuntime.Proofs.Config.Validate
import BlockRuntime.Proofs.Era.Code
import BlockRuntime.Proofs.Era.Tiling
import BlockRuntime.Proofs.Era.Window
import BlockRuntime.Proofs.Extrinsic.Endings
import BlockRuntime.Proofs.Extrinsic.Failure
import BlockRuntime.Proofs.Extrinsic.Inclusion
import BlockRuntime.Proofs.Extrinsic.Rejection
import BlockRuntime.Proofs.Guarded
import BlockRuntime.Proofs.Layer.Balance
import BlockRuntime.Proofs.Layer.Corrupt
import BlockRuntime.Proofs.Layer.Depth
import BlockRuntime.Proofs.Layer.Level
import BlockRuntime.Proofs.Limits
import BlockRuntime.Proofs.Program
import BlockRuntime.Proofs.Script.Frame
import BlockRuntime.Proofs.Script.Moments
import BlockRuntime.Proofs.Script.Saving
import BlockRuntime.Proofs.Store.Append
import BlockRuntime.Proofs.Store.Cell
import BlockRuntime.Proofs.Store.Contents
import BlockRuntime.Proofs.Store.Count
import BlockRuntime.Proofs.Store.Family
import BlockRuntime.Proofs.Store.KeyMap
import BlockRuntime.Proofs.Store.Overlay
import BlockRuntime.Proofs.Store.Snapshots
import BlockRuntime.Proofs.Text.Members
import BlockRuntime.Proofs.Text.Render
import BlockRuntime.Proofs.Text.Token
import BlockRuntime.Proofs.Weight
import BlockRuntime.Sample
import BlockRuntime.Script
import BlockRuntime.Store.Basic
import BlockRuntime.Store.Call
import BlockRuntime.Store.Cell
import BlockRuntime.Store.KeyMap
import BlockRuntime.Store.Memory
import BlockRuntime.Store.Snapshots
import BlockRuntime.Text.Document
import BlockRuntime.Text.Hex
import BlockRuntime.Text.Json.Basic
import BlockRuntime.Text.Json.Parser
import BlockRuntime.Text.Json.Token
import BlockRuntime.Text.Yaml.Basic
import BlockRuntime.Text.Yaml.Layout
import BlockRuntime.Text.Yaml.Literal
import BlockRuntime.Text.Yaml.Parser
import BlockRuntime.Text.Yaml.Place
import BlockRuntime.Text.Yaml.Scalar
import BlockRuntime.Text.Yaml.Token
import BlockRuntime.Transaction
import BlockRuntime.Weight
import BlockRuntime.Word
