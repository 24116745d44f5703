import BlockRuntime.Store.Basic

namespace BlockRuntime

inductive StoreCall where
  | get (key : Key)
  | contains (key : Key)
  | entries
  | set (key : Key) (value : Bytes)
  | clear (key : Key)
  | clearStem (stem : Bytes) (limit : Option UInt32)
  | openChanges
  | closeChanges (closing : Closing)
  | depth

inductive StoreReply where
  | bytes (value : Option Bytes)
  | found (isFound : Bool)
  | listing (entries : KeyMap Bytes)
  | count (n : Nat)
  | closed (result : Except StoreError Unit)
  | done

namespace StoreCall

variable {σ : Type}

/-- Closes the innermost change set. A store that has none is left alone. -/
def close [LayeredStore σ] (closing : Closing) (s : σ) : Except StoreError Unit × σ :=
  match LayeredStore.closeChanges closing s with
  | .ok next => (.ok (), next)
  | .error cause => (.error cause, s)

def perform [ListedStore σ] (call : StoreCall) (s : σ) : StoreReply × σ :=
  match call with
  | get key => (.bytes (Store.get? s key), s)
  | contains key => (.found (Store.contains s key), s)
  | entries => (.listing (ListedStore.entries s), s)
  | set key value => (.done, Store.set s key value)
  | clear key => (.done, Store.clear s key)
  | clearStem stem limit =>
    let (n, s) := Store.clearStem s stem limit
    (.count n, s)
  | openChanges => (.done, LayeredStore.openChanges s)
  | closeChanges closing =>
    let (result, s) := close closing s
    (.closed result, s)
  | depth => (.count (LayeredStore.depth s), s)

def performAll [ListedStore σ] : List StoreCall → σ → List StoreReply × σ
  | [], s => ([], s)
  | call :: calls, s =>
    let (reply, s) := call.perform s
    let (replies, s) := performAll calls s
    (reply :: replies, s)

end StoreCall

end BlockRuntime
