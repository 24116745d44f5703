import BlockRuntime.Store.Memory

namespace BlockRuntime

namespace KeyMap

def leastUnder (m : KeyMap Bytes) (stem : Bytes) (limit : Option UInt32) : List Key :=
  let keys := m.keys.filter stem.isPrefixOf
  match limit with
  | some limit => keys.take limit.toNat
  | none => keys

instance : Store (KeyMap Bytes) where
  get? := get?
  set := insert
  clear := erase
  clearStem m stem limit :=
    let chosen := m.leastUnder stem limit
    (chosen.length, m.filterKeys fun key => !chosen.contains key)

end KeyMap

/-- The current map, and the maps to go back to, the latest one first. -/
structure Snapshots where
  current : KeyMap Bytes
  saved : List (KeyMap Bytes)
  deriving DecidableEq

namespace Snapshots

def commitChanges (s : Snapshots) : Except StoreError Snapshots :=
  match s.saved with
  | [] => .error (.noOpenTransaction .commit)
  | _ :: below => .ok { s with saved := below }

def rollbackChanges (s : Snapshots) : Except StoreError Snapshots :=
  match s.saved with
  | [] => .error (.noOpenTransaction .rollback)
  | earlier :: below => .ok ⟨earlier, below⟩

instance : ListedStore Snapshots where
  get? s key := Store.get? s.current key
  set s key value := { s with current := Store.set s.current key value }
  clear s key := { s with current := Store.clear s.current key }
  clearStem s stem limit :=
    let (n, current) := Store.clearStem s.current stem limit
    (n, { s with current := current })
  openChanges s := { s with saved := s.current :: s.saved }
  commitChanges := commitChanges
  rollbackChanges := rollbackChanges
  depth s := s.saved.length
  entries s := s.current

end Snapshots

namespace Memory

def mapsBelow (base : KeyMap Bytes) : List ChangeSet → List (KeyMap Bytes)
  | [] => []
  | _ :: below => entries ⟨base, below⟩ :: mapsBelow base below

/-- The stack of whole maps that a memory stands for. -/
def snapshots (m : Memory) : Snapshots := ⟨m.entries, mapsBelow m.base m.pending⟩

end Memory

end BlockRuntime
