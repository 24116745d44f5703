import BlockRuntime.Store.Basic
/-!
A layered store in memory: a finite map and, over it, the open change sets. A look-up asks the
innermost change set first, a write goes to the innermost one, and closing a change set replays it
onto the next. `Memory.entries` is the map that a reader sees; `Memory.get?` looks up in that map.
-/

namespace BlockRuntime

inductive Change where
  | update (value : Bytes)
  | delete
  deriving DecidableEq

abbrev ChangeSet := KeyMap Change

namespace ChangeSet

def applyOne (entries : KeyMap Bytes) (change : Key × Change) : KeyMap Bytes :=
  match change with
  | (key, .update value) => entries.insert key value
  | (key, .delete) => entries.erase key

def apply (entries : KeyMap Bytes) (changes : ChangeSet) : KeyMap Bytes :=
  changes.toList.foldl applyOne entries

end ChangeSet

/-- A map with a stack of change sets over it, the innermost one first. -/
structure Memory where
  base : KeyMap Bytes
  pending : List ChangeSet
  deriving DecidableEq

namespace Memory

def empty : Memory := ⟨KeyMap.empty, []⟩

instance : Inhabited Memory := ⟨empty⟩

def entries (m : Memory) : KeyMap Bytes :=
  m.pending.foldr (fun changes below => ChangeSet.apply below changes) m.base

def lookup (base : KeyMap Bytes) (key : Key) : List ChangeSet → Option Bytes
  | [] => base.get? key
  | changes :: below =>
    match changes.get? key with
    | some (.update value) => some value
    | some .delete => none
    | none => lookup base key below

def get? (m : Memory) (key : Key) : Option Bytes := lookup m.base key m.pending

def set (m : Memory) (key : Key) (value : Bytes) : Memory :=
  match m.pending with
  | [] => { m with base := m.base.insert key value }
  | changes :: below => { m with pending := changes.insert key (.update value) :: below }

def clear (m : Memory) (key : Key) : Memory :=
  match m.pending with
  | [] => { m with base := m.base.erase key }
  -- the key may be bound further down, so the deletion itself has to be kept
  | changes :: below => { m with pending := changes.insert key .delete :: below }

def keysUnder (m : Memory) (stem : Bytes) : List Key := m.entries.keys.filter stem.isPrefixOf

def clearStem (m : Memory) (stem : Bytes) (limit : Option UInt32) : Nat × Memory :=
  let keys := m.keysUnder stem
  let chosen :=
    match limit with
    | some limit => keys.take limit.toNat
    | none => keys
  (chosen.length, chosen.foldl clear m)

def openChanges (m : Memory) : Memory := { m with pending := KeyMap.empty :: m.pending }

def change (m : Memory) : Key × Change → Memory
  | (key, .update value) => m.set key value
  | (key, .delete) => m.clear key

def commitChanges (m : Memory) : Except StoreError Memory :=
  match m.pending with
  | [] => .error (.noOpenTransaction .commit)
  | changes :: below => .ok (changes.toList.foldl change { m with pending := below })

def rollbackChanges (m : Memory) : Except StoreError Memory :=
  match m.pending with
  | [] => .error (.noOpenTransaction .rollback)
  | _ :: below => .ok { m with pending := below }

def depth (m : Memory) : Nat := m.pending.length

instance : ListedStore Memory where
  get? := get?
  set := set
  clear := clear
  clearStem := clearStem
  openChanges := openChanges
  commitChanges := commitChanges
  rollbackChanges := rollbackChanges
  depth := depth
  entries := entries

end Memory

end BlockRuntime
