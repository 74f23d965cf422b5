import DhtKad.Keyutil

/-!
`kvstore.rs`: the in-memory key-value store of a node.

The hash map is modelled by the partial function it represents. Its operations
never return `DatastoreError`, but their callers handle one, so the error stays
in the types.
-/

namespace DhtKad

structure DatastoreError where
  deriving DecidableEq, Repr

structure MemoryStore where
  store : Bytes → Option Bytes

namespace MemoryStore

def new : MemoryStore := { store := fun _ => none }

def put (s : MemoryStore) (key value : Bytes) : MemoryStore × Except DatastoreError Unit :=
  ({ store := Function.update s.store key (some value) }, .ok ())

def get (s : MemoryStore) (key : Bytes) : Except DatastoreError (Option Bytes) :=
  match s.store key with
  | some v => .ok (some v)
  | none => .ok none

@[simp] theorem get_eq (s : MemoryStore) (key : Bytes) : s.get key = .ok (s.store key) := by
  unfold get
  cases s.store key <;> rfl

@[simp] theorem new_store (key : Bytes) : new.store key = none := rfl

@[simp] theorem put_store_self (s : MemoryStore) (key value : Bytes) :
    (s.put key value).1.store key = some value := by
  simp [put]

@[simp] theorem put_store_of_ne (s : MemoryStore) {key key' : Bytes} (value : Bytes)
    (h : key' ≠ key) : (s.put key value).1.store key' = s.store key' := by
  simp [put, h]

end MemoryStore

end DhtKad
