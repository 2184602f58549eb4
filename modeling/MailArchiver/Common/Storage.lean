import MailArchiver.Common.Bytes

/-!
# Common — Storage

`mailarchiver_common/storage.py`: the blob store, a map from object keys
to sealed bytes. Bodies and attachments share its one key scheme.

Object Lock changes nothing here: under versioning a `put` still makes a
new current version and a `delete` still hides the key, and `get` reads
the current version.
-/

namespace MailArchiver

/-- `_object_key(sha256)`: `ab/cd/<sha256>`. -/
def objectKey (sha256 : String) : String :=
  String.ofList (sha256.toList.take 2) ++ "/"
    ++ String.ofList ((sha256.toList.drop 2).take 2) ++ "/" ++ sha256

theorem toList_objectKey (s : String) : (objectKey s).toList =
    s.toList.take 2 ++ '/' :: (s.toList.drop 2).take 2 ++ '/' :: s.toList := by
  simp [objectKey, show "/".toList = ['/'] from rfl]

/-- Distinct hashes have distinct keys, whatever their length. -/
theorem objectKey_inj {s t : String} : objectKey s = objectKey t ↔ s = t := by
  constructor
  · intro h
    have hl := congrArg String.toList h
    rw [toList_objectKey, toList_objectKey] at hl
    -- the key's length determines the hash's, so the tails line up
    have hlen := congrArg List.length hl
    simp only [List.length_append, List.length_cons, List.length_take, List.length_drop] at hlen
    have hst : s.toList.length = t.toList.length := by omega
    obtain ⟨-, htail⟩ := List.append_inj' hl (by simp [hst])
    exact String.toList_inj.mp (List.cons.inj htail).2
  · rintro rfl
    rfl

/-- The bucket: what each object key holds. -/
structure BlobStore where
  objects : String → Option Bytes

namespace BlobStore

def empty : BlobStore := ⟨fun _ => none⟩

/-- `put(sha256, sealed)`: writes, or overwrites, the current version. -/
def put (b : BlobStore) (sha256 : String) (sealed : Bytes) : BlobStore :=
  ⟨fun k => if k = objectKey sha256 then some sealed else b.objects k⟩

/-- `delete(sha256)`; deleting a missing key is not an error. -/
def delete (b : BlobStore) (sha256 : String) : BlobStore :=
  ⟨fun k => if k = objectKey sha256 then none else b.objects k⟩

/-- What is stored under a hash, if anything. -/
def lookup (b : BlobStore) (sha256 : String) : Option Bytes := b.objects (objectKey sha256)

/-- `get(sha256)`: a missing key is a `ClientError`. -/
def get (b : BlobStore) (sha256 : String) : Except PyError Bytes :=
  match b.lookup sha256 with
  | some sealed => .ok sealed
  | none => .error .clientError

@[simp] theorem lookup_empty (s : String) : empty.lookup s = none := rfl

@[simp] theorem lookup_put_self (b : BlobStore) (s : String) (x : Bytes) :
    (b.put s x).lookup s = some x := by
  simp [lookup, put]

theorem lookup_put_ne (b : BlobStore) {s t : String} (x : Bytes) (h : t ≠ s) :
    (b.put s x).lookup t = b.lookup t := by
  simp [lookup, put, objectKey_inj, h]

@[simp] theorem lookup_delete_self (b : BlobStore) (s : String) :
    (b.delete s).lookup s = none := by
  simp [lookup, delete]

theorem lookup_delete_ne (b : BlobStore) {s t : String} (h : t ≠ s) :
    (b.delete s).lookup t = b.lookup t := by
  simp [lookup, delete, objectKey_inj, h]

theorem lookup_put (b : BlobStore) (s t : String) (x : Bytes) :
    (b.put s x).lookup t = if t = s then some x else b.lookup t := by
  by_cases h : t = s
  · simp [h]
  · simp [h, lookup_put_ne]

theorem lookup_delete (b : BlobStore) (s t : String) :
    (b.delete s).lookup t = if t = s then none else b.lookup t := by
  by_cases h : t = s
  · simp [h]
  · simp [h, lookup_delete_ne]

/-- A `put` never empties a key. -/
theorem lookup_put_isSome (b : BlobStore) (s t : String) (x : Bytes)
    (h : (b.lookup t).isSome) : ((b.put s x).lookup t).isSome := by
  rw [lookup_put]
  split
  · rfl
  · exact h

theorem get_ok_iff (b : BlobStore) (s : String) (x : Bytes) :
    b.get s = .ok x ↔ b.lookup s = some x := by
  unfold get
  cases b.lookup s <;> simp

end BlobStore

end MailArchiver
