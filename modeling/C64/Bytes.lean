/-!
# Byte memories

`Bytes n` holds `n` bytes. An index is a number below `n`, so reading and writing cannot fail.
-/

namespace C64

/-- A memory of `n` bytes. -/
structure Bytes (n : Nat) where
  data : ByteArray
  size_data : data.size = n

namespace Bytes

variable {n : Nat}

/-- The memory whose bytes are all `b`. -/
def replicate (n : Nat) (b : UInt8) : Bytes n :=
  ⟨⟨Array.replicate n b⟩, by simp [ByteArray.size]⟩

/-- The memory that holds `f i` at every index `i`. -/
def ofFn (f : Fin n → UInt8) : Bytes n := ⟨⟨Array.ofFn f⟩, by simp [ByteArray.size]⟩

/-- The memory of the bytes of a list. -/
def ofList (bytes : List UInt8) : Bytes bytes.length := ⟨⟨bytes.toArray⟩, by simp [ByteArray.size]⟩

instance : Inhabited (Bytes n) := ⟨replicate n 0⟩

instance : DecidableEq (Bytes n) := fun a b =>
  decidable_of_iff (a.data.data = b.data.data)
    ⟨fun h => by cases a; cases b; simpa [ByteArray.ext_iff] using h, fun h => h ▸ rfl⟩

/-- The byte at index `i`. -/
@[inline] def get (m : Bytes n) (i : Fin n) : UInt8 :=
  m.data.get i.val (by rw [m.size_data]; exact i.isLt)

/-- The memory with byte `b` at index `i`. -/
@[inline] def set (m : Bytes n) (i : Fin n) (b : UInt8) : Bytes n :=
  ⟨m.data.set i.val b (by rw [m.size_data]; exact i.isLt), by
    have := m.size_data
    simp only [ByteArray.set, ByteArray.size, Array.size_set] at *
    exact this⟩

/-- The byte at index `i`, zero behind the end. -/
@[inline] def byteAt (m : Bytes n) (i : Nat) : UInt8 := if h : i < n then m.get ⟨i, h⟩ else 0

/-- The memory with byte `b` at index `i`. Behind the end there is nothing to change. -/
@[inline] def put (m : Bytes n) (i : Nat) (b : UInt8) : Bytes n :=
  if h : i < n then m.set ⟨i, h⟩ b else m

/-- The bytes in order. -/
def toList (m : Bytes n) : List UInt8 := m.data.data.toList

/-- The bytes of `data` written one after another from index `start` on, going round at the end. -/
def load (m : Bytes n) (start : Nat) (data : List UInt8) : Bytes n :=
  (data.foldl (fun (m, i) b => (m.put (i % n) b, i + 1)) (m, start)).1

/-! ## Reading what was written -/

@[ext] theorem ext {a b : Bytes n} (h : ∀ i, a.get i = b.get i) : a = b := by
  obtain ⟨⟨xs⟩, ha⟩ := a
  obtain ⟨⟨ys⟩, hb⟩ := b
  simp only [mk.injEq, ByteArray.mk.injEq]
  refine Array.ext (ha.trans hb.symm) fun i hi _ => ?_
  exact h ⟨i, ha ▸ hi⟩

theorem index_lt (m : Bytes n) (i : Fin n) : i.val < m.data.data.size :=
  Nat.lt_of_lt_of_eq i.isLt m.size_data.symm

@[simp] theorem get_set_self (m : Bytes n) (i : Fin n) (b : UInt8) : (m.set i b).get i = b :=
  Array.getElem_set_self (m.index_lt i)

theorem get_set_ne (m : Bytes n) {i j : Fin n} (b : UInt8) (h : i ≠ j) :
    (m.set i b).get j = m.get j :=
  Array.getElem_set_ne (m.index_lt i) (by simpa using m.index_lt j) fun e => h (Fin.ext e)

theorem get_set (m : Bytes n) (i j : Fin n) (b : UInt8) :
    (m.set i b).get j = if i = j then b else m.get j := by
  split
  · next h => subst h; simp
  · next h => exact m.get_set_ne b h

@[simp] theorem get_replicate (b : UInt8) (i : Fin n) : (replicate n b).get i = b :=
  Array.getElem_replicate _

@[simp] theorem get_ofFn (f : Fin n → UInt8) (i : Fin n) : (ofFn f).get i = f i :=
  Array.getElem_ofFn _

@[simp] theorem get_ofList (bytes : List UInt8) (i : Fin bytes.length) :
    (ofList bytes).get i = bytes.get i :=
  List.getElem_toArray _

theorem byteAt_of_lt (m : Bytes n) {i : Nat} (h : i < n) : m.byteAt i = m.get ⟨i, h⟩ := dif_pos h

theorem byteAt_put (m : Bytes n) {i : Nat} (h : i < n) (b : UInt8) (j : Nat) :
    (m.put i b).byteAt j = if i = j then b else m.byteAt j := by
  simp only [put, byteAt, h, dite_true, get_set, Fin.mk.injEq]
  split
  · rfl
  · next hj =>
    split
    · next e => exact absurd (e ▸ h) hj
    · rfl

end Bytes

/-- The sixty-four kilobytes a sixteen-bit address reaches. -/
abbrev Ram := Bytes 0x10000

namespace Ram

/-- An address as an index. -/
@[inline] def index (address : UInt16) : Fin 0x10000 := ⟨address.toNat, address.toNat_lt⟩

@[inline] def read (m : Ram) (address : UInt16) : UInt8 := m.get (index address)

@[inline] def write (m : Ram) (address : UInt16) (b : UInt8) : Ram := m.set (index address) b

theorem read_write (m : Ram) (address other : UInt16) (b : UInt8) :
    (m.write address b).read other = if address = other then b else m.read other := by
  simp only [write, read, Bytes.get_set, index, Fin.mk.injEq, UInt16.toNat_inj]

end Ram

end C64
