import Mathlib.Data.Nat.ModEq
import RouterFirmware.Memory

/-!
# Numbers as bytes

A machine keeps a number of `n` bytes in memory with its lowest byte first or
last.
-/

/-- **The order of the bytes of a number** in memory. -/
inductive ByteOrder where
  /-- The lowest byte first. -/
  | little
  /-- The lowest byte last, as on a network. -/
  | big
deriving DecidableEq

def leBytes : ℕ → ℕ → List UInt8
  | 0, _ => []
  | n + 1, v => UInt8.ofNat v :: leBytes n (v / 256)

def leValue : List UInt8 → ℕ
  | [] => 0
  | b :: bs => b.toNat + 256 * leValue bs

@[simp] theorem length_leBytes (n v : ℕ) : (leBytes n v).length = n := by
  induction n generalizing v with
  | zero => rfl
  | succ n ih => rw [leBytes, List.length_cons, ih]

theorem leValue_leBytes (n v : ℕ) : leValue (leBytes n v) = v % 256 ^ n := by
  induction n generalizing v with
  | zero => rw [leBytes, leValue, pow_zero, Nat.mod_one]
  | succ n ih =>
    have hb : (UInt8.ofNat v).toNat = v % 256 := UInt8.toNat_ofNat'
    rw [leBytes, leValue, ih, hb, pow_succ', Nat.mod_mul]

theorem leBytes_leValue (bs : List UInt8) : leBytes bs.length (leValue bs) = bs := by
  induction bs with
  | nil => rfl
  | cons b bs ih =>
    have hb := b.toNat_lt
    rw [leValue, List.length_cons, leBytes, List.cons.injEq]
    constructor
    · apply UInt8.toNat_inj.mp
      rw [UInt8.toNat_ofNat']
      omega
    · rw [show (b.toNat + 256 * leValue bs) / 256 = leValue bs by omega, ih]

theorem leValue_lt (bs : List UInt8) : leValue bs < 256 ^ bs.length := by
  induction bs with
  | nil => simp [leValue]
  | cons b bs ih =>
    have hb := b.toNat_lt
    rw [leValue, List.length_cons, pow_succ']
    omega

namespace ByteOrder

open List

def bytes (o : ByteOrder) (n v : ℕ) : List UInt8 :=
  match o with
  | little => leBytes n v
  | big => (leBytes n v).reverse

def value (o : ByteOrder) (bs : List UInt8) : ℕ :=
  match o with
  | little => leValue bs
  | big => leValue bs.reverse

variable (o : ByteOrder)

@[simp] theorem length_bytes (n v : ℕ) : (o.bytes n v).length = n := by
  cases o <;> simp [bytes]

theorem value_bytes (n v : ℕ) : o.value (o.bytes n v) = v % 256 ^ n := by
  cases o with
  | little => exact leValue_leBytes n v
  | big => rw [value, bytes, reverse_reverse, leValue_leBytes]

theorem bytes_value (bs : List UInt8) : o.bytes bs.length (o.value bs) = bs := by
  cases o with
  | little => exact leBytes_leValue bs
  | big => rw [bytes, value, ← length_reverse, leBytes_leValue, reverse_reverse]

theorem value_lt (bs : List UInt8) : o.value bs < 256 ^ bs.length := by
  cases o with
  | little => exact leValue_lt bs
  | big =>
    rw [← length_reverse]
    exact leValue_lt bs.reverse

/-! ### Records

A structure of the source is its fields one behind the other. -/

def field (bs : List UInt8) (a n : ℕ) : ℕ := o.value ((bs.drop a).take n)

def record (fields : List (ℕ × ℕ)) : List UInt8 := fields.flatMap fun f => o.bytes f.1 f.2

def recordSize : List (ℕ × ℕ) → ℕ
  | [] => 0
  | f :: fields => f.1 + recordSize fields

@[simp] theorem length_record (fields : List (ℕ × ℕ)) :
    (o.record fields).length = recordSize fields := by
  induction fields with
  | nil => rfl
  | cons f fields ih =>
    rw [record, flatMap_cons, length_append, length_bytes, ← record, ih, recordSize]

theorem field_record {fields : List (ℕ × ℕ)} {i n v a : ℕ} (h : fields[i]? = some (n, v))
    (ha : recordSize (fields.take i) = a) (tail : List UInt8) :
    o.field (o.record fields ++ tail) a n = v % 256 ^ n := by
  induction fields generalizing i a with
  | nil => exact absurd h (by simp)
  | cons f fields ih =>
    rw [record, flatMap_cons, ← record, append_assoc]
    cases i with
    | zero =>
      obtain rfl : f = (n, v) := by simpa using h
      obtain rfl : 0 = a := ha
      rw [field, drop_zero, take_left' (length_bytes ..), value_bytes]
    | succ i =>
      obtain rfl : f.1 + recordSize (fields.take i) = a := ha
      rw [← ih (i := i) (by simpa using h) rfl, field, field, ← drop_drop,
        drop_left' (length_bytes ..)]

end ByteOrder

namespace Memory

variable (m : Bytes) (o : ByteOrder)

def load (n a : ℕ) : ℕ := o.value (m.slice a n)

def store (n a v : ℕ) : Bytes := m.blit a (o.bytes n v)

theorem load_store_self (n a v : ℕ) : (m.store o n a v).load o n a = v % 256 ^ n := by
  have h := slice_blit_self m a (o.bytes n v)
  rw [ByteOrder.length_bytes] at h
  rw [load, store, h, ByteOrder.value_bytes]

theorem store_of_outside {n a i : ℕ} (v : ℕ) (h : i < a ∨ a + n ≤ i) : m.store o n a v i = m i :=
  blit_of_outside m (by rwa [ByteOrder.length_bytes])

def modify (n a : ℕ) (f : ℕ → ℕ) : Bytes := m.store o n a (f (m.load o n a))

theorem load_blit_of_disjoint {a b n : ℕ} {xs : List UInt8} (h : b + n ≤ a ∨ a + xs.length ≤ b) :
    (m.blit a xs).load o n b = m.load o n b := by
  rw [load, slice_blit_of_disjoint m h, load]

theorem load_store_of_disjoint {a b k n : ℕ} (v : ℕ) (h : b + n ≤ a ∨ a + k ≤ b) :
    (m.store o k a v).load o n b = m.load o n b :=
  load_blit_of_disjoint m o (by rwa [ByteOrder.length_bytes])

theorem load_lt (n a : ℕ) : m.load o n a < 256 ^ n := by
  have h := o.value_lt (m.slice a n)
  rwa [length_slice] at h

theorem load_drop (n s a : ℕ) : (m.drop s).load o n a = m.load o n (s + a) := by
  rw [load, slice_drop, load]

theorem EqOn.load_eq {m m' : Bytes} {a b c n : ℕ} (h : EqOn m m' a b) (hc : a ≤ c)
    (hn : c + n ≤ b) : m.load o n c = m'.load o n c := by
  rw [load, h.slice_eq hn hc, load]

theorem eqOff_modify (n a : ℕ) (f : ℕ → ℕ) : EqOff (m.modify o n a f) m a (a + n) :=
  fun _ hi => m.store_of_outside o _ hi

theorem EqOn.modify {m m' : Bytes} {a n : ℕ} (h : EqOn m m' a (a + n)) (f : ℕ → ℕ) :
    EqOn (m.modify o n a f) (m'.modify o n a f) a (a + n) := by
  intro i ha hb
  obtain ⟨k, rfl⟩ := Nat.exists_eq_add_of_le ha
  have hk : k < (o.bytes n (f (m'.load o n a))).length := by
    rw [ByteOrder.length_bytes]
    omega
  rw [Memory.modify, Memory.modify, h.load_eq o (Nat.le_refl a) (Nat.le_refl _), store, store,
    blit_of_inside m a hk, blit_of_inside m' a hk]

theorem modify_modify {n : ℕ} {f : ℕ → ℕ} (hlt : ∀ v < 256 ^ n, f v < 256 ^ n)
    (hinv : ∀ v < 256 ^ n, f (f v) = v) (a : ℕ) : (m.modify o n a f).modify o n a f = m := by
  have hv := m.load_lt o n a
  have hlen : (m.slice a n).length = n := length_slice ..
  have hload : (m.modify o n a f).load o n a = f (m.load o n a) := by
    rw [modify, load_store_self, Nat.mod_eq_of_lt (hlt _ hv)]
  have hbytes : o.bytes n (m.load o n a) = m.slice a n := by
    have h := o.bytes_value (m.slice a n)
    rwa [hlen] at h
  rw [modify, hload, hinv _ hv, modify, store, store, hbytes]
  refine m.blit_blit_restore a ?_ (by rw [hlen])
  rw [ByteOrder.length_bytes, hlen]

end Memory

/-! ## Words in network order -/

def be16 (x : UInt16) : List UInt8 := ByteOrder.big.bytes 2 x.toNat

def be32 (x : UInt32) : List UInt8 := ByteOrder.big.bytes 4 x.toNat

@[simp] theorem length_be16 (x : UInt16) : (be16 x).length = 2 := ByteOrder.length_bytes ..

@[simp] theorem length_be32 (x : UInt32) : (be32 x).length = 4 := ByteOrder.length_bytes ..

namespace Memory

def load16 (m : Bytes) (a : ℕ) : UInt16 := .ofNat (m.load .big 2 a)

def load32 (m : Bytes) (a : ℕ) : UInt32 := .ofNat (m.load .big 4 a)

theorem load16_of_slice {m : Bytes} {a : ℕ} {x : UInt16} (h : m.slice a 2 = be16 x) :
    m.load16 a = x := by
  rw [load16, load, h, be16, ByteOrder.value_bytes,
    Nat.mod_eq_of_lt (show x.toNat < 256 ^ 2 from x.toNat_lt), UInt16.ofNat_toNat]

theorem load32_of_slice {m : Bytes} {a : ℕ} {x : UInt32} (h : m.slice a 4 = be32 x) :
    m.load32 a = x := by
  rw [load32, load, h, be32, ByteOrder.value_bytes,
    Nat.mod_eq_of_lt (show x.toNat < 256 ^ 4 from x.toNat_lt), UInt32.ofNat_toNat]

variable (m : Bytes) (a : ℕ)

theorem be16_load16 : be16 (m.load16 a) = m.slice a 2 := by
  have hlt := ByteOrder.big.value_lt (m.slice a 2)
  have hbytes := ByteOrder.big.bytes_value (m.slice a 2)
  rw [length_slice] at hlt hbytes
  rw [be16, load16, load, UInt16.toNat_ofNat_of_lt' hlt, hbytes]

theorem be32_load32 : be32 (m.load32 a) = m.slice a 4 := by
  have hlt := ByteOrder.big.value_lt (m.slice a 4)
  have hbytes := ByteOrder.big.bytes_value (m.slice a 4)
  rw [length_slice] at hlt hbytes
  rw [be32, load32, load, UInt32.toNat_ofNat_of_lt' hlt, hbytes]

@[simp] theorem load16_blit_self (x : UInt16) : (m.blit a (be16 x)).load16 a = x := by
  refine load16_of_slice ?_
  have h := m.slice_blit_self a (be16 x)
  rwa [length_be16] at h

theorem load16_blit_of_disjoint {a b : ℕ} {xs : List UInt8}
    (h : b + 2 ≤ a ∨ a + xs.length ≤ b) : (m.blit a xs).load16 b = m.load16 b := by
  rw [load16, load_blit_of_disjoint m _ h, load16]

@[simp] theorem load32_blit_self (x : UInt32) : (m.blit a (be32 x)).load32 a = x := by
  refine load32_of_slice ?_
  have h := m.slice_blit_self a (be32 x)
  rwa [length_be32] at h

theorem load32_blit_of_disjoint {a b : ℕ} {xs : List UInt8}
    (h : b + 4 ≤ a ∨ a + xs.length ≤ b) : (m.blit a xs).load32 b = m.load32 b := by
  rw [load32, load_blit_of_disjoint m _ h, load32]

theorem EqOn.load32_eq {m m' : Bytes} {a b c : ℕ} (h : EqOn m m' a b) (hc : a ≤ c)
    (hn : c + 4 ≤ b) : m.load32 c = m'.load32 c := by
  rw [load32, h.load_eq _ hc hn, load32]

end Memory
