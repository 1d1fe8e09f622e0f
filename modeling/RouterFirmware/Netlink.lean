import RouterFirmware.ByteOrder

/-!
# Netlink messages under construction

A message is built in a socket buffer piece by piece.
-/

namespace Netlink

open List ByteOrder

def align (n : ℕ) : ℕ := (n + 3) / 4 * 4

theorem le_align (n : ℕ) : n ≤ align n := by
  unfold align
  omega

structure Attr where
  type : ℕ
  payload : List UInt8

def Attr.bytes (host : ByteOrder) (a : Attr) : List UInt8 :=
  host.bytes 2 (4 + a.payload.length) ++ host.bytes 2 a.type ++ a.payload
    ++ replicate (align (4 + a.payload.length) - (4 + a.payload.length)) 0

variable (host : ByteOrder)

@[simp] theorem Attr.length_bytes (a : Attr) :
    (a.bytes host).length = align (4 + a.payload.length) := by
  have h := le_align (4 + a.payload.length)
  simp only [bytes, List.length_append, ByteOrder.length_bytes, length_replicate]
  omega

def encode (host : ByteOrder) (attrs : List Attr) : List UInt8 := attrs.flatMap (Attr.bytes host)

@[simp] theorem encode_nil : encode host [] = [] := rfl

@[simp] theorem encode_cons (a : Attr) (attrs : List Attr) :
    encode host (a :: attrs) = a.bytes host ++ encode host attrs := flatMap_cons

theorem encode_append (attrs attrs' : List Attr) :
    encode host (attrs ++ attrs') = encode host attrs ++ encode host attrs' := flatMap_append

theorem dvd_length_encode (attrs : List Attr) : 4 ∣ (encode host attrs).length := by
  induction attrs with
  | nil => exact Nat.dvd_zero 4
  | cons a attrs ih =>
    rw [encode_cons, length_append, Attr.length_bytes]
    exact Nat.dvd_add (Nat.dvd_mul_left 4 _) ih

/-! ## Socket buffers -/

structure Skb where
  room : ℕ
  data : List UInt8

namespace Skb

def empty (room : ℕ) : Skb := ⟨room, []⟩

def add (skb : Skb) (bs : List UInt8) : Skb := { skb with data := skb.data ++ bs }

variable (skb : Skb)

@[simp] theorem room_add (bs : List UInt8) : (skb.add bs).room = skb.room := rfl

@[simp] theorem data_add (bs : List UInt8) : (skb.add bs).data = skb.data ++ bs := rfl

@[simp] theorem add_nil : skb.add [] = skb := by
  rw [add, append_nil]

theorem add_add (bs bs' : List UInt8) : (skb.add bs).add bs' = skb.add (bs ++ bs') := by
  rw [add, add, add, append_assoc]

def Fits (skb : Skb) (n : ℕ) : Prop := skb.data.length + n ≤ skb.room

instance (skb : Skb) (n : ℕ) : Decidable (skb.Fits n) := inferInstanceAs (Decidable (_ ≤ _))

theorem fits_add {skb : Skb} {bs : List UInt8} {n : ℕ} :
    (skb.add bs).Fits n ↔ skb.Fits (bs.length + n) := by
  rw [Fits, Fits, room_add, data_add, length_append, Nat.add_assoc]

theorem Fits.mono {skb : Skb} {n k : ℕ} (h : skb.Fits n) (hk : k ≤ n) : skb.Fits k :=
  Nat.le_trans (Nat.add_le_add_left hk _) h

def set (skb : Skb) (a : ℕ) (bs : List UInt8) : Skb :=
  { skb with data := skb.data.take a ++ bs ++ skb.data.drop (a + bs.length) }

theorem set_add {old new rest : List UInt8} (h : new.length = old.length) :
    (skb.add (old ++ rest)).set skb.data.length new = skb.add (new ++ rest) := by
  unfold set
  rw [data_add, take_left, h, ← append_assoc, ← length_append, drop_left, append_assoc]
  rfl

end Skb

section Building

def nlaPut (skb : Skb) (a : Attr) : Option Skb :=
  if skb.Fits (align (4 + a.payload.length)) then some (skb.add (a.bytes host)) else none

def nlaPuts : List Attr → Skb → Bool × Skb
  | [], skb => (true, skb)
  | a :: attrs, skb =>
    match nlaPut host skb a with
    | none => (false, skb)
    | some skb => nlaPuts attrs skb

/-- The header of a generic netlink message, without its length. -/
structure Header where
  type : ℕ
  flags : ℕ
  seq : ℕ
  pid : ℕ
  cmd : UInt8
  version : UInt8

def Header.bytes (h : Header) (len : ℕ) : List UInt8 :=
  host.bytes 4 len ++ (host.bytes 2 h.type ++ host.bytes 2 h.flags ++ host.bytes 4 h.seq
    ++ host.bytes 4 h.pid ++ [h.cmd, h.version, 0, 0])

@[simp] theorem Header.length_bytes (h : Header) (len : ℕ) : (h.bytes host len).length = 20 := by
  simp [bytes]

def message (h : Header) (payload : List UInt8) : List UInt8 :=
  h.bytes host (20 + payload.length) ++ payload

@[simp] theorem length_message (h : Header) (payload : List UInt8) :
    (message host h payload).length = 20 + payload.length := by
  rw [message, length_append, Header.length_bytes]

def genlmsgPut (skb : Skb) (h : Header) : Option (ℕ × Skb) :=
  if skb.Fits 20 then some (skb.data.length, skb.add (h.bytes host 20)) else none

def genlmsgEnd (skb : Skb) (nlh : ℕ) : Skb := skb.set nlh (host.bytes 4 (skb.data.length - nlh))

def genlmsgCancel (skb : Skb) : Option ℕ → Skb
  | some nlh => { skb with data := skb.data.take nlh }
  | none => skb

def nlaNestStart (skb : Skb) (type : ℕ) : Option ℕ × Skb :=
  match nlaPut host skb ⟨type, []⟩ with
  | none => (none, skb)
  | some skb' => (some skb.data.length, skb')

def nlaNestEnd (skb : Skb) (start : ℕ) : Skb :=
  skb.set start (host.bytes 2 (skb.data.length - start))

variable {host} (skb : Skb)

theorem genlmsgEnd_put (h : Header) (payload : List UInt8) :
    genlmsgEnd host (skb.add (h.bytes host 20 ++ payload)) skb.data.length
      = skb.add (message host h payload) := by
  have hlen : (skb.add (h.bytes host 20 ++ payload)).data.length - skb.data.length
      = 20 + payload.length := by
    rw [Skb.data_add, length_append, length_append, Header.length_bytes]
    omega
  rw [genlmsgEnd, hlen, Header.bytes, append_assoc (host.bytes 4 20),
    Skb.set_add _ (by rw [length_bytes, length_bytes]), message, Header.bytes,
    append_assoc (host.bytes 4 _)]

theorem genlmsgCancel_add (bs : List UInt8) :
    genlmsgCancel (skb.add bs) (some skb.data.length) = skb := by
  rw [genlmsgCancel, Skb.data_add, take_left]
  rfl

theorem nestEnd_append (type : ℕ) (attrs : List Attr) :
    nlaNestEnd host (skb.add ((⟨type, []⟩ : Attr).bytes host ++ encode host attrs))
        skb.data.length
      = skb.add ((⟨type, encode host attrs⟩ : Attr).bytes host) := by
  obtain ⟨k, hk⟩ := dvd_length_encode host attrs
  have hpad : align (4 + (encode host attrs).length) - (4 + (encode host attrs).length) = 0 := by
    rw [hk]
    unfold align
    omega
  have hlen : (skb.add ((⟨type, []⟩ : Attr).bytes host ++ encode host attrs)).data.length
      - skb.data.length = 4 + (encode host attrs).length := by
    rw [Skb.data_add, length_append, length_append, Attr.length_bytes]
    show _ + (align (4 + 0) + _) - _ = _
    rw [show align (4 + 0) = 4 from rfl]
    omega
  have hstart : (⟨type, []⟩ : Attr).bytes host = host.bytes 2 4 ++ host.bytes 2 type := by
    rw [Attr.bytes, show align (4 + ([] : List UInt8).length) - (4 + ([] : List UInt8).length) = 0
      from rfl, replicate_zero, append_nil, append_nil]
    rfl
  rw [nlaNestEnd, hlen, hstart, append_assoc, Skb.set_add _ (by rw [length_bytes, length_bytes]),
    Attr.bytes, hpad, replicate_zero, append_nil, append_assoc]

variable {skb}

theorem nlaPut_of_fits {a : Attr} (h : skb.Fits (a.bytes host).length) :
    nlaPut host skb a = some (skb.add (a.bytes host)) := by
  rw [Attr.length_bytes] at h
  exact if_pos h

theorem nlaPut_of_not_fits {a : Attr} (h : ¬ skb.Fits (a.bytes host).length) :
    nlaPut host skb a = none := by
  rw [Attr.length_bytes] at h
  exact if_neg h

theorem nlaPuts_of_fits {attrs : List Attr} (h : skb.Fits (encode host attrs).length) :
    nlaPuts host attrs skb = (true, skb.add (encode host attrs)) := by
  induction attrs generalizing skb with
  | nil => rw [nlaPuts, encode_nil, Skb.add_nil]
  | cons a attrs ih =>
    rw [encode_cons, length_append] at h
    rw [nlaPuts, nlaPut_of_fits (h.mono (Nat.le_add_right _ _))]
    show nlaPuts host attrs _ = _
    rw [ih (Skb.fits_add.mpr h), Skb.add_add, encode_cons]

theorem nlaPuts_of_not_fits {attrs : List Attr} (h : ¬ skb.Fits (encode host attrs).length)
    (hskb : skb.Fits 0) : ∃ sent a rest, attrs = sent ++ a :: rest
    ∧ nlaPuts host attrs skb = (false, skb.add (encode host sent))
    ∧ skb.Fits (encode host sent).length
    ∧ ¬ skb.Fits ((encode host sent).length + (a.bytes host).length) := by
  induction attrs generalizing skb with
  | nil => exact absurd hskb h
  | cons a attrs ih =>
    by_cases ha : skb.Fits (a.bytes host).length
    · rw [encode_cons, length_append] at h
      have hrest : ¬ (skb.add (a.bytes host)).Fits (encode host attrs).length :=
        fun hfits => h (Skb.fits_add.mp hfits)
      obtain ⟨sent, a', rest, rfl, heq, hfits, hnext⟩ := ih hrest (Skb.fits_add.mpr ha)
      rw [Skb.fits_add] at hfits hnext
      refine ⟨a :: sent, a', rest, rfl, ?_, ?_, ?_⟩
      · rw [nlaPuts, nlaPut_of_fits ha]
        show nlaPuts host _ _ = _
        rw [heq, Skb.add_add, encode_cons]
      · rwa [encode_cons, length_append]
      · rwa [encode_cons, length_append, Nat.add_assoc]
    · refine ⟨[], a, attrs, rfl, ?_, hskb, ?_⟩
      · rw [nlaPuts, nlaPut_of_not_fits ha, encode_nil, Skb.add_nil]
      · rwa [encode_nil, length_nil, Nat.zero_add]

end Building

end Netlink
