import Mathlib.Algebra.BigOperators.Group.List.Basic
import Mathlib.Algebra.Ring.Nat
import Mathlib.Data.Vector.Basic

-- Structures in memory: members at offsets that their alignment allows, and the same members written
-- one after another.
namespace Layout

namespace LittleEndian

def encode : Nat → Nat → List UInt8
  | 0, _     => []
  | w + 1, n => n.toUInt8 :: encode w (n / 256)

def decode : List UInt8 → Nat
  | []      => 0
  | b :: bs => b.toNat + 256 * decode bs

theorem length_encode : (encode w n).length = w := by
  induction w generalizing n
  case zero         => rfl
  case succ w hi    => rw [encode, List.length_cons, hi]

theorem decode_encode (h : n < 256 ^ w) : decode (encode w n) = n := by
  induction w generalizing n
  case zero      => rw [Nat.pow_zero, Nat.lt_one_iff] at h; exact h.symm
  case succ w hi =>
    have hd : n / 256 < 256 ^ w := Nat.div_lt_of_lt_mul (by rw [Nat.pow_succ'] at h; exact h)
    rw [encode, decode, hi hd, Nat.toUInt8_eq, UInt8.toNat_ofNat']
    exact Nat.mod_add_div n 256

theorem encode_decode : encode bs.length (decode bs) = bs := by
  induction bs
  case nil          => rfl
  case cons b bs hi =>
    have hb : b.toNat < 256 := b.toNat_lt
    have hd : (b.toNat + 256 * decode bs) / 256 = decode bs := by omega
    have hm : (b.toNat + 256 * decode bs).toUInt8 = b := by
      apply UInt8.toNat_inj.mp
      rw [Nat.toUInt8_eq, UInt8.toNat_ofNat']
      omega
    rw [List.length_cons, decode, encode, hd, hm, hi]

theorem decode_lt : decode bs < 256 ^ bs.length := by
  induction bs
  case nil          => exact Nat.one_pos
  case cons b bs hi =>
    have hb : b.toNat < 256 := b.toNat_lt
    rw [decode, List.length_cons, Nat.pow_succ]
    omega

end LittleEndian

-- A type whose values are the strings of `size` bytes.
structure Codec (α : Type) where
  size          : Nat
  align         : Nat
  encode        : α → List UInt8
  decode        : List UInt8 → α
  length_encode : ∀ a, (encode a).length = size
  decode_encode : ∀ a, decode (encode a) = a
  encode_decode : ∀ bs, bs.length = size → encode (decode bs) = bs

namespace Codec

-- An integer of `w` bytes, which is aligned naturally.
def int {α : Type} (w : Nat) (toNat : α → Nat) (ofNat : Nat → α) (lt : ∀ a, toNat a < 256 ^ w) 
    (ofNat_toNat : ∀ a, ofNat (toNat a) = a) (toNat_ofNat : ∀ n, n < 256 ^ w → toNat (ofNat n) = n) : 
    Codec α where
  size            := w
  align           := w
  encode a        := LittleEndian.encode w (toNat a)
  decode bs       := ofNat (LittleEndian.decode bs)
  length_encode _ := LittleEndian.length_encode
  decode_encode a := by rw [LittleEndian.decode_encode (lt a), ofNat_toNat]
  encode_decode bs h := by
    rw [toNat_ofNat _ (h ▸ LittleEndian.decode_lt), ← h, LittleEndian.encode_decode]

def uint16 : Codec UInt16 :=
  .int 2 UInt16.toNat UInt16.ofNat (fun a => a.toNat_lt) (fun _ => UInt16.ofNat_toNat) 
    fun _ => UInt16.toNat_ofNat_of_lt'

def uint32 : Codec UInt32 :=
  .int 4 UInt32.toNat UInt32.ofNat (fun a => a.toNat_lt) (fun _ => UInt32.ofNat_toNat) 
    fun _ => UInt32.toNat_ofNat_of_lt'

def uint64 : Codec UInt64 :=
  .int 8 UInt64.toNat UInt64.ofNat (fun a => a.toNat_lt) (fun _ => UInt64.ofNat_toNat) 
    fun _ => UInt64.toNat_ofNat_of_lt'

-- In two's complement.
def int32 : Codec Int32 :=
  .int 4 (·.toUInt32.toNat) (UInt32.ofNat · |>.toInt32) (fun a => a.toUInt32.toNat_lt) 
    (fun a => by rw [UInt32.ofNat_toNat]; rfl) fun n h => UInt32.toNat_ofNat_of_lt' h

def bytes (n : Nat) : Codec (List.Vector UInt8 n) where
  size            := n
  align           := 1
  encode v        := v.toList
  decode bs       := ⟨(bs ++ List.replicate n 0).take n, by simp⟩
  length_encode v := v.toList_length
  decode_encode v := by
    apply List.Vector.toList_injective
    rw [List.Vector.toList_mk, List.take_append_of_le_length v.toList_length.ge]
    exact List.take_of_length_le v.toList_length.le
  encode_decode bs h := by
    rw [List.Vector.toList_mk, List.take_append_of_le_length h.ge, List.take_of_length_le h.le]

end Codec

-- A member of a structure `σ`.
structure Member (σ : Type) where
  {α : Type}
  codec : Codec α
  get   : σ → α

namespace Member

variable {σ : Type}

abbrev size (m : Member σ) : Nat :=
  m.codec.size

abbrev align (m : Member σ) : Nat :=
  m.codec.align

def load (m : Member σ) (mem : List UInt8) (offset : Nat) : m.α :=
  m.codec.decode ((mem.drop offset).take m.size)

end Member

section Struct

variable {σ : Type} {m : Member σ} {ms : List (Member σ)} {s s' : σ} {mem pre : List UInt8} 
         {off align : Nat}

-- The next multiple of the alignment.
def alignUp (off align : Nat) : Nat :=
  off + (align - off % align) % align

-- The members with their offsets: each lies at the next offset that its alignment allows.
def place : Nat → List (Member σ) → List (Member σ × Nat)
  | _, []        => []
  | off, m :: ms => (m, alignUp off m.align) :: place (alignUp off m.align + m.size) ms

def extent : Nat → List (Member σ) → Nat
  | off, []      => off
  | off, m :: ms => extent (alignUp off m.align + m.size) ms

-- The size is a multiple of the greatest alignment.
def sizeof (ms : List (Member σ)) : Nat :=
  alignUp (extent 0 ms) (ms.foldr (max ·.align) 1)

-- The memory of a structure. Nothing is known of the bytes between the members.
structure Represents (ms : List (Member σ)) (s : σ) (mem : List UInt8) : Prop where
  length : mem.length = sizeof ms
  load   : ∀ p ∈ place 0 ms, p.fst.load mem p.snd = p.fst.get s

-- The members one after another.
def pack (ms : List (Member σ)) (s : σ) : List UInt8 :=
  ms.flatMap fun m => m.codec.encode (m.get s)

def packedSize (ms : List (Member σ)) : Nat :=
  (ms.map (·.size)).sum

theorem le_alignUp : off ≤ alignUp off align :=
  Nat.le_add_right ..

theorem le_extent : off + packedSize ms ≤ extent off ms := by
  induction ms generalizing off
  case nil          => exact Nat.le_refl _
  case cons m ms hi =>
    have ha : off ≤ alignUp off m.align := le_alignUp
    have hm : packedSize (m :: ms) = m.size + packedSize ms := by simp [packedSize]
    have : alignUp off m.align + m.size + packedSize ms ≤ extent (alignUp off m.align + m.size) ms := hi
    rw [extent, hm]
    omega

theorem length_pack : (pack ms s).length = packedSize ms := by
  simp [pack, packedSize, List.length_flatMap, Codec.length_encode]

theorem extent_cons (h : extent off (m :: ms) = off + packedSize (m :: ms)) : 
    alignUp off m.align = off ∧ extent (off + m.size) ms = off + m.size + packedSize ms := by
  have ha : off ≤ alignUp off m.align := le_alignUp
  have hm : packedSize (m :: ms) = m.size + packedSize ms := by simp [packedSize]
  have he : alignUp off m.align + m.size + packedSize ms ≤ extent off (m :: ms) := le_extent
  have hu : alignUp off m.align = off := by omega
  refine ⟨hu, ?_⟩
  rw [extent, hu] at h
  omega

-- Without a gap, the members are found where they have been packed.
theorem load_iff_eq_pack (h : extent pre.length ms = pre.length + packedSize ms) 
    (hl : mem.length = packedSize ms) : 
    (∀ p ∈ place pre.length ms, p.fst.load (pre ++ mem) p.snd = p.fst.get s) ↔ mem = pack ms s := by
  induction ms generalizing pre mem
  case nil => 
    rw [List.length_eq_zero_iff.mp hl]
    simp [place, pack]
  case cons m ms hi =>
    have ⟨hu, he⟩ := extent_cons h
    have hm : packedSize (m :: ms) = m.size + packedSize ms := by simp [packedSize]
    have hd : mem = mem.take m.size ++ mem.drop m.size := (List.take_append_drop ..).symm
    have ht : (mem.take m.size).length = m.size := by rw [List.length_take]; omega
    have hp : (pre ++ mem.take m.size).length = pre.length + m.size := by rw [List.length_append, ht]
    have hh : m.load (pre ++ mem) pre.length = m.get s ↔ mem.take m.size = m.codec.encode (m.get s) := by
      rw [Member.load, List.drop_left]
      exact ⟨fun h => by rw [← h, m.codec.encode_decode _ ht], fun h => by rw [h, m.codec.decode_encode]⟩
    have hr : (∀ p ∈ place (pre.length + m.size) ms, p.fst.load (pre ++ mem) p.snd = p.fst.get s) ↔ 
        mem.drop m.size = pack ms s := by
      have h := @hi (mem.drop m.size) (pre ++ mem.take m.size) (by rw [hp]; exact he) 
        (by rw [List.length_drop]; omega)
      rw [hp, List.append_assoc, ← hd] at h
      exact h
    rw [place, hu, List.forall_mem_cons, hh, hr]
    constructor
    case mp  => exact fun ⟨h₁, h₂⟩ => by rw [hd, h₁, h₂]; rfl
    case mpr =>
      intro h
      have hc : mem.take m.size ++ mem.drop m.size = m.codec.encode (m.get s) ++ pack ms s := hd ▸ h
      exact List.append_inj hc (by rw [ht, m.codec.length_encode])

-- A structure whose size is the sum of the sizes of its members has no gap.
theorem represents_iff (h : sizeof ms = packedSize ms) : Represents ms s mem ↔ mem = pack ms s := by
  have he : extent 0 ms = 0 + packedSize ms := by
    have h₁ : 0 + packedSize ms ≤ extent 0 ms := le_extent
    have h₂ : extent 0 ms ≤ sizeof ms := le_alignUp
    omega
  constructor
  case mp  => exact fun ⟨hl, ho⟩ => @load_iff_eq_pack _ _ _ _ [] he (hl.trans h) |>.mp ho
  case mpr =>
    intro hm
    have hl : mem.length = packedSize ms := hm ▸ length_pack
    exact ⟨hl.trans h.symm, @load_iff_eq_pack _ _ _ _ [] he hl |>.mpr hm⟩

end Struct

-- Reads a value from the start of a string of at least `size` bytes.
structure Decoder (β : Type) where
  size   : Nat
  decode : List UInt8 → β

namespace Decoder

variable {α β : Type} {d : Decoder (α → β)} {c : Codec α} {bs : List UInt8} {f : α → β} {a : α}

def pure (b : β) : Decoder β where
  size     := 0
  decode _ := b

-- The next field.
def field (d : Decoder (α → β)) (c : Codec α) : Decoder β where
  size      := d.size + c.size
  decode bs := d.decode bs (c.decode ((bs.drop d.size).take c.size))

-- The bytes that `d` reads as `b`, whatever follows them.
structure Reads (d : Decoder β) (bs : List UInt8) (b : β) : Prop where
  size   : d.size = bs.length
  decode : ∀ rest, d.decode (bs ++ rest) = b

theorem Reads.pure {b : β} : Reads (.pure b) [] b :=
  ⟨rfl, fun _ => rfl⟩

theorem Reads.field (h : Reads d bs f) (a : α) : Reads (d.field c) (bs ++ c.encode a) (f a) where
  size   := by rw [List.length_append, c.length_encode, ← h.size]; rfl
  decode := by
    intro rest
    have ht : ((c.encode a ++ rest).take c.size) = c.encode a := by
      rw [← c.length_encode a, List.take_left]
    simp only [Decoder.field, List.append_assoc, h.size, h.decode, List.drop_left, ht, c.decode_encode]

end Decoder
end Layout
