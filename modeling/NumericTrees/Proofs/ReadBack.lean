import Mathlib.Data.Set.Function
import NumericTrees.Wire.Codec

/-!
# Reading back what was written

The byte form of an item ends by itself: a reader that is given the bytes of an item and anything
after them answers the item and leaves the rest. One notion carries all of it, that a reader reads
an item from certain bytes; it passes from the parts of an item to the item.
-/

namespace NumericTrees

open Wire

/-- The reader takes exactly the bytes for the item, whatever comes behind them. -/
def Reads {α : Type} (read : Reader α) (bytes : List UInt8) (item : α) : Prop :=
  ∀ rest, read (bytes ++ rest) = .ok (item, rest)

namespace Reads

variable {α β : Type} {read : Reader α} {next : α → Reader β} {bytes bytes' : List UInt8} {a : α}
  {b : β}

lemma bind (h : Reads read bytes a) (hnext : Reads (next a) bytes' b) :
    Reads (read >>= next) (bytes ++ bytes') b := by
  intro rest
  have hread : read (bytes ++ bytes' ++ rest) = .ok (a, bytes' ++ rest) := by
    rw [List.append_assoc]
    exact h (bytes' ++ rest)
  change (read (bytes ++ bytes' ++ rest)).bind (fun p => next p.1 p.2) = _
  rw [hread]
  exact hnext rest

lemma pure (a : α) : Reads (Pure.pure a) [] a := fun _ => rfl

lemma finish (h : Reads read bytes a) (hnext : next a = Pure.pure b) :
    Reads (read >>= next) bytes b := by
  have hpure : Reads (next a) [] b := by
    rw [hnext]
    exact pure b
  rw [← List.append_nil bytes]
  exact h.bind hpure

lemma map (h : Reads read bytes a) (f : α → β) : Reads (f <$> read) bytes (f a) := by
  rw [← bind_pure_comp]
  exact h.finish rfl

end Reads

namespace Wire

/-! ### Parts of items -/

lemma reads_take (bytes : List UInt8) : Reads (Reader.take bytes.length) bytes bytes := by
  intro rest
  have hle : bytes.length ≤ (bytes ++ rest).length := by simp
  rw [Reader.take, if_pos hle, List.take_left, List.drop_left]

/-- A number of variable length reads back under every width that it fits into. -/
lemma reads_varint {n width : Nat} (h : n < Nat.pow 2 width) :
    Reads (Varint.read width) (Varint.encode n) n := by
  intro rest
  change Varint.decode width (Varint.encode n ++ rest) = _
  induction n using Varint.encode.induct generalizing width with
  | case1 n hsmall =>
    have hbyte : (UInt8.ofNat n).toNat = n := by
      rw [UInt8.toNat_ofNat']
      omega
    have hlast : UInt8.ofNat n < 128 := by
      rw [UInt8.lt_iff_toNat_lt, hbyte]
      exact hsmall
    rw [Varint.encode, if_pos hsmall, List.singleton_append, Varint.decode, if_pos hlast, hbyte,
      if_pos h]
  | case2 n hbig ih =>
    have hbyte : (UInt8.ofNat (n % 128 + 128)).toNat = n % 128 + 128 := by
      rw [UInt8.toNat_ofNat']
      omega
    have hgoesOn : ¬ UInt8.ofNat (n % 128 + 128) < 128 := by
      rw [UInt8.lt_iff_toNat_lt, hbyte]
      change ¬ n % 128 + 128 < 128
      omega
    -- A number that needs more than one group has more than seven bits.
    have hwidth : ¬ width ≤ 7 := by
      intro hle
      have hpow : Nat.pow 2 width ≤ Nat.pow 2 7 := Nat.pow_le_pow_right (by decide) hle
      have hseven : Nat.pow 2 7 = 128 := rfl
      omega
    have hhigh : n / 128 < Nat.pow 2 (width - 7) := by
      have hsplit : Nat.pow 2 (width - 7 + 7) = Nat.pow 2 (width - 7) * 128 := Nat.pow_add ..
      rw [Nat.sub_add_cancel (by omega)] at hsplit
      rw [Nat.div_lt_iff_lt_mul (by decide), ← hsplit]
      exact h
    have hgroups : (n % 128 + 128) % 128 + 128 * (n / 128) = n := by omega
    rw [Varint.encode, if_neg hbig, List.cons_append, Varint.decode, if_neg hgoesOn, if_neg hwidth,
      ih hhigh]
    simp only [hbyte, hgroups]

lemma reads_variant (index : Nat) (h : index < Nat.pow 2 32) :
    Reads readVariant (encodeVariant index) index := reads_varint h

lemma reads_integer {n : Int} {width : Nat} (h : zigzag n < Nat.pow 2 width) :
    Reads (readInteger width) (encodeInteger n) n := by
  have hmap := (reads_varint h).map unzigzag
  rw [unzigzag_zigzag] at hmap
  exact hmap

/-- The integers of a width in two's complement are those whose places have as many bits. -/
lemma zigzag_lt {n : Int} (half : Nat) (hlow : -(half : Int) ≤ n) (hhigh : n < half) :
    zigzag n < 2 * half := by
  unfold zigzag
  split <;> omega

lemma reads_word {f : Format} (x : Binary f) (h : 2 * f.codes ≤ Nat.pow 256 f.wordBytes) :
    Reads (readWord f) (encodeWord x) x := by
  have hfits : x.toBits < Nat.pow 256 f.wordBytes := Nat.lt_of_lt_of_le x.toBits_lt h
  have hlength : (encodeWord x).length = f.wordBytes := length_littleEndian _ _
  have htake := reads_take (encodeWord x)
  rw [hlength] at htake
  apply htake.finish
  rw [encodeWord, ofLittleEndian_littleEndian _ _ hfits, Binary.ofBits_toBits]

lemma reads_bool (b : Bool) : Reads readBool (encodeBool b) b := by
  intro rest
  cases b <;> rfl

lemma reads_text {s : String} (h : (Text.utf8 s).length < Nat.pow 2 64) :
    Reads readText (encodeText s) s := by
  apply (reads_varint h).bind
  apply (reads_take (Text.utf8 s)).finish
  rw [Text.ofUtf8?_utf8]

end Wire

/-! ### Items -/

lemma Kind.reads (kind : Kind) : Reads Kind.read kind.encode kind := by
  cases kind with
  | int32 => exact (reads_variant 0 (by decide)).finish rfl
  | int64 => exact (reads_variant 1 (by decide)).finish rfl
  | float32 => exact (reads_variant 2 (by decide)).finish rfl
  | float64 => exact (reads_variant 3 (by decide)).finish rfl

lemma ValueType.reads (type : ValueType) : Reads ValueType.read type.encode type := by
  cases type with
  | numeric kind =>
    apply (reads_variant 0 (by decide)).bind
    exact kind.reads.finish rfl
  | bool => exact (reads_variant 1 (by decide)).finish rfl
  | str => exact (reads_variant 2 (by decide)).finish rfl

lemma Number.reads (n : Number) : Reads Number.read n.encode n := by
  cases n with
  | int32 n =>
    have hplace : zigzag n.toInt < Nat.pow 2 32 :=
      zigzag_lt (2 ^ 31) n.le_toInt n.toInt_lt
    apply (reads_variant 0 (by decide)).bind
    apply (reads_integer hplace).finish
    rw [Int32.ofInt_toInt]
  | int64 n =>
    have hplace : zigzag n.toInt < Nat.pow 2 64 :=
      zigzag_lt (2 ^ 63) n.le_toInt n.toInt_lt
    apply (reads_variant 1 (by decide)).bind
    apply (reads_integer hplace).finish
    rw [Int64.ofInt_toInt]
  | float32 x =>
    apply (reads_variant 2 (by decide)).bind
    exact (reads_word x (by decide)).finish rfl
  | float64 x =>
    apply (reads_variant 3 (by decide)).bind
    exact (reads_word x (by decide)).finish rfl

/-- The length of a text in bytes is a number of 64 bits, as it is for every text in a memory with
addresses of that width. -/
def Value.Fits : Value → Prop
  | str s => (Text.utf8 s).length < Nat.pow 2 64
  | number _ | bool _ => True

lemma Value.reads {v : Value} (h : v.Fits) : Reads Value.read v.encode v := by
  cases v with
  | number n =>
    apply (reads_variant 0 (by decide)).bind
    exact n.reads.finish rfl
  | bool b =>
    apply (reads_variant 1 (by decide)).bind
    exact (reads_bool b).finish rfl
  | str s =>
    apply (reads_variant 2 (by decide)).bind
    exact (reads_text h).finish rfl

/-- Items are told by their bytes, wherever these stand in front of others. -/
structure Invertible {α : Type} (items : Set α) (encode : α → List UInt8) (read : Reader α) :
    Prop where
  readsBack : ∀ x ∈ items, ∀ rest, read (encode x ++ rest) = .ok (x, rest)
  injective : Set.InjOn encode items
  prefixFree : ∀ x ∈ items, ∀ y ∈ items, encode x <+: encode y → encode x = encode y

lemma Invertible.of_reads {α : Type} {items : Set α} {encode : α → List UInt8} {read : Reader α}
    (h : ∀ x ∈ items, Reads read (encode x) x) : Invertible items encode read := by
  -- One reader on the longer of two byte sequences cannot answer both items.
  have hfront : ∀ x ∈ items, ∀ y ∈ items, encode x <+: encode y → x = y := by
    rintro x hx y hy ⟨rest, hbytes⟩
    have hread := h x hx rest
    have hread' := h y hy []
    rw [List.append_nil, ← hbytes, hread] at hread'
    cases hread'
    rfl
  constructor
  case readsBack => exact h
  case injective =>
    intro x hx y hy hbytes
    exact hfront x hx y hy ⟨[], by rw [List.append_nil, hbytes]⟩
  case prefixFree =>
    intro x hx y hy hle
    rw [hfront x hx y hy hle]

/-- Kinds, types, numbers and values read back exactly, in front of any bytes, and no byte form is
the front of another one. Numbers keep all their bits, those of a NaN too. -/
theorem read_inverts_encode :
    Invertible Set.univ Kind.encode Kind.read ∧
    Invertible Set.univ ValueType.encode ValueType.read ∧
    Invertible Set.univ Number.encode Number.read ∧
    Invertible {v | v.Fits} Value.encode Value.read := by
  refine ⟨?_, ?_, ?_, ?_⟩
  · exact .of_reads fun kind _ => kind.reads
  · exact .of_reads fun type _ => type.reads
  · exact .of_reads fun n _ => n.reads
  · exact .of_reads fun _ hfits => Value.reads hfits

/-- A text whose characters have one, two and three bytes, in front of a continuation byte. -/
theorem read_inverts_encode_text :
    (Value.str "aé€").Fits ∧
    Value.read ((Value.str "aé€").encode ++ [0xff]) = .ok (.str "aé€", [0xff]) := by
  have hfits : (Value.str "aé€").Fits := by
    change (Text.utf8 "aé€").length < Nat.pow 2 64
    decide
  obtain ⟨_, _, _, hvalue⟩ := read_inverts_encode
  exact ⟨hfits, hvalue.readsBack _ hfits _⟩

end NumericTrees
