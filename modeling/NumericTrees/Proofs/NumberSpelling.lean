import NumericTrees.Proofs.ReadBack

/-!
# Spellings of numbers of variable length

A reader of numbers takes more bytes than are written: a number may be followed by groups that add
nothing to it. This file says which bytes are read as which number, that all of their proper fronts
are refused for ending, and that what is written is the shortest of them and the only one in which
every group is needed.
-/

namespace NumericTrees

open Wire

namespace Wire.Varint

variable {width n : Nat} {b : UInt8} {bytes front rest : List UInt8}

/-- The number that groups of seven bits denote, the lowest first. -/
def value : List UInt8 → Nat
  | [] => 0
  | b :: rest => b.toNat % 128 + 128 * value rest

/-- Bytes that a number of at most `width` bits may stand in: every byte but the last goes on, there
are no more of them than the width asks for, and no bits beyond it. -/
structure Spells (width n : Nat) (bytes : List UInt8) : Prop where
  groups : ∃ front last, bytes = front ++ [last] ∧ (∀ b ∈ front, 128 ≤ b) ∧ last < 128
  length_le : bytes.length ≤ (width + 6) / 7
  value_eq : value bytes = n
  lt : n < Nat.pow 2 width

lemma Spells.ne_nil (h : Spells width n bytes) : bytes ≠ [] := by
  obtain ⟨front, last, rfl, -⟩ := h.groups
  simp

lemma Spells.width_pos (h : Spells width n bytes) : 0 < width := by
  have hpos := List.length_pos_iff.mpr h.ne_nil
  have hle := h.length_le
  omega

lemma spells_singleton (hwidth : 0 < width) :
    Spells width n [b] ↔ b < 128 ∧ b.toNat = n ∧ n < Nat.pow 2 width := by
  have hvalue (hb : b < 128) : value [b] = b.toNat := by
    rw [UInt8.lt_iff_toNat_lt] at hb
    exact Nat.mod_eq_of_lt hb
  constructor
  · intro h
    obtain ⟨front, last, hbytes, -, hlast⟩ := h.groups
    obtain ⟨rfl, hsingle⟩ | ⟨-, hnil⟩ := List.append_eq_singleton_iff.mp hbytes.symm
    · cases hsingle
      exact ⟨hlast, (hvalue hlast).symm.trans h.value_eq, h.lt⟩
    · cases hnil
  · rintro ⟨hb, rfl, hlt⟩
    refine ⟨⟨[], b, rfl, by simp, hb⟩, ?_, hvalue hb, hlt⟩
    rw [List.length_singleton]
    omega

lemma lt_two_pow_iff (hwidth : 7 < width) (low high : Nat) (hlow : low < 128) :
    low + 128 * high < Nat.pow 2 width ↔ high < Nat.pow 2 (width - 7) := by
  have hsplit : Nat.pow 2 (width - 7 + 7) = Nat.pow 2 (width - 7) * 128 := Nat.pow_add ..
  rw [Nat.sub_add_cancel (by omega)] at hsplit
  omega

lemma spells_cons (hne : bytes ≠ []) :
    Spells width n (b :: bytes) ↔ 128 ≤ b ∧ 7 < width ∧
      Spells (width - 7) (value bytes) bytes ∧ n = b.toNat % 128 + 128 * value bytes := by
  have hpos : 0 < bytes.length := List.length_pos_iff.mpr hne
  have hlow : b.toNat % 128 < 128 := Nat.mod_lt _ (by decide)
  constructor
  · intro h
    obtain ⟨front, last, hbytes, hfront, hlast⟩ := h.groups
    have hlength := h.length_le
    rw [List.length_cons] at hlength
    have hwidth : 7 < width := by omega
    cases front with
    | nil =>
      cases hbytes
      exact absurd rfl hne
    | cons c front =>
      rw [List.cons_append, List.cons.injEq] at hbytes
      obtain ⟨rfl, rfl⟩ := hbytes
      rw [List.forall_mem_cons] at hfront
      refine ⟨hfront.1, hwidth, ⟨⟨front, last, rfl, hfront.2, hlast⟩, by omega, rfl, ?_⟩,
        h.value_eq.symm⟩
      have hlt := h.lt
      rw [← h.value_eq, value, lt_two_pow_iff hwidth _ _ hlow] at hlt
      exact hlt
  · rintro ⟨hb, hwidth, h, rfl⟩
    obtain ⟨front, last, hbytes, hfront, hlast⟩ := h.groups
    have hlength := h.length_le
    refine ⟨⟨b :: front, last, by rw [hbytes, List.cons_append], ?_, hlast⟩, ?_, rfl, ?_⟩
    · exact List.forall_mem_cons.mpr ⟨hb, hfront⟩
    · rw [List.length_cons]
      omega
    · exact (lt_two_pow_iff hwidth _ _ hlow).mpr h.lt

lemma decode_last (hb : b < 128) (hlt : b.toNat < Nat.pow 2 width) :
    decode width (b :: rest) = .ok (b.toNat, rest) := by
  rw [decode, if_pos hb, if_pos hlt]

lemma decode_more (hb : 128 ≤ b) (hwidth : 7 < width) :
    decode width (b :: rest) =
      (decode (width - 7) rest).map fun p => (b.toNat % 128 + 128 * p.1, p.2) := by
  rw [decode, if_neg (UInt8.not_lt.mpr hb), if_neg (by omega)]
  cases decode (width - 7) rest <;> rfl

lemma exists_spells_of_decode (hwidth : 0 < width) (h : decode width bytes = .ok (n, rest)) :
    ∃ front, Spells width n front ∧ bytes = front ++ rest := by
  induction bytes generalizing width n with
  | nil => cases h
  | cons b bytes ih =>
    rw [decode] at h
    split at h
    · next hb =>
      split at h
      · next hlt =>
        cases h
        exact ⟨[b], (spells_singleton hwidth).mpr ⟨hb, rfl, hlt⟩, rfl⟩
      · cases h
    · next hb =>
      split at h
      · cases h
      · next hmore =>
        split at h
        · next high rest' hrest =>
          cases h
          obtain ⟨front, hfront, rfl⟩ := ih (by omega) hrest
          obtain rfl := hfront.value_eq
          exact ⟨b :: front, (spells_cons hfront.ne_nil).mpr
            ⟨UInt8.not_lt.mp hb, by omega, hfront, rfl⟩, rfl⟩
        · cases h

lemma Spells.decode_append (h : Spells width n front) :
    decode width (front ++ rest) = .ok (n, rest) := by
  induction front generalizing width n with
  | nil => exact absurd rfl h.ne_nil
  | cons b front ih =>
    by_cases hne : front = []
    · subst hne
      obtain ⟨hb, rfl, hlt⟩ := (spells_singleton h.width_pos).mp h
      exact decode_last hb hlt
    · obtain ⟨hb, hmore, hfront, rfl⟩ := (spells_cons hne).mp h
      rw [List.cons_append, decode_more hb hmore, ih hfront]
      rfl

lemma Spells.decode_prefix (h : Spells width n bytes) (hle : front <+: bytes)
    (hne : front ≠ bytes) : decode width front = .error .unexpectedEnd := by
  induction front generalizing width n bytes with
  | nil => rfl
  | cons b front ih =>
    obtain ⟨rest, rfl⟩ := hle
    have hrest : rest ≠ [] := by
      rintro rfl
      exact hne (List.append_nil _).symm
    have htail : front ++ rest ≠ [] := by simp [hrest]
    rw [List.cons_append, spells_cons htail] at h
    obtain ⟨hb, hmore, hfront, -⟩ := h
    have hshort : front ≠ front ++ rest := by simpa using hrest
    rw [decode_more hb hmore, ih hfront (List.prefix_append _ _) hshort]
    rfl

lemma spells_encode (hwidth : 0 < width) (h : n < Nat.pow 2 width) :
    Spells width n (encode n) := by
  have hread : decode width (encode n ++ []) = .ok (n, []) := reads_varint h []
  obtain ⟨front, hfront, hbytes⟩ := exists_spells_of_decode hwidth hread
  rw [List.append_nil, List.append_nil] at hbytes
  rwa [hbytes]

/-! ### Needless groups -/

/-- The last byte adds nothing to the bytes before it, the last of which only goes on for its
sake. -/
def Padded (bytes : List UInt8) : Prop := ∃ front b, bytes = front ++ [b, 0] ∧ 128 ≤ b

lemma padded_cons (hne : bytes ≠ []) (hb : 128 ≤ b) :
    Padded (b :: bytes) ↔ bytes = [0] ∨ Padded bytes := by
  constructor
  · rintro ⟨front, c, hbytes, hc⟩
    cases front with
    | nil =>
      cases hbytes
      exact .inl rfl
    | cons d front =>
      cases hbytes
      exact .inr ⟨front, c, rfl, hc⟩
  · rintro (rfl | ⟨front, c, rfl, hc⟩)
    · exact ⟨[], b, rfl, hb⟩
    · exact ⟨b :: front, c, rfl, hc⟩

lemma not_padded_singleton (b : UInt8) : ¬ Padded [b] := by
  rintro ⟨front, c, hbytes, -⟩
  have hlength := congrArg List.length hbytes
  simp at hlength

lemma ofNat_toNat_mod (hb : 128 ≤ b) : UInt8.ofNat (b.toNat % 128 + 128) = b := by
  rw [UInt8.le_iff_toNat_le] at hb
  have hlt := b.toNat_lt
  have hsum : b.toNat % 128 + 128 = b.toNat := by
    change 128 ≤ b.toNat at hb
    omega
  rw [hsum, UInt8.ofNat_toNat]

/-- The written spelling of a number is the shortest, and the only one without needless groups. -/
lemma Spells.encode_spec (h : Spells width n bytes) :
    (encode n).length ≤ bytes.length ∧ (encode n = bytes ↔ ¬ Padded bytes) := by
  induction bytes generalizing width n with
  | nil => exact absurd rfl h.ne_nil
  | cons b bytes ih =>
    by_cases hne : bytes = []
    · subst hne
      obtain ⟨hb, rfl, -⟩ := (spells_singleton h.width_pos).mp h
      have hsmall : b.toNat < 128 := UInt8.lt_iff_toNat_lt.mp hb
      rw [encode, if_pos hsmall, UInt8.ofNat_toNat]
      exact ⟨le_rfl, iff_of_true rfl (not_padded_singleton b)⟩
    · obtain ⟨hb, hmore, htail, hn⟩ := (spells_cons hne).mp h
      obtain ⟨hle, hiff⟩ := ih htail
      rw [padded_cons hne hb]
      by_cases hzero : value bytes = 0
      -- The groups behind the first byte add nothing, and the last of them is zero.
      · have hsmall : n < 128 := by omega
        have hpadded : bytes = [0] ∨ Padded bytes := by
          rw [hzero, encode, if_pos (by decide)] at hiff
          by_cases h : Padded bytes
          · exact .inr h
          · exact .inl (hiff.mpr h).symm
        rw [encode, if_pos hsmall]
        refine ⟨by simp, iff_of_false ?_ (not_not.mpr hpadded)⟩
        intro hbytes
        exact hne (List.cons.inj hbytes).2.symm
      · have hbig : ¬ n < 128 := by omega
        have hlow : n % 128 = b.toNat % 128 := by omega
        have hhigh : n / 128 = value bytes := by omega
        have hbytes : bytes ≠ [0] := by
          rintro rfl
          exact hzero rfl
        rw [encode, if_neg hbig, hlow, hhigh, ofNat_toNat_mod hb, List.length_cons,
          List.length_cons, List.cons.injEq]
        simp [hle, hiff, hbytes]

end Wire.Varint

end NumericTrees
