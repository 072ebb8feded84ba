import NumericTrees.Proofs.Spelling

/-!
# Recodings

What was read may have been spelled with needless groups in its numbers. Written again it is in its
canonical form, which is the shortest spelling of the item and the only one without such groups.
-/

namespace NumericTrees

open Wire

/-- The bytes from which an item was read are another spelling of it. Alone they read as the item
and cut short as nothing; what is written for the item is no longer than they are, differs from
them by needless groups alone, and reads as the item again. -/
structure Recodes {α : Type} (parts : α → List Part) (encode : α → List UInt8) (read : Reader α)
    (x : α) (front : List UInt8) : Prop where
  alone : read front = .ok (x, [])
  ends : ∀ short, short <+: front → short ≠ front → read short = .error .unexpectedEnd
  spelled : ∃ pieces, Spells (parts x) pieces ∧ front = pieces.flatten
  length_le : (encode x).length ≤ front.length
  canonical : ∀ pieces, Spells (parts x) pieces → front = pieces.flatten →
    (encode x = front ↔ ∀ piece ∈ (parts x).zip pieces, ¬ piece.1.Padded piece.2)
  again : ∀ rest, read (encode x ++ rest) = .ok (x, rest)

/-- What is written for an item is its parts, and what reads as an item is the spellings of these
parts. -/
structure AcceptsRecodings {α : Type} (parts : α → List Part) (encode : α → List UInt8)
    (read : Reader α) : Prop where
  encode_eq : ∀ x, encode x = ((parts x).map Part.encode).flatten
  read_iff : ∀ bytes x rest, read bytes = .ok (x, rest) ↔
    ∃ pieces, Spells (parts x) pieces ∧ bytes = pieces.flatten ++ rest
  recodes : ∀ bytes x rest, read bytes = .ok (x, rest) →
    ∃ front, bytes = front ++ rest ∧ Recodes parts encode read x front

lemma Accepts.recodings {α : Type} {items : Set α} {parts : α → List Part}
    {encode : α → List UInt8} {read : Reader α} (h : Accepts read items parts)
    (hencode : ∀ x, encode x = ((parts x).map Part.encode).flatten)
    (hitems : ∀ x pieces, Spells (parts x) pieces → x ∈ items) :
    AcceptsRecodings parts encode read where
  encode_eq := hencode
  read_iff bytes x rest := by
    constructor
    · exact fun hread => (h.spelled bytes x rest hread).2
    · rintro ⟨pieces, hpieces, rfl⟩
      exact h.reads x (hitems x pieces hpieces) pieces hpieces rest
  recodes bytes x rest hread := by
    obtain ⟨hx, pieces, hpieces, rfl⟩ := h.spelled bytes x rest hread
    refine ⟨pieces.flatten, rfl, ?_⟩
    constructor
    case alone =>
      have halone := h.reads x hx pieces hpieces []
      rwa [List.append_nil] at halone
    case ends => exact h.ends x hx pieces hpieces
    case spelled => exact ⟨pieces, hpieces, rfl⟩
    case length_le =>
      rw [hencode]
      exact hpieces.encode_spec.1
    case canonical =>
      intro pieces' hpieces' hfront
      rw [hencode, hfront]
      exact hpieces'.encode_spec.2
    case again =>
      rw [hencode]
      exact h.reads x hx _ hpieces.encode

lemma Value.fits_of_spells {v : Value} {pieces : List (List UInt8)} (h : Spells v.parts pieces) :
    v.Fits := by
  cases v with
  | number _ | bool _ => trivial
  | str s =>
    obtain ⟨_, pieces, -, hpieces, -⟩ := List.forall₂_cons_left_iff.mp h
    obtain ⟨_, _, hlength, -, -⟩ := List.forall₂_cons_left_iff.mp hpieces
    exact hlength.lt

/-- Kinds, types, numbers and values are read from all spellings of their parts and from nothing
else. -/
theorem read_accepts_recodings :
    AcceptsRecodings Kind.parts Kind.encode Kind.read ∧
    AcceptsRecodings ValueType.parts ValueType.encode ValueType.read ∧
    AcceptsRecodings Number.parts Number.encode Number.read ∧
    AcceptsRecodings Value.parts Value.encode Value.read := by
  refine ⟨?_, ?_, ?_, ?_⟩
  · exact Kind.accepts.recodings Kind.encode_eq fun _ _ _ => trivial
  · exact ValueType.accepts.recodings ValueType.encode_eq fun _ _ _ => trivial
  · exact Number.accepts.recodings Number.encode_eq fun _ _ _ => trivial
  · exact Value.accepts.recodings Value.encode_eq fun _ _ => Value.fits_of_spells

/-- A text whose alternative has one needless group and whose length has two, in front of another
byte. -/
theorem read_accepts_recodings_padded :
    Value.read [0x82, 0x00, 0x81, 0x80, 0x00, 0x61, 0xff] = .ok (.str "a", [0xff]) ∧
    Value.read [0x82, 0x00, 0x81, 0x80] = .error .unexpectedEnd ∧
    Value.read (Value.encode (.str "a") ++ [0xff]) = .ok (.str "a", [0xff]) := by
  have hread : Value.read [0x82, 0x00, 0x81, 0x80, 0x00, 0x61, 0xff] = .ok (.str "a", [0xff]) := by
    rfl
  obtain ⟨-, -, -, hvalue⟩ := read_accepts_recodings
  obtain ⟨front, hfront, hrecodes⟩ := hvalue.recodes _ _ _ hread
  have hbytes : [0x82, 0x00, 0x81, 0x80, 0x00, 0x61] = front := List.append_cancel_right hfront
  refine ⟨hread, hrecodes.ends _ ?_ ?_, hrecodes.again [0xff]⟩
  · exact ⟨[0x00, 0x61], hbytes⟩
  · rw [← hbytes]
    decide

end NumericTrees
