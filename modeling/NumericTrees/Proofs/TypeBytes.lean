import NumericTrees.Proofs.Spelling

/-!
# Types at the front of values

Values, numbers, types and kinds number their alternatives each for themselves, and the numbers
agree: a value has that of its type and a number that of its kind. So the parts of a value begin
with the parts of its type, and a reader of types that is given the bytes of a value answers the
type of the value, however the value is spelled.
-/

namespace NumericTrees

open Wire

/-- Items begin with the byte form of their sort. It is in front of what is written for an item, and
it is read from everything that reads as the item. -/
structure BeginsWithSort {α β : Type} (sort : α → β) (encode : α → List UInt8)
    (encodeSort : β → List UInt8) (read : Reader α) (readSort : Reader β) : Prop where
  encode_eq : ∀ x, ∃ content, encode x = encodeSort (sort x) ++ content ∧
    ∀ rest, readSort (encode x ++ rest) = .ok (sort x, content ++ rest)
  read_sort : ∀ bytes x rest, read bytes = .ok (x, rest) →
    ∃ content, readSort bytes = .ok (sort x, content ++ rest)
  eq_sort : ∀ bytes x y rest rest', read bytes = .ok (x, rest) → readSort bytes = .ok (y, rest') →
    y = sort x

lemma Accepts.beginsWithSort {α β : Type} {items : Set α} {parts : α → List Part}
    {sortParts : β → List Part} {sort : α → β} {encode : α → List UInt8}
    {encodeSort : β → List UInt8} {read : Reader α} {readSort : Reader β}
    (h : Accepts read items parts) (hsort : Accepts readSort Set.univ sortParts)
    (hencode : ∀ x, encode x = ((parts x).map Part.encode).flatten)
    (hencodeSort : ∀ y, encodeSort y = ((sortParts y).map Part.encode).flatten)
    (hreads : ∀ y, Reads readSort (encodeSort y) y)
    (hparts : ∀ x, ∃ more, parts x = sortParts (sort x) ++ more) :
    BeginsWithSort sort encode encodeSort read readSort := by
  have hfront : ∀ bytes x rest, read bytes = .ok (x, rest) →
      ∃ content, readSort bytes = .ok (sort x, content ++ rest) := by
    intro bytes x rest hread
    obtain ⟨-, pieces, hpieces, rfl⟩ := h.spelled bytes x rest hread
    obtain ⟨more, hmore⟩ := hparts x
    rw [hmore] at hpieces
    obtain ⟨front, behind, rfl, hspells, -⟩ := hpieces.exists_append
    refine ⟨behind.flatten, ?_⟩
    rw [List.flatten_append, List.append_assoc]
    exact hsort.reads (sort x) trivial front hspells _
  constructor
  case encode_eq =>
    intro x
    obtain ⟨more, hmore⟩ := hparts x
    have hbytes : encode x = encodeSort (sort x) ++ (more.map Part.encode).flatten := by
      rw [hencode, hencodeSort, hmore, List.map_append, List.flatten_append]
    refine ⟨_, hbytes, fun rest => ?_⟩
    rw [hbytes, List.append_assoc]
    exact hreads (sort x) _
  case read_sort => exact hfront
  case eq_sort =>
    intro bytes x y rest rest' hx hy
    obtain ⟨content, hread⟩ := hfront bytes x rest hx
    rw [hread] at hy
    cases hy
    rfl

/-- A number has the alternative that its kind has among the kinds. -/
lemma Number.variant_eq_rank (n : Number) : n.variant = n.kind.rank := by
  cases n <;> rfl

lemma Number.parts_eq (n : Number) : n.parts = n.kind.parts ++ n.content := by
  rw [parts, Kind.parts, variant_eq_rank, List.singleton_append]

/-- A value has the alternative that its type has among the types. -/
lemma Value.variant_eq (v : Value) : v.variant = v.type.variant := by
  cases v <;> rfl

lemma Value.exists_parts_eq (v : Value) : ∃ more, v.parts = v.type.parts ++ more := by
  rw [parts, ValueType.parts, variant_eq]
  cases v with
  | number n => exact ⟨n.content, congrArg _ n.parts_eq⟩
  | bool b => exact ⟨[.fixed (encodeBool b)], rfl⟩
  | str s => exact ⟨[.varint 64 (Text.utf8 s).length, .fixed (Text.utf8 s)], rfl⟩

/-- Values begin with their types, and numbers with their kinds. -/
theorem values_begin_with_types :
    BeginsWithSort Value.type Value.encode ValueType.encode Value.read ValueType.read ∧
    BeginsWithSort Number.kind Number.encode Kind.encode Number.read Kind.read := by
  constructor
  · exact Value.accepts.beginsWithSort ValueType.accepts Value.encode_eq ValueType.encode_eq
      ValueType.reads Value.exists_parts_eq
  · exact Number.accepts.beginsWithSort Kind.accepts Number.encode_eq Kind.encode_eq Kind.reads
      fun n => ⟨n.content, n.parts_eq⟩

/-- A number whose alternative and kind have needless groups. -/
theorem values_begin_with_types_padded :
    Value.read [0x80, 0x80, 0x00, 0x81, 0x00, 0x05] = .ok (.number (.int64 (-3)), []) ∧
    ∀ type rest, ValueType.read [0x80, 0x80, 0x00, 0x81, 0x00, 0x05] = .ok (type, rest) →
      type = .numeric .int64 := by
  have hread : Value.read [0x80, 0x80, 0x00, 0x81, 0x00, 0x05] =
      .ok (.number (.int64 (-3)), []) := by
    rfl
  obtain ⟨hvalue, -⟩ := values_begin_with_types
  exact ⟨hread, fun type rest htype => hvalue.eq_sort _ _ type _ rest hread htype⟩

end NumericTrees
